import Mathlib.Algebra.Group.Nat.Defs
import Mathlib.Data.Rat.Defs
import RemoteTaskManager.Framework.Numeral

/-!
# Sizes as a reader sees them

The text of a size is a numeral and a unit (`readSize`); what it says is their
product (`Size.value`). A number of bytes belongs to the greatest unit that it
reaches (`MemoryUnit.of`).
-/

namespace RTM.Spec

inductive MemoryUnit where
  | B | KB | MB | GB | TB | PB | EB
deriving DecidableEq, Repr

namespace MemoryUnit

def all : List MemoryUnit := [B, KB, MB, GB, TB, PB, EB]

def bytes : MemoryUnit → Nat
  | B => 1
  | KB => 2 ^ 10
  | MB => 2 ^ 20
  | GB => 2 ^ 30
  | TB => 2 ^ 40
  | PB => 2 ^ 50
  | EB => 2 ^ 60

def suffix : MemoryUnit → WString
  | B => wide "B"
  | KB => wide "KB"
  | MB => wide "MB"
  | GB => wide "GB"
  | TB => wide "TB"
  | PB => wide "PB"
  | EB => wide "EB"

/-- The next greater unit. -/
def next : MemoryUnit → Option MemoryUnit
  | B => some KB
  | KB => some MB
  | MB => some GB
  | GB => some TB
  | TB => some PB
  | PB => some EB
  | EB => none

/-- The greatest unit that `n` bytes reach. -/
def of (n : Nat) : MemoryUnit :=
  if n < KB.bytes then B
  else if n < MB.bytes then KB
  else if n < GB.bytes then MB
  else if n < TB.bytes then GB
  else if n < PB.bytes then TB
  else if n < EB.bytes then PB
  else EB

end MemoryUnit

/-- A numeral and a unit. -/
structure Size where
  numeral : ℚ
  unit : MemoryUnit
deriving DecidableEq

/-- The number of bytes that a size says. -/
def Size.value (x : Size) : ℚ := x.numeral * x.unit.bytes

/-- The text of a size, read. -/
def readSize (s : WString) : Option Size := do
  let numeral ← readNumeral (s.takeWhile inNumeral)
  let unit ← MemoryUnit.all.find? fun u => u.suffix = s.dropWhile inNumeral
  return ⟨numeral, unit⟩

namespace MemoryUnit

variable {n n' : Nat}

theorem bytes_pos (u : MemoryUnit) : 0 < u.bytes := by
  cases u <;> simp [bytes]

theorem bytes_eq_two_pow (u : MemoryUnit) : ∃ k, u.bytes = 2 ^ k ∧ 1024 * u.bytes = 2 ^ (k + 10) := by
  have e : ∀ k, 1024 * 2 ^ k = 2 ^ (k + 10) := fun k => by rw [Nat.pow_add, Nat.mul_comm]
  cases u
  case B => exact ⟨0, rfl, e 0⟩
  case KB => exact ⟨10, rfl, e 10⟩
  case MB => exact ⟨20, rfl, e 20⟩
  case GB => exact ⟨30, rfl, e 30⟩
  case TB => exact ⟨40, rfl, e 40⟩
  case PB => exact ⟨50, rfl, e 50⟩
  case EB => exact ⟨60, rfl, e 60⟩

theorem bytes_of_next {u v : MemoryUnit} (h : u.next = some v) : v.bytes = 1024 * u.bytes := by
  cases u <;> cases h <;> decide

/-- Where a unit is the unit of a number. -/
theorem of_eq_iff (u : MemoryUnit) :
    of n = u ↔ (u ≠ B → u.bytes ≤ n) ∧ (u ≠ EB → n < 1024 * u.bytes) := by
  unfold of
  (repeat' split) <;> cases u <;> simp [bytes] at * <;> omega

theorem bytes_le (h : of n ≠ B) : (of n).bytes ≤ n := ((of_eq_iff _).mp rfl).1 h

theorem lt_bytes (h : of n ≠ EB) : n < 1024 * (of n).bytes := ((of_eq_iff _).mp rfl).2 h

/-- The greater of two units is at least 1024 times the other. -/
theorem bytes_le_of_ne (h : n ≤ n') (hne : of n ≠ of n') :
    of n ≠ EB ∧ of n' ≠ B ∧ 1024 * (of n).bytes ≤ (of n').bytes := by
  generalize hu : of n = u at hne ⊢
  generalize hu' : of n' = u' at hne ⊢
  rw [of_eq_iff] at hu hu'
  cases u <;> cases u' <;> simp [bytes] at * <;> omega

theorem find?_suffix (u : MemoryUnit) : all.find? (fun v => v.suffix = u.suffix) = some u := by
  cases u <;> decide

theorem not_inNumeral_suffix (u : MemoryUnit) : u.suffix.head?.all (fun c => !inNumeral c) = true := by
  cases u <;> decide

end MemoryUnit

/-- A numeral and a unit are told apart. -/
theorem readSize_append {s : WString} {x : ℚ} (u : MemoryUnit)
    (hs : s.all inNumeral = true) (hx : readNumeral s = some x) :
    readSize (s ++ u.suffix) = some ⟨x, u⟩ := by
  have hu : u.suffix.takeWhile inNumeral = [] ∧ u.suffix.dropWhile inNumeral = u.suffix := by
    have := u.not_inNumeral_suffix
    cases h : u.suffix with
    | nil => exact ⟨rfl, rfl⟩
    | cons c t =>
      rw [h, List.head?_cons, Option.all_some, Bool.not_eq_true'] at this
      simp [this]
  have hs' := List.all_eq_true.mp hs
  rw [readSize, List.takeWhile_append_of_pos hs', List.dropWhile_append_of_pos hs', hu.1, hu.2,
    List.append_nil, hx, u.find?_suffix]
  rfl

end RTM.Spec
