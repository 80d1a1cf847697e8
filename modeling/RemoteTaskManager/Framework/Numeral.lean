import Mathlib.Data.Rat.Defs
import RemoteTaskManager.Framework.WideText

/-!
# Decimal numerals

`readNumeral` reads digits, or digits, a point and digits, and no other text.
It undoes `decimal` (`readNumeral_decimal`), also with digits after a point
(`readNumeral_point`).
-/

namespace RTM

/-- The number that a numeral stands for. -/
def readNumeral (s : WString) : Option ℚ :=
  let whole := s.takeWhile isDigit
  if whole = [] then none else
  match s.dropWhile isDigit with
  | [] => some (decimalValue whole)
  | c :: fraction =>
    if c = wchar '.' ∧ fraction ≠ [] ∧ fraction.all isDigit = true then
      some (decimalValue whole + decimalValue fraction / 10 ^ fraction.length)
    else none

/-- A digit or the point. -/
def inNumeral (c : WChar) : Bool := isDigit c || c == wchar '.'

section

variable {s t : WString}

theorem takeWhile_isDigit_append (hs : ∀ c ∈ s, isDigit c = true) (ht : ∀ c ∈ t.head?, isDigit c = false) :
    (s ++ t).takeWhile isDigit = s ∧ (s ++ t).dropWhile isDigit = t := by
  rw [List.takeWhile_append_of_pos hs, List.dropWhile_append_of_pos hs]
  cases t with
  | nil => exact ⟨List.append_nil s, rfl⟩
  | cons c t =>
    have hc : isDigit c = false := ht c rfl
    simp only [List.takeWhile_cons, List.dropWhile_cons, hc, Bool.false_eq_true, ↓reduceIte,
      List.append_nil, and_self]

theorem readNumeral_decimal (n : Nat) : readNumeral (decimal n) = some (n : ℚ) := by
  obtain ⟨ht, hd⟩ := takeWhile_isDigit_append (t := []) (fun _ => isDigit_of_mem_decimal (n := n))
    (by simp)
  rw [List.append_nil] at ht hd
  dsimp only [readNumeral]
  rw [ht, hd, if_neg (decimal_ne_nil n), decimalValue_decimal]

theorem readNumeral_point (n : Nat) (hs : s ≠ []) (hd : s.all isDigit = true) :
    readNumeral (decimal n ++ wchar '.' :: s) =
      some (n + decimalValue s / 10 ^ s.length : ℚ) := by
  obtain ⟨ht, hr⟩ := takeWhile_isDigit_append (t := wchar '.' :: s)
    (fun _ => isDigit_of_mem_decimal (n := n)) (by rintro c ⟨⟩; decide)
  dsimp only [readNumeral]
  rw [ht, hr, if_neg (decimal_ne_nil n), decimalValue_decimal]
  exact if_pos ⟨rfl, hs, hd⟩

end

end RTM
