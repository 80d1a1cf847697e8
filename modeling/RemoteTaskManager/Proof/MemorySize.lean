import RemoteTaskManager.Proof.ColumnItems
import RemoteTaskManager.Proof.MemoryText

/-!
# What a memory size says

The size that is shown is that of the value rounded to 53 bits, rounded again
to the hundredths (or the whole) of its unit: it is close to the value and grows
with it (`size_text_accurate`). But the unit is the one of the number before it
is rounded the second time, so just below the next unit a value is shown as
1024 of its own (`proper_unit_iff`).
-/

namespace RTM.Proof.MemorySize

open RTM.Impl RTM.Spec RTM.Proof.ColumnItems RTM.Proof.MemoryText

/-! ## The hundredths of a unit -/

section

variable {u : MemoryUnit} {n n' : Nat}

theorem shownHundredths_mono (u : MemoryUnit) (h : n ≤ n') :
    shownHundredths u n ≤ shownHundredths u n' := by
  have hr : divRoundEven (100 * n) u.bytes ≤ divRoundEven (100 * n') u.bytes :=
    divRoundEven_mono u.bytes_pos (by omega)
  cases u
  case B => simp only [shownHundredths]; omega
  case KB => simp only [shownHundredths]; omega
  all_goals exact hr

/-- A whole number of units is shown as it is. -/
theorem shownHundredths_mul (u : MemoryUnit) (k : Nat) : shownHundredths u (k * u.bytes) = 100 * k := by
  have hr : divRoundEven (100 * (k * u.bytes)) u.bytes = 100 * k := by
    rw [← Nat.mul_assoc]
    exact divRoundEven_mul u.bytes_pos
  cases u
  case B => simp only [shownHundredths, MemoryUnit.bytes, Nat.mul_one]
  case KB => simp only [shownHundredths, MemoryUnit.bytes]; omega
  all_goals exact hr

theorem le_shownHundredths (h : MemoryUnit.of n ≠ .B) : 100 ≤ shownHundredths (.of n) n :=
  calc 100 = shownHundredths (.of n) (1 * (MemoryUnit.of n).bytes) :=
        (shownHundredths_mul _ 1).symm
    _ ≤ shownHundredths (.of n) n :=
        shownHundredths_mono _ (by rw [Nat.one_mul]; exact MemoryUnit.bytes_le h)

theorem shownHundredths_le (h : MemoryUnit.of n ≠ .EB) : shownHundredths (.of n) n ≤ 102400 :=
  calc shownHundredths (.of n) n ≤ shownHundredths (.of n) (1024 * (MemoryUnit.of n).bytes) :=
        shownHundredths_mono _ (Nat.le_of_lt (MemoryUnit.lt_bytes h))
    _ = 102400 := shownHundredths_mul _ 1024

/-- How far apart the sizes are that a unit can show, in hundredths of a byte; in
bytes every number is shown exactly. -/
def spacing : MemoryUnit → Nat
  | .B => 0
  | .KB => 100 * MemoryUnit.KB.bytes
  | u => u.bytes

/-- What is shown is at most half a spacing away. -/
theorem shownHundredths_error (u : MemoryUnit) (n : Nat) :
    2 * (shownHundredths u n * u.bytes) ≤ 2 * (100 * n) + spacing u ∧
      2 * (100 * n) ≤ 2 * (shownHundredths u n * u.bytes) + spacing u := by
  have hr := And.intro (two_mul_divRoundEven_le (n := 100 * n) u.bytes_pos)
    (le_two_mul_divRoundEven (n := 100 * n) u.bytes_pos)
  cases u
  case B => simp only [shownHundredths, MemoryUnit.bytes, spacing]; omega
  case KB => simp only [shownHundredths, MemoryUnit.bytes, spacing]; omega
  all_goals exact hr

/-! ## The number of bytes that is shown -/

/-- In hundredths of a byte. -/
def shownBytes (n : Nat) : Nat := shownHundredths (.of n) n * (MemoryUnit.of n).bytes

theorem value_shownSize (v : BitVec 64) :
    (shownSize v).value = (shownBytes (round53 v.toNat) : ℚ) / 100 := by
  simp only [shownSize, Size.value, shownBytes]
  push_cast
  ring

/-- A greater number is not shown as less. -/
theorem shownBytes_mono : Monotone shownBytes := by
  intro n n' h
  by_cases hu : MemoryUnit.of n = MemoryUnit.of n'
  · rw [shownBytes, shownBytes, hu]
    exact Nat.mul_le_mul_right _ (shownHundredths_mono _ h)
  · -- What is at most 1024 of the lesser unit is at most one of the greater.
    obtain ⟨hn, hn', hb⟩ := MemoryUnit.bytes_le_of_ne h hu
    calc shownBytes n ≤ 102400 * (MemoryUnit.of n).bytes :=
          Nat.mul_le_mul_right _ (shownHundredths_le hn)
      _ ≤ 100 * (MemoryUnit.of n').bytes := by omega
      _ ≤ shownBytes n' := Nat.mul_le_mul_right _ (le_shownHundredths hn')

/-- A number that begins a unit is shown exactly. -/
theorem shownHundredths_of_next {u w : MemoryUnit} (h : u.next = some w) :
    MemoryUnit.of (1024 * u.bytes) = w ∧ shownHundredths w (1024 * u.bytes) = 100 := by
  have hw : 1024 * u.bytes = 1 * w.bytes := by rw [MemoryUnit.bytes_of_next h, Nat.one_mul]
  rw [hw, MemoryUnit.of_eq_iff, shownHundredths_mul]
  have := w.bytes_pos
  exact ⟨⟨fun _ => by omega, fun _ => by omega⟩, rfl⟩

/-! ## How close it is to the value -/

variable {v : Nat}

/-- The unit that a value is shown in, or the one it reaches itself. -/
def UnitFor (v : Nat) (shown u : MemoryUnit) : Prop :=
  u = shown ∨ u.bytes ≤ v ∧ v < 1024 * u.bytes

/-- A value is shown in its own unit, or else it was rounded to a whole one of
the next. -/
theorem of_round53 (u : MemoryUnit) (hl : u.bytes ≤ v) (hu : v < 1024 * u.bytes) :
    MemoryUnit.of (round53 v) = u ∨
      round53 v = 1024 * u.bytes ∧ ∃ w, u.next = some w := by
  obtain ⟨k, hk, hk'⟩ := u.bytes_eq_two_pow
  have below : u.bytes ≤ round53 v := hk ▸ two_pow_le_round53 (hk ▸ hl)
  have above : round53 v ≤ 1024 * u.bytes := hk' ▸ round53_le_two_pow (hk' ▸ hu)
  by_cases hw : u.next.isSome
  · rcases Nat.lt_or_eq_of_le above with hlt | he
    · exact .inl ((MemoryUnit.of_eq_iff u).mpr ⟨fun _ => below, fun _ => hlt⟩)
    · exact .inr ⟨he, Option.isSome_iff_exists.mp hw⟩
  · refine .inl ((MemoryUnit.of_eq_iff u).mpr ⟨fun _ => below, fun hne => ?_⟩)
    cases u <;> first | exact absurd rfl hne | exact absurd rfl hw

/-- From MB on, half a hundredth of the unit is lost, and what the conversion
to a `double` loses. -/
theorem shownBytes_accurate (hv : v < 2 ^ 64) (hMB : 2 ^ 20 ≤ v) {u : MemoryUnit}
    (hu : UnitFor v (.of (round53 v)) u) :
    2 * shownBytes (round53 v) ≤ 200 * v + (u.bytes + 204800) ∧
      200 * v ≤ 2 * shownBytes (round53 v) + (u.bytes + 204800) := by
  have h53 := round53_error (n := v) (t := 11) hv
  have hMB' := two_pow_le_round53 hMB
  have own : u = .of (round53 v) → spacing u = u.bytes := by
    intro h
    have h' := (MemoryUnit.of_eq_iff u).mp h.symm
    cases u <;> simp [MemoryUnit.bytes] at h' <;> first | omega | rfl
  by_cases h : u = .of (round53 v)
  · have herr := shownHundredths_error u (round53 v)
    rw [own h] at herr
    rw [shownBytes, ← h]
    omega
  · obtain ⟨hl, hu⟩ := hu.resolve_left h
    obtain ⟨he, w, hw⟩ := (of_round53 u hl hu).resolve_left (Ne.symm h)
    have exact : shownBytes (round53 v) = 100 * round53 v := by
      obtain ⟨hof, hsh⟩ := shownHundredths_of_next hw
      rw [shownBytes, he, hof, hsh, MemoryUnit.bytes_of_next hw]
    omega

theorem abs_sub_le {a v t : Nat} (h : 2 * a ≤ 200 * v + t ∧ 200 * v ≤ 2 * a + t) :
    |(a : ℚ) / 100 - v| ≤ t / 200 := by
  have above : (2 * a : ℚ) ≤ 200 * v + t := by exact_mod_cast h.1
  have below : (200 * v : ℚ) ≤ 2 * a + t := by exact_mod_cast h.2
  rw [abs_le]
  constructor <;> linarith

/-- What a size says of the value it is shown for. -/
structure Accurate (v : Nat) (x : Size) : Prop where
  bytes : v < 2 ^ 10 → x.value = v
  kilobytes : 2 ^ 10 ≤ v → v < 2 ^ 20 → |x.value - v| ≤ 512
  above : 2 ^ 20 ≤ v → ∀ u, UnitFor v x.unit u → |x.value - v| ≤ u.bytes / 200 + 1024

theorem shownSize_accurate (v : BitVec 64) : Accurate v.toNat (shownSize v) where
  bytes h := by
    have hv : round53 v.toNat = v.toNat := round53_of_lt (by omega)
    have hof : MemoryUnit.of v.toNat = .B :=
      (MemoryUnit.of_eq_iff _).mpr ⟨fun h => absurd rfl h, fun _ => by simpa [MemoryUnit.bytes]⟩
    rw [value_shownSize, hv, shownBytes, hof]
    simp [shownHundredths, MemoryUnit.bytes]
  kilobytes hl hu := by
    have hv : round53 v.toNat = v.toNat := round53_of_lt (by omega)
    have hof : MemoryUnit.of v.toNat = .KB := (MemoryUnit.of_eq_iff _).mpr ⟨fun _ => hl, fun _ => hu⟩
    have herr := shownHundredths_error .KB v.toNat
    rw [value_shownSize, hv, shownBytes, hof]
    refine (abs_sub_le (t := 102400) ?_).trans (by norm_num)
    simp only [spacing, MemoryUnit.bytes] at herr ⊢
    omega
  above hMB u hu := by
    rw [value_shownSize]
    refine (abs_sub_le (shownBytes_accurate v.isLt hMB hu)).trans (le_of_eq ?_)
    push_cast
    ring

theorem compare_le_zero (v w : BitVec 64) :
    MemoryItem.compare (.ofUInt64 v) (.ofUInt64 w) ≤ 0 ↔ v ≤ w := by
  have h := compareValues_gt (a := v.toNat) (b := w.toNat)
  simp only [MemoryItem.compare, MemoryItem.ofUInt64, BitVec.le_def]
  omega

/-- The text of a value reads as a size that is accurate and grows with the
value, in the order of the column; and a number reads the same with its trailing
zeros and point as without. -/
theorem size_text_accurate :
    (∀ v w : BitVec 64, ∃ x y,
      readSize (memoryValueToWstring v) = some x ∧ readSize (memoryValueToWstring w) = some y ∧
      Accurate v.toNat x ∧ (v ≤ w → x.value ≤ y.value) ∧
      (v ≤ w ↔ MemoryItem.compare (.ofUInt64 v) (.ofUInt64 w) ≤ 0)) ∧
    ∀ (m : Nat) (e : Int), ∃ x, readNumeral (fixed2 (.finite m e)) = some x ∧
      readNumeral (to2DigitDec (.finite m e)) = some x := by
  refine ⟨fun v w => ⟨_, _, readSize_memoryValueToWstring v, readSize_memoryValueToWstring w,
    shownSize_accurate v, fun h => ?_, ?_⟩, fun m e => ⟨_, readNumeral_fixed2 _, ?_⟩⟩
  · rw [value_shownSize, value_shownSize]
    have hle := shownBytes_mono (round53_mono (BitVec.le_def.mp h))
    have hle' : (shownBytes (round53 v.toNat) : ℚ) ≤ shownBytes (round53 w.toNat) := by
      exact_mod_cast hle
    linarith
  · exact (compare_le_zero v w).symm
  · rw [to2DigitDec_eq]
    exact readNumeral_hundredthsText _

/-! ## Proper units -/

/-- The numeral is below 1024, and at least 1 from KB on; and 1024 of a unit is
shown as 1 of the next. -/
def ProperUnit (v : BitVec 64) : Prop :=
  ∃ x, readSize (memoryValueToWstring v) = some x ∧ x.numeral < 1024 ∧
    (x.unit ≠ .B → 1 ≤ x.numeral) ∧
    ∀ u w, MemoryUnit.next u = some w → v.toNat = 1024 * u.bytes →
      memoryValueToWstring v = wide "1" ++ w.suffix

/-- The values that are shown as 1024 of a unit: from 1023.5 KB, from 1023.995
of the unit after that, and up to the next unit, or to what a `double` tells
apart from it. -/
def Carries (v : Nat) : Prop :=
  (1048064 ≤ v ∧ v < 2 ^ 20) ∨ (1073736582 ≤ v ∧ v < 2 ^ 30) ∨
  (1099506259067 ≤ v ∧ v < 2 ^ 40) ∨ (1125894409284486 ≤ v ∧ v < 2 ^ 50) ∨
  (1152915875107312705 ≤ v ∧ v < 2 ^ 60 - 64)

instance (v : Nat) : Decidable (Carries v) := inferInstanceAs (Decidable (_ ∨ _))

/-- The same, of the value rounded to 53 bits. -/
def RoundedCarries (n : Nat) : Prop :=
  (1048064 ≤ n ∧ n < 2 ^ 20) ∨ (1073736582 ≤ n ∧ n < 2 ^ 30) ∨
  (1099506259067 ≤ n ∧ n < 2 ^ 40) ∨ (1125894409284486 ≤ n ∧ n < 2 ^ 50) ∨
  (1152915875107312763 ≤ n ∧ n < 2 ^ 60)

theorem carries_iff_rounded (v : Nat) : Carries v ↔ RoundedCarries (round53 v) := by
  have exact : ∀ x ≤ 2 ^ 53, (x ≤ v ↔ x ≤ round53 v) := fun x hx => (le_round53_iff_of_le hx).symm
  have range : ∀ {a b a' b' : Nat}, (a ≤ v ↔ a' ≤ round53 v) → (b ≤ v ↔ b' ≤ round53 v) →
      (a ≤ v ∧ v < b ↔ a' ≤ round53 v ∧ round53 v < b') := by
    intro a b a' b' ha hb
    omega
  -- Above `2 ^ 59` a `double` is a multiple of 128.
  have low : 1152915875107312705 ≤ v ↔ 1152915875107312763 ≤ round53 v :=
    (le_round53_iff (a := 1152915875107312704) (by decide) (by decide)).symm
  have high : 2 ^ 60 - 64 ≤ v ↔ 2 ^ 60 ≤ round53 v :=
    (le_round53_iff (a := 2 ^ 60 - 65) (by decide) (by decide)).symm
  have small : ∀ {a b : Nat}, a ≤ 2 ^ 53 → b ≤ 2 ^ 53 →
      (a ≤ v ∧ v < b ↔ a ≤ round53 v ∧ round53 v < b) := fun ha hb =>
    range (exact _ ha) (exact _ hb)
  exact or_congr (small (by decide) (by decide)) <| or_congr (small (by decide) (by decide)) <|
    or_congr (small (by decide) (by decide)) <| or_congr (small (by decide) (by decide)) <|
    range low high

/-- From MB on, 102400 hundredths are shown from 1023.995 on. -/
theorem le_divRoundEven_hundredths (u : MemoryUnit) (n : Nat) :
    102400 ≤ divRoundEven (100 * n) u.bytes ↔ 204799 * u.bytes ≤ 200 * n := by
  rw [le_divRoundEven_iff u.bytes_pos]
  omega

theorem roundedCarries_iff {n : Nat} (hn : n ≤ 2 ^ 64) :
    RoundedCarries n ↔ 102400 ≤ shownHundredths (.of n) n := by
  have hr : ∀ u, _ := fun u => le_divRoundEven_hundredths u n
  generalize hu : MemoryUnit.of n = u
  obtain ⟨hl, hu⟩ := (MemoryUnit.of_eq_iff u).mp hu
  specialize hr u
  unfold RoundedCarries
  cases u
  case B => simp [MemoryUnit.bytes] at hl hu; simp only [shownHundredths]; omega
  case KB => simp [MemoryUnit.bytes] at hl hu; simp only [shownHundredths]; omega
  all_goals
    simp [MemoryUnit.bytes] at hl hu
    refine Iff.trans ?_ hr.symm
    simp only [MemoryUnit.bytes]
    omega

theorem numeral_shownSize (v : BitVec 64) :
    ((shownSize v).numeral < 1024 ↔ ¬ Carries v.toNat) ∧
      ((shownSize v).unit ≠ .B → 1 ≤ (shownSize v).numeral) := by
  have hn : round53 v.toNat ≤ 2 ^ 64 := round53_le_two_pow v.isLt
  constructor
  · rw [carries_iff_rounded, roundedCarries_iff hn, Nat.not_le]
    simp only [shownSize]
    rw [div_lt_iff₀ (by norm_num), show (1024 * 100 : ℚ) = (102400 : Nat) by norm_num]
    exact Nat.cast_lt
  · intro h
    have h1 := le_shownHundredths h
    simp only [shownSize]
    rw [le_div_iff₀ (by norm_num)]
    exact_mod_cast h1

/-- 1024 of a unit is shown as 1 of the next. -/
theorem memoryValueToWstring_of_next {v : BitVec 64} {u w : MemoryUnit} (h : u.next = some w)
    (hv : v.toNat = 1024 * u.bytes) : memoryValueToWstring v = wide "1" ++ w.suffix := by
  obtain ⟨k, -, hk⟩ := u.bytes_eq_two_pow
  have hr : round53 v.toNat = 1024 * u.bytes := by
    rw [hv, hk]
    exact round53_two_pow _
  obtain ⟨hof, hsh⟩ := shownHundredths_of_next h
  rw [memoryValueToWstring_eq, hr, sizeText, hof, hsh]
  rfl

/-- A value is shown in its proper unit exactly when it is not in one of five
ranges, each just below a unit. -/
theorem proper_unit_iff (v : BitVec 64) : ProperUnit v ↔ ¬ Carries v.toNat := by
  have hread := readSize_memoryValueToWstring v
  obtain ⟨hlt, hge⟩ := numeral_shownSize v
  constructor
  · rintro ⟨x, hx, hx1024, -⟩
    rw [hread, Option.some_inj] at hx
    rw [← hx] at hx1024
    exact hlt.mp hx1024
  · intro h
    exact ⟨_, hread, hlt.mpr h, hge, fun _ _ => memoryValueToWstring_of_next⟩

/-- One byte below 1 MB, what is shown is 1024 KB; and so on to 1 EB. -/
theorem shown_below_unit :
    memoryValueToWstring 1048575 = wide "1024KB" ∧
    memoryValueToWstring 1073741823 = wide "1024MB" ∧
    memoryValueToWstring 1099511627775 = wide "1024GB" ∧
    memoryValueToWstring 1125899906842623 = wide "1024TB" ∧
    memoryValueToWstring 1152921504606846911 = wide "1024PB" ∧
    ¬ ∀ v, ProperUnit v := by
  refine ⟨by decide, by decide, by decide, by decide, by decide, fun h => ?_⟩
  obtain ⟨x, hx, hlt, -⟩ := h 1048575
  have e : readSize (memoryValueToWstring 1048575) = some ⟨1024, .KB⟩ := by decide
  rw [e, Option.some_inj] at hx
  rw [← hx] at hlt
  exact absurd hlt (by decide)

end

end RTM.Proof.MemorySize
