import Mathlib.Data.List.TakeWhile
import Mathlib.Tactic.FieldSimp
import Mathlib.Tactic.Linarith
import RemoteTaskManager.Framework.Rounding
import RemoteTaskManager.Impl.ColumnItems
import RemoteTaskManager.Spec.Size

/-!
# The text of a memory size

`to_2digit_dec` shows a number as its hundredths without trailing zeros
(`to2DigitDec_eq`), and `memory_value_to_wstring` shows a number of bytes,
rounded to 53 bits, in the unit of the rounded number
(`memoryValueToWstring_eq`). So what is read back is the number of hundredths
of that unit (`readSize_memoryValueToWstring`).
-/

namespace RTM.Proof.MemoryText

open RTM.Impl RTM.Spec

/-! ## Hundredths -/

/-- The digits of `r` hundredths, `r < 100`, without trailing zeros. -/
def fractionDigits (r : Nat) : WString :=
  if r % 10 = 0 then decimal (r / 10) else (if r < 10 then wide "0" else []) ++ decimal r

/-- The text of `h` hundredths, without trailing zeros. -/
def hundredthsText (h : Nat) : WString :=
  decimal (h / 100) ++ if h % 100 = 0 then [] else wchar '.' :: fractionDigits (h % 100)

/-- Both digits of `r` hundredths, `r < 100`. -/
def twoDigits (r : Nat) : WString := (if r < 10 then wide "0" else []) ++ decimal r

theorem fixed2_eq (d : Double) :
    fixed2 d = decimal (d.hundredths / 100) ++ wchar '.' :: twoDigits (d.hundredths % 100) := by
  have point : wide "." = [wchar '.'] := rfl
  simp only [fixed2, twoDigits, point, List.append_assoc, List.cons_append,
    List.nil_append]

theorem twoDigits_spec : ∀ r < 100, twoDigits r ≠ [] ∧ (twoDigits r).all isDigit = true ∧
    (twoDigits r).length = 2 ∧ decimalValue (twoDigits r) = r := by
  decide +kernel

theorem fractionDigits_spec : ∀ r < 100, r ≠ 0 → fractionDigits r ≠ [] ∧
    (fractionDigits r).all isDigit = true ∧
    decimalValue (fractionDigits r) * 100 = r * 10 ^ (fractionDigits r).length := by
  decide +kernel

/-- The trailing zeros of the two digits. -/
theorem dropTrailing_twoDigits : ∀ r < 100, dropTrailing (wchar '0') (wchar '.' :: twoDigits r) =
    wchar '.' :: if r = 0 then [] else fractionDigits r := by
  decide +kernel

/-- What comes before another character stays. -/
theorem dropTrailing_append {c x : WChar} {s t : WString} (hx : x ∈ t) (hc : x ≠ c) :
    dropTrailing c (s ++ t) = s ++ dropTrailing c t := by
  have h : (t.reverse.dropWhile (· == c)).isEmpty = false := by
    rw [List.isEmpty_eq_false_iff, ne_eq, List.dropWhile_eq_nil_iff]
    exact fun h => hc (by simpa using h x (List.mem_reverse.mpr hx))
  rw [dropTrailing, List.reverse_append, List.dropWhile_append, h]
  simp only [Bool.false_eq_true, ↓reduceIte, List.reverse_append, List.reverse_reverse, dropTrailing]

/-- The loop stops at the point at the latest, and then the point goes too. -/
theorem to2DigitDec_eq (d : Double) : to2DigitDec d = hundredthsText d.hundredths := by
  have hr : d.hundredths % 100 < 100 := Nat.mod_lt _ (by omega)
  have hpoint : (fixed2 d).contains (wchar '.') = true := by
    rw [fixed2_eq, List.contains_iff_mem]
    exact List.mem_append_right _ List.mem_cons_self
  dsimp only [to2DigitDec]
  rw [if_pos hpoint, fixed2_eq, dropTrailing_append List.mem_cons_self (by decide),
    dropTrailing_twoDigits _ hr, hundredthsText]
  by_cases h0 : d.hundredths % 100 = 0
  · rw [if_pos h0, if_pos h0, List.getLast?_concat, if_pos rfl, List.dropLast_concat, List.append_nil]
  · obtain ⟨hne, hdigits, -⟩ := fractionDigits_spec _ hr h0
    rw [if_neg h0, if_neg h0, if_neg]
    intro hlast
    rw [List.getLast?_append, List.getLast?_cons, Option.some_or, Option.some_inj] at hlast
    obtain ⟨c, hc⟩ := List.getLast?_isSome.mpr hne |> Option.isSome_iff_exists.mp
    rw [hc, Option.getD_some] at hlast
    have := List.all_eq_true.mp hdigits c (List.mem_of_getLast? hc)
    rw [hlast] at this
    revert this
    decide

/-! ## Reading -/

theorem readNumeral_fixed2 (d : Double) : readNumeral (fixed2 d) = some (d.hundredths / 100 : ℚ) := by
  obtain ⟨hne, hdigits, hlen, hval⟩ := twoDigits_spec _ (Nat.mod_lt d.hundredths (by omega : 100 > 0))
  have e := Nat.div_add_mod d.hundredths 100
  rw [fixed2_eq, readNumeral_point _ hne hdigits, hlen, hval]
  generalize d.hundredths / 100 = q at e
  generalize d.hundredths % 100 = r at e
  rw [← e]
  push_cast
  congr 1
  ring

/-- Nothing is lost with the trailing zeros. -/
theorem readNumeral_hundredthsText (h : Nat) : readNumeral (hundredthsText h) = some (h / 100 : ℚ) := by
  have e := Nat.div_add_mod h 100
  have hr : h % 100 < 100 := Nat.mod_lt _ (by omega)
  rw [hundredthsText]
  generalize h / 100 = q at e
  generalize h % 100 = r at e hr
  by_cases h0 : r = 0
  · rw [if_pos h0, List.append_nil, readNumeral_decimal, ← e, h0]
    push_cast
    congr 1
    ring
  · obtain ⟨hne, hdigits, hval⟩ := fractionDigits_spec r hr h0
    have hval' : (decimalValue (fractionDigits r) : ℚ) * 100 = r * 10 ^ (fractionDigits r).length := by
      exact_mod_cast hval
    rw [if_neg h0, readNumeral_point q hne hdigits, ← e]
    push_cast
    congr 1
    field_simp
    linarith

theorem inNumeral_hundredthsText (h : Nat) : (hundredthsText h).all inNumeral = true := by
  have digit : ∀ c : WChar, isDigit c = true → inNumeral c = true := fun c hc => by
    rw [inNumeral, hc, Bool.true_or]
  refine List.all_eq_true.mpr fun c hc => ?_
  rcases List.mem_append.mp hc with hc | hc
  · exact digit c (isDigit_of_mem_decimal hc)
  · by_cases h0 : h % 100 = 0
    · rw [if_pos h0] at hc
      exact absurd hc (List.not_mem_nil)
    · rw [if_neg h0] at hc
      rcases List.mem_cons.mp hc with rfl | hc
      · decide
      · have := (fractionDigits_spec _ (Nat.mod_lt _ (by omega)) h0).2.1
        exact digit c (List.all_eq_true.mp this c hc)

/-! ## The text of a size -/

/-- How many hundredths of the unit `n` bytes are shown as. -/
def shownHundredths (u : MemoryUnit) (n : Nat) : Nat :=
  match u with
  | .B => 100 * n
  | .KB => 100 * ((2 * n + 1024) / 2048)
  | u => divRoundEven (100 * n) u.bytes

theorem hundredthsText_whole (n : Nat) : hundredthsText (100 * n) = decimal n := by
  rw [hundredthsText, if_pos (Nat.mul_mod_right 100 n), Nat.mul_div_cancel_left n (by omega),
    List.append_nil]

/-- The text of `n` bytes, `n` a number that a `double` can hold. -/
def sizeText (n : Nat) : WString :=
  hundredthsText (shownHundredths (.of n) n) ++ (MemoryUnit.of n).suffix

theorem sizeText_eq {n : Nat} (u : MemoryUnit) (hl : u ≠ .B → u.bytes ≤ n)
    (hu : u ≠ .EB → n < 1024 * u.bytes) :
    sizeText n = hundredthsText (shownHundredths u n) ++ u.suffix := by
  rw [sizeText, (MemoryUnit.of_eq_iff u).mpr ⟨hl, hu⟩]

/-- Below 1024 the number is shown as it is. -/
theorem sizeText_of_lt {n : Nat} (h : n < 1024) : sizeText n = decimal n ++ wide "B" := by
  have hB : n < 1024 * MemoryUnit.B.bytes := h
  rw [sizeText_eq .B (fun h => absurd rfl h) fun _ => hB, shownHundredths, hundredthsText_whole]
  rfl

/-- The unit that is chosen is that of the value rounded to 53 bits. -/
theorem memoryValueToWstring_eq (v : BitVec 64) :
    memoryValueToWstring v = sizeText (round53 v.toNat) := by
  have kb := Double.div1024_is (Double.ofInt_is v.toNat)
  have mb := Double.div1024_is kb
  have gb := Double.div1024_is mb
  have tb := Double.div1024_is gb
  have pb := Double.div1024_is tb
  have eb := Double.div1024_is pb
  dsimp only [memoryValueToWstring]
  by_cases h : v.toNat < 1024
  · have hv : round53 v.toNat = v.toNat := round53_of_lt (by omega)
    rw [if_pos h, hv, sizeText_of_lt h]
  · have hv : 1024 ≤ round53 v.toNat := two_pow_le_round53 (k := 10) (by omega)
    simp only [if_neg h, Double.lt1024_iff kb, Double.lt1024_iff mb, Double.lt1024_iff gb,
      Double.lt1024_iff tb, Double.lt1024_iff pb, to2DigitDec_eq, Double.lround_eq kb,
      Double.hundredths_eq mb, Double.hundredths_eq gb, Double.hundredths_eq tb,
      Double.hundredths_eq pb, Double.hundredths_eq eb]
    generalize round53 v.toNat = n at hv ⊢
    -- One case for each unit from KB on.
    split
    · rename_i hn
      rw [sizeText_eq .KB (fun _ => hv) fun _ => hn, shownHundredths, hundredthsText_whole]
      rfl
    rename_i h20
    split
    · rename_i hn
      exact (sizeText_eq .MB (fun _ => Nat.le_of_not_lt h20) fun _ => hn).symm
    rename_i h30
    split
    · rename_i hn
      exact (sizeText_eq .GB (fun _ => Nat.le_of_not_lt h30) fun _ => hn).symm
    rename_i h40
    split
    · rename_i hn
      exact (sizeText_eq .TB (fun _ => Nat.le_of_not_lt h40) fun _ => hn).symm
    rename_i h50
    split
    · rename_i hn
      exact (sizeText_eq .PB (fun _ => Nat.le_of_not_lt h50) fun _ => hn).symm
    rename_i h60
    exact (sizeText_eq .EB (fun _ => Nat.le_of_not_lt h60) fun h => absurd rfl h).symm

/-- The size that is shown for a value. -/
def shownSize (v : BitVec 64) : Size :=
  let n := round53 v.toNat
  ⟨(shownHundredths (.of n) n : ℚ) / 100, .of n⟩

theorem readSize_memoryValueToWstring (v : BitVec 64) :
    readSize (memoryValueToWstring v) = some (shownSize v) := by
  rw [memoryValueToWstring_eq]
  exact readSize_append _ (inNumeral_hundredthsText _) (readNumeral_hundredthsText _)

end RTM.Proof.MemoryText
