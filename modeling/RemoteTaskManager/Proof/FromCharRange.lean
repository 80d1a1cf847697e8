import RemoteTaskManager.Impl.Win32Process

/-!
# The digits of a `BSTR`

`from_char_range` reads the longest prefix of digits (`LongestDigits`), modulo
`2^w`: the loop by its pointers ends, reads no character past the range and
gives what the recursion over the characters gives (`fromCharRangeLoop_eq`),
and each digit read is one step of `decimalValue` (`fromCharRangeFrom_append`).
So it undoes `std::to_wstring` of a number that fits, and of one that does not
it gives another number (`from_char_range_value`).
-/

namespace RTM.Proof.FromCharRange

open RTM.Impl

/-! ## Prefixes of digits -/

/-- The text does not go on with a digit. -/
def Ended (s : WString) : Prop := ∀ c ∈ s.head?, isDigit c = false

/-- `p` is the longest prefix of `s` that is made of digits. -/
structure LongestDigits (p s : WString) : Prop where
  isPrefix : p <+: s
  digits : ∀ c ∈ p, isDigit c = true
  longest : ∀ q, q <+: s → (∀ c ∈ q, isDigit c = true) → q.length ≤ p.length

section

variable {p q r s : WString}

/-- A prefix of digits that reaches beyond another one that has ended is no
longer than it. -/
theorem length_le_of_ended (hq : q <+: p ++ r) (hd : ∀ c ∈ q, isDigit c = true) (hr : Ended r) :
    q.length ≤ p.length := by
  apply Nat.le_of_not_lt
  intro hlt
  -- The first character of `r` would be one of `q`'s digits.
  have hget : r.head? = some q[p.length] := by
    have h := List.prefix_iff_getElem?.mp hq p.length hlt
    rw [List.getElem?_append_right (Nat.le_refl _), Nat.sub_self, ← List.head?_eq_getElem?] at h
    exact h
  have hdigit := hd q[p.length] (List.getElem_mem hlt)
  have hended := hr q[p.length] hget
  rw [hdigit] at hended
  cases hended

theorem longestDigits_iff :
    LongestDigits p s ↔ ∃ r, s = p ++ r ∧ (∀ c ∈ p, isDigit c = true) ∧ Ended r := by
  constructor
  · rintro ⟨⟨r, rfl⟩, hd, hl⟩
    refine ⟨r, rfl, hd, fun c hc => ?_⟩
    -- A digit here would make a longer prefix.
    apply Bool.eq_false_iff.mpr
    intro hdigit
    obtain ⟨r, rfl⟩ : ∃ t, r = c :: t := by
      cases r with
      | nil => cases hc
      | cons d t => exact ⟨t, by rw [Option.some.inj hc]⟩
    have h := hl (p ++ [c]) ⟨r, by simp⟩ fun d hm => by
      rcases List.mem_append.mp hm with hm | hm
      · exact hd d hm
      · rw [List.mem_singleton.mp hm]
        exact hdigit
    rw [List.length_append, List.length_singleton] at h
    omega
  · rintro ⟨r, rfl, hd, hr⟩
    exact ⟨List.prefix_append p r, hd, fun q hq hdq => length_le_of_ended hq hdq hr⟩

theorem exists_longestDigits (s : WString) : ∃ p, LongestDigits p s := by
  refine ⟨s.takeWhile isDigit, longestDigits_iff.mpr ⟨s.dropWhile isDigit, ?_, ?_, fun c hc => ?_⟩⟩
  · exact List.takeWhile_append_dropWhile.symm
  · exact List.all_eq_true.mp List.all_takeWhile
  · have h : ¬ isDigit c = true := by
      have := List.head?_dropWhile_not isDigit s
      rw [hc] at this
      simpa using this
    exact Bool.eq_false_iff.mpr h

end

/-! ## The loop over the characters -/

section

variable {w : Nat} {p r s : WString}

/-- Reading digits is reading their number, modulo `2^w`; what follows is not
read. -/
theorem fromCharRangeFrom_append (hd : ∀ c ∈ p, isDigit c = true) (hr : Ended r) (n : Nat) :
    fromCharRangeFrom w (BitVec.ofNat w n) (p ++ r) =
      BitVec.ofNat w (p.foldl (fun n c => 10 * n + digitOf c) n) := by
  induction p generalizing n with
  | nil =>
    cases r with
    | nil => rfl
    | cons c r =>
      have hc : isDigit c = false := hr c rfl
      rw [List.nil_append, fromCharRangeFrom, hc]
      rfl
  | cons c p ih =>
    have hc := hd c List.mem_cons_self
    have hstep : BitVec.ofNat w n * 10 + BitVec.ofNat w (digitOf c) =
        BitVec.ofNat w (10 * n + digitOf c) := by
      rw [BitVec.ofNat_add, Nat.mul_comm, BitVec.ofNat_mul]
      rfl
    rw [List.cons_append, fromCharRangeFrom, if_pos hc, hstep, List.foldl_cons]
    exact ih (fun d hm => hd d (List.mem_cons_of_mem _ hm)) _

theorem fromCharRange_append (hd : ∀ c ∈ p, isDigit c = true) (hr : Ended r) :
    fromCharRange w (p ++ r) = BitVec.ofNat w (decimalValue p) :=
  fromCharRangeFrom_append hd hr 0

theorem fromCharRange_of_longest (h : LongestDigits p s) :
    fromCharRange w s = BitVec.ofNat w (decimalValue p) := by
  obtain ⟨r, rfl, hd, hr⟩ := longestDigits_iff.mp h
  exact fromCharRange_append hd hr

theorem fromCharRange_decimal (w n : Nat) : fromCharRange w (decimal n) = BitVec.ofNat w n := by
  have h := fromCharRange_append (w := w) (p := decimal n) (r := []) (fun _ => isDigit_of_mem_decimal)
    nofun
  rwa [List.append_nil, decimalValue_decimal] at h

/-- A leading zero leaves the number 0. -/
theorem fromCharRange_replicate_zero (k : Nat) (s : WString) :
    fromCharRange w (List.replicate k (wchar '0') ++ s) = fromCharRange w s := by
  induction k with
  | zero => rfl
  | succ k ih =>
    rw [List.replicate_succ, List.cons_append, fromCharRange, fromCharRangeFrom, if_pos (by decide),
      ← ih, fromCharRange]
    congr 1
    show BitVec.ofNat w 0 * 10 + BitVec.ofNat w 0 = BitVec.ofNat w 0
    rw [BitVec.zero_mul, BitVec.zero_add]

end

/-! ## The loop by its pointers -/

/-- From a pointer into the range, the loop ends at the latest when it has read
the rest, and reads nothing else. -/
theorem fromCharRangeLoop_eq {w : Nat} (s : WString) {first turns : Nat} (hf : first ≤ s.length)
    (ht : s.length < first + turns) (result : BitVec w) :
    fromCharRangeLoop w (fun i => s[i]?) s.length turns first result =
      some (.ok (fromCharRangeFrom w result (s.drop first))) := by
  induction turns generalizing first result with
  | zero => omega
  | succ turns ih =>
    by_cases he : first = s.length
    · rw [fromCharRangeLoop, if_pos he, he, List.drop_length]
      rfl
    · have hlt : first < s.length := by omega
      rw [fromCharRangeLoop, if_neg he, List.getElem?_eq_getElem hlt,
        List.drop_eq_getElem_cons hlt, fromCharRangeFrom]
      dsimp only
      split
      · exact ih hlt (by omega) _
      · rfl

theorem length_getD (str : Bstr) : (str.getD []).length = sysStringLen str := by
  cases str <;> rfl

theorem unsignedFromBstr_eq (w : Nat) (str : Bstr) :
    unsignedFromBstr w str = fromCharRange w (str.getD []) := by
  rw [unsignedFromBstr, ← length_getD, List.take_length]

/-- For every `BSTR`, the loop ends without a read past the range, with the
number of the longest prefix of digits modulo `2^w`. So the text of a number
that fits is read back, whatever follows it; leading zeros change nothing; and
digits of a number that does not fit are read as another number. -/
theorem from_char_range_value (w : Nat) (str : Bstr) :
    (∀ turns, sysStringLen str < turns →
      fromCharRangeLoop w (bstrChars str) (sysStringLen str) turns 0 0 =
        some (.ok (unsignedFromBstr w str))) ∧
    (∃ p, LongestDigits p (str.getD []) ∧
      (unsignedFromBstr w str).toNat = decimalValue p % 2 ^ w) ∧
    (∀ n r, n < 2 ^ w → str.getD [] = decimal n ++ r → Ended r →
      (unsignedFromBstr w str).toNat = n) ∧
    (∀ k s, str.getD [] = List.replicate k (wchar '0') ++ s →
      unsignedFromBstr w str = unsignedFromBstr w (some s)) ∧
    ∀ p r, str.getD [] = p ++ r → (∀ c ∈ p, isDigit c = true) → Ended r → 2 ^ w ≤ decimalValue p →
      (unsignedFromBstr w str).toNat ≠ decimalValue p := by
  refine ⟨fun turns ht => ?_, ?_, fun n r hn hs hr => ?_, fun k s hs => ?_, fun p r hs hd hr hv => ?_⟩
  · have h := fromCharRangeLoop_eq (str.getD []) (Nat.zero_le _)
      (show (str.getD []).length < 0 + turns by rw [length_getD]; omega) (0 : BitVec w)
    rw [length_getD, List.drop_zero] at h
    rw [unsignedFromBstr_eq]
    exact h
  · obtain ⟨p, hp⟩ := exists_longestDigits (str.getD [])
    refine ⟨p, hp, ?_⟩
    rw [unsignedFromBstr_eq, fromCharRange_of_longest hp, BitVec.toNat_ofNat]
  · have hd : ∀ c ∈ decimal n, isDigit c = true := fun _ => isDigit_of_mem_decimal
    rw [unsignedFromBstr_eq, hs, fromCharRange_append hd hr, decimalValue_decimal, BitVec.toNat_ofNat,
      Nat.mod_eq_of_lt hn]
  · rw [unsignedFromBstr_eq, unsignedFromBstr_eq, hs, fromCharRange_replicate_zero, Option.getD_some]
  · -- The result is below `2^w`.
    have hlt := (unsignedFromBstr w str).isLt
    omega

end RTM.Proof.FromCharRange
