/-!
# Wide strings and decimal text

`wchar_t` is a UTF-16 code unit. `decimal` is `std::to_wstring` of an unsigned
integer; `decimalValue` reads digits back without a bound, and undoes it
(`decimalValue_decimal`).
-/

namespace RTM

/-- `wchar_t`. -/
abbrev WChar : Type := BitVec 16

/-- The characters of a `std::wstring` or a `wxString`. -/
abbrev WString : Type := List WChar

def wchar (c : Char) : WChar := BitVec.ofNat 16 c.toNat

/-- A wide literal. -/
def wide (s : String) : WString := s.toList.map wchar

/-- The decimal text of a number. -/
def decimal (n : Nat) : WString := (Nat.toDigits 10 n).map wchar

def isDigit (c : WChar) : Bool := 48 ≤ c.toNat && c.toNat ≤ 57

/-- The digit a character stands for. -/
def digitOf (c : WChar) : Nat := c.toNat - 48

/-- The number that a string of digits stands for. -/
def decimalValue (s : WString) : Nat := s.foldl (fun n c => 10 * n + digitOf c) 0

theorem toNat_wchar_of_isDigit {c : Char} (h : c.isDigit = true) : (wchar c).toNat = c.toNat := by
  have hc : c.toNat ≤ 57 := by
    simp only [Char.isDigit, ge_iff_le, Bool.and_eq_true, decide_eq_true_eq] at h
    exact h.2
  simp only [wchar, BitVec.toNat_ofNat]
  omega

theorem isDigit_wchar {c : Char} (h : c.isDigit = true) : isDigit (wchar c) = true := by
  rw [isDigit, toNat_wchar_of_isDigit h]
  simp only [Char.isDigit, ge_iff_le, Bool.and_eq_true, decide_eq_true_eq] at h
  exact Bool.and_eq_true_iff.mpr ⟨decide_eq_true h.1, decide_eq_true h.2⟩

/-- Decimal text is digits. -/
theorem isDigit_of_mem_decimal {n : Nat} {c : WChar} (h : c ∈ decimal n) : isDigit c = true := by
  obtain ⟨d, hd, rfl⟩ := List.mem_map.mp h
  exact isDigit_wchar (Nat.isDigit_of_mem_toDigits (by decide) (by decide) hd)

theorem decimal_ne_nil (n : Nat) : decimal n ≠ [] := by
  simp [decimal]

theorem decimalValue_map_wchar {l : List Char} (h : ∀ c ∈ l, c.isDigit = true) (n : Nat) :
    (l.map wchar).foldl (fun n c => 10 * n + digitOf c) n = Nat.ofDigitChars 10 l n := by
  induction l generalizing n with
  | nil => simp
  | cons c l ih =>
    have hc := toNat_wchar_of_isDigit (h c List.mem_cons_self)
    rw [List.map_cons, List.foldl_cons, Nat.ofDigitChars_cons, digitOf, hc]
    exact ih (fun d hd => h d (List.mem_cons_of_mem _ hd)) _

/-- Reading decimal text gives the number back. -/
theorem decimalValue_decimal (n : Nat) : decimalValue (decimal n) = n := by
  rw [decimalValue, decimal, decimalValue_map_wchar fun c hc =>
    Nat.isDigit_of_mem_toDigits (by decide) (by decide) hc]
  exact Nat.ofDigitChars_toDigits (by decide) (by decide)

end RTM
