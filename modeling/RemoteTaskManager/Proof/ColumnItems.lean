import RemoteTaskManager.Framework.StableSort
import RemoteTaskManager.Impl.WmiProcessTable
import RemoteTaskManager.Spec.Rows

/-!
# The order of a column

A column that is not text is ordered by a key (`compareOn_of_key`): its
comparison is a strict weak ordering of all records. `String::compare` tells
two texts of one length apart as `textCompare` does, but takes a text for
equal to one it begins (`StringItem.compare_eq`); so a text column is ordered
on exactly the sets of records of which no text begins another
(`columnLaws_iff`).
-/

namespace RTM.Proof.ColumnItems

open RTM.Impl RTM.Spec

/-! ## Keys -/

theorem compareValues_lt {a b : Int} : compareValues a b < 0 ↔ a < b := by
  unfold compareValues
  split <;> (try split) <;> omega

theorem compareValues_gt {a b : Int} : compareValues a b > 0 ↔ b < a := by
  unfold compareValues
  split <;> (try split) <;> omega

theorem compareValues_symm (a b : Int) : compareValues b a = -compareValues a b := by
  unfold compareValues
  split <;> split <;> omega

/-- `x[c].compare( y[c] )`. -/
def compareOn (P : Platform) (c : BitVec 64) (x y : WmiProcess) : Outcome Exn Int := do
  (← x.index c).compare P (← y.index c)

section

variable {P : Platform} {n : BitVec 64} {c : ColumnNumber}

theorem compareOn_of_ofInt (hc : ColumnNumber.ofInt (n.setWidth 32) = some c) (x y : WmiProcess) :
    compareOn P n x y = (x.item c).compare P (y.item c) := by
  simp only [compareOn, WmiProcess.index, hc, Outcome.ok_bind]

theorem compare_of_key (h : isText c = false) (x y : WmiProcess) :
    (x.item c).compare P (y.item c) = .ok (compareValues (key c x) (key c y)) := by
  cases c <;> simp only [isText, Bool.true_eq_false] at h <;> rfl

theorem compare_of_text (h : isText c = true) (x y : WmiProcess) :
    (x.item c).compare P (y.item c) = .ok (StringItem.compare P ⟨text c x⟩ ⟨text c y⟩) := by
  cases c <;> simp only [isText, Bool.false_eq_true] at h <;> rfl

end

/-! ## Texts -/

section

variable (f : WChar → WChar)

/-- `_wcsnicmp` up to the length of the shorter text. -/
def textCompare (s t : WString) : Int := wcsnicmp f s t (min s.length t.length)

@[simp] theorem textCompare_nil_left (t : WString) : textCompare f [] t = 0 := by
  simp [textCompare, wcsnicmp]

@[simp] theorem textCompare_nil_right (s : WString) : textCompare f s [] = 0 := by
  simp [textCompare, wcsnicmp]

theorem textCompare_cons (a b : WChar) (s t : WString) :
    textCompare f (a :: s) (b :: t) =
      if f a ≠ 0 ∧ f a = f b then textCompare f s t else ((f a).toNat : Int) - (f b).toNat := by
  simp only [textCompare, List.length_cons, Nat.succ_min_succ, wcsnicmp, List.headD_cons,
    List.tail_cons]
  rfl

/-- What `_wcsnicmp` sees of a text: the folded characters before a null. -/
def folded (s : WString) : WString := (s.map f).takeWhile (· != 0)

/-- `s` begins `t`, a longer text, up to case. -/
def Begins (s t : WString) : Prop :=
  s.length < t.length ∧ folded f s = folded f (t.take s.length)

instance (s t : WString) : Decidable (Begins f s t) := inferInstanceAs (Decidable (_ ∧ _))

theorem toNat_sub_eq_zero {a b : WChar} : (a.toNat : Int) - b.toNat = 0 ↔ a = b := by
  rw [← BitVec.toNat_inj]; omega

theorem folded_cons (a : WChar) (s : WString) :
    folded f (a :: s) = if f a = 0 then [] else f a :: folded f s := by
  by_cases h : f a = 0
  · simp [folded, h]
  · have h' : (f a != 0) = true := by simpa using h
    simp only [folded, List.map_cons, List.takeWhile_cons, h', h, ↓reduceIte]

theorem textCompare_symm (s t : WString) : textCompare f t s = -textCompare f s t := by
  induction s generalizing t with
  | nil => simp
  | cons a s ih =>
    cases t with
    | nil => simp
    | cons b t =>
      rw [textCompare_cons, textCompare_cons]
      by_cases h : f a = f b
      · simp only [h, and_true]
        split
        · exact ih t
        · omega
      · simp only [h, Ne.symm h, and_false, ↓reduceIte]
        omega

/-- The texts look equal up to the length of the shorter one. -/
theorem textCompare_eq_zero {s t : WString} (h : s.length ≤ t.length) :
    textCompare f s t = 0 ↔ folded f s = folded f (t.take s.length) := by
  induction s generalizing t with
  | nil => simp
  | cons a s ih =>
    cases t with
    | nil => simp at h
    | cons b t =>
      rw [List.length_cons, List.take_succ_cons, textCompare_cons, folded_cons, folded_cons]
      by_cases hab : f a = f b
      · by_cases h0 : f b = 0
        · simp [hab, h0]
        · simp only [hab, h0, ne_eq, not_false_eq_true, and_self, ↓reduceIte, List.cons.injEq,
            true_and]
          exact ih (by simpa using h)
      · simp only [hab, and_false, ↓reduceIte, toNat_sub_eq_zero, false_iff]
        split <;> split <;> simp_all

theorem textCompare_trans {s t u : WString} (h₁ : textCompare f s t < 0)
    (h₂ : textCompare f t u < 0) : textCompare f s u < 0 := by
  induction s generalizing t u with
  | nil => simp at h₁
  | cons a s ih =>
    cases t with
    | nil => simp at h₁
    | cons b t =>
      cases u with
      | nil => simp at h₂
      | cons c u =>
        rw [textCompare_cons] at h₁ h₂ ⊢
        -- The first characters that differ decide, or else the tails.
        generalize f a = x at h₁ ⊢
        generalize f b = y at h₁ h₂
        generalize f c = z at h₂ ⊢
        by_cases hxy : x ≠ 0 ∧ x = y
        · obtain ⟨h0, rfl⟩ := hxy
          simp only [h0, ne_eq, not_false_eq_true, and_self, ↓reduceIte, true_and] at h₁ h₂ ⊢
          by_cases hxz : x = z
          · simp only [hxz, ↓reduceIte] at h₂ ⊢
            exact ih h₁ h₂
          · simp only [hxz, ↓reduceIte] at h₂ ⊢
            exact h₂
        · simp only [hxy, ↓reduceIte] at h₁
          have hxz : ¬ (x ≠ 0 ∧ x = z) := by
            rintro ⟨-, rfl⟩
            by_cases hyz : y ≠ 0 ∧ y = x
            · rw [hyz.2] at h₁; omega
            · simp only [hyz, ↓reduceIte] at h₂; omega
          simp only [hxz, ↓reduceIte]
          by_cases hyz : y ≠ 0 ∧ y = z
          · rw [← hyz.2]; exact h₁
          · simp only [hyz, ↓reduceIte] at h₂; omega

/-- Texts of one length that look equal to a third look equal. -/
theorem textCompare_eq_zero_trans {s t u : WString} (hst : s.length = t.length)
    (htu : t.length = u.length) (h₁ : textCompare f s t = 0) (h₂ : textCompare f t u = 0) :
    textCompare f s u = 0 := by
  rw [textCompare_eq_zero f (by omega), List.take_of_length_le (by omega)] at h₁ h₂ ⊢
  exact h₁.trans h₂

end

/-- `String::compare`: a text that another begins is after it, but the other is
not before it. -/
theorem StringItem.compare_eq (P : Platform) (s t : WString) :
    StringItem.compare P ⟨s⟩ ⟨t⟩ =
      if textCompare P.towlower s t = 0 then (if t.length < s.length then 1 else 0)
      else textCompare P.towlower s t := by
  have e : textCompare P.towlower s t = wcsnicmp P.towlower s t (min s.length t.length) := rfl
  simp only [StringItem.compare, ← e]
  by_cases h : textCompare P.towlower s t = 0
  · have hs : ¬ s.length < min s.length t.length := by omega
    have ht : s.length > min s.length t.length ↔ t.length < s.length := by omega
    simp only [h, ↓reduceIte, hs, ht]
  · simp only [h, ↓reduceIte]

/-! ## Laws -/

/-- `x[n] < y[n]`, `x[n] > y[n]` and `x[n] == y[n]`. -/
def ltOn (P : Platform) (n : BitVec 64) (x y : WmiProcess) : Outcome Exn Bool := do
  (← x.index n).lt P (← y.index n)
def gtOn (P : Platform) (n : BitVec 64) (x y : WmiProcess) : Outcome Exn Bool := do
  (← x.index n).gt P (← y.index n)
def eqOn (P : Platform) (n : BitVec 64) (x y : WmiProcess) : Outcome Exn Bool := do
  (← x.index n).eq P (← y.index n)

/-- The comparison of a column, on the records of `s`: `<` is a strict weak
ordering, `compare` is antisymmetric in sign, and so `<` and `>` mirror each
other and `==` is symmetric. -/
structure ColumnLaws (P : Platform) (n : BitVec 64) (s : WmiProcess → Prop) : Prop where
  lt_weak : ∃ lt, (∀ x y, s x → s y → ltOn P n x y = .ok (lt x y)) ∧ StrictWeakOn lt s
  antisymm : ∀ x y, s x → s y → ∃ i j, compareOn P n x y = .ok i ∧ compareOn P n y x = .ok j ∧
    j.sign = -i.sign
  lt_iff_gt : ∀ x y, s x → s y → (ltOn P n x y = .ok true ↔ gtOn P n y x = .ok true)
  eq_iff_eq : ∀ x y, s x → s y → (eqOn P n x y = .ok true ↔ eqOn P n y x = .ok true)

section

variable {P : Platform} {n : BitVec 64} {c : ColumnNumber} {s : WmiProcess → Prop}

theorem ltOn_eq (hc : ColumnNumber.ofInt (n.setWidth 32) = some c) {x y : WmiProcess} {i : Int}
    (h : compareOn P n x y = .ok i) : ltOn P n x y = .ok (decide (i < 0)) := by
  rw [compareOn_of_ofInt hc] at h
  simp only [ltOn, WmiProcess.index, hc, Outcome.ok_bind, ColumnItem.lt, h, Outcome.pure_eq]

theorem gtOn_eq (hc : ColumnNumber.ofInt (n.setWidth 32) = some c) {x y : WmiProcess} {i : Int}
    (h : compareOn P n x y = .ok i) : gtOn P n x y = .ok (decide (i > 0)) := by
  rw [compareOn_of_ofInt hc] at h
  simp only [gtOn, WmiProcess.index, hc, Outcome.ok_bind, ColumnItem.gt, h, Outcome.pure_eq]

theorem eqOn_eq (hc : ColumnNumber.ofInt (n.setWidth 32) = some c) {x y : WmiProcess} {i : Int}
    (h : compareOn P n x y = .ok i) : eqOn P n x y = .ok (decide (i = 0)) := by
  rw [compareOn_of_ofInt hc] at h
  simp only [eqOn, WmiProcess.index, hc, Outcome.ok_bind, ColumnItem.eq, h, Outcome.pure_eq]

theorem sign_eq_neg {i j : Int} (h : j.sign = -i.sign) :
    (i < 0 ↔ j > 0) ∧ (i = 0 ↔ j = 0) := by
  rcases Int.lt_trichotomy i 0 with hi | rfl | hi
  · rw [Int.sign_eq_neg_one_of_neg hi] at h
    have := Int.sign_eq_one_iff_pos.mp h
    omega
  · have := Int.sign_eq_zero_iff_zero.mp h
    omega
  · rw [Int.sign_eq_one_of_pos hi] at h
    have := Int.sign_eq_neg_one_iff_neg.mp h
    omega

/-- The laws, for a comparison that is `i` on the records of `s`. -/
theorem columnLaws_of_compareOn (hc : ColumnNumber.ofInt (n.setWidth 32) = some c)
    {i : WmiProcess → WmiProcess → Int} (hi : ∀ x y, s x → s y → compareOn P n x y = .ok (i x y))
    (hw : StrictWeakOn (fun x y => decide (i x y < 0)) s)
    (ha : ∀ x y, s x → s y → (i y x).sign = -(i x y).sign) : ColumnLaws P n s where
  lt_weak := ⟨_, fun x y hx hy => ltOn_eq hc (hi x y hx hy), hw⟩
  antisymm x y hx hy := ⟨_, _, hi x y hx hy, hi y x hy hx, ha x y hx hy⟩
  lt_iff_gt x y hx hy := by
    rw [ltOn_eq hc (hi x y hx hy), gtOn_eq hc (hi y x hy hx)]
    simpa using (sign_eq_neg (ha x y hx hy)).1
  eq_iff_eq x y hx hy := by
    rw [eqOn_eq hc (hi x y hx hy), eqOn_eq hc (hi y x hy hx)]
    simpa using (sign_eq_neg (ha x y hx hy)).2

/-- A column ordered by a key obeys the laws. -/
theorem columnLaws_of_key (hc : ColumnNumber.ofInt (n.setWidth 32) = some c)
    (h : isText c = false) : ColumnLaws P n s := by
  have hi : ∀ x y, s x → s y → compareOn P n x y = .ok (compareValues (key c x) (key c y)) := by
    intro x y _ _
    rw [compareOn_of_ofInt hc, compare_of_key h]
  have hw : StrictWeakOn (fun x y => decide (compareValues (key c x) (key c y) < 0)) s := by
    simp only [compareValues_lt]
    exact StrictWeakOn.of_key (key c)
  refine columnLaws_of_compareOn hc hi hw fun x y _ _ => ?_
  rw [compareValues_symm, Int.sign_neg]

/-- Among texts none of which begins another, those that look equal have one
length. -/
theorem length_eq_of_textCompare {f : WChar → WChar} {s t : WString} (hst : ¬ Begins f s t)
    (hts : ¬ Begins f t s) (h : textCompare f s t = 0) : s.length = t.length := by
  rcases Nat.lt_trichotomy s.length t.length with hl | hl | hl
  · exact absurd ⟨hl, (textCompare_eq_zero f (by omega)).mp h⟩ hst
  · exact hl
  · have h' : textCompare f t s = 0 := by rw [textCompare_symm, h, Int.neg_zero]
    exact absurd ⟨hl, (textCompare_eq_zero f (by omega)).mp h'⟩ hts

/-- Texts none of which begins another are weakly ordered. -/
theorem strictWeakOn_textCompare {f : WChar → WChar}
    (h : ∀ x y, s x → s y → ¬ Begins f (text c x) (text c y)) :
    StrictWeakOn (fun x y => decide (textCompare f (text c x) (text c y) < 0)) s where
  irrefl {x} _ := by
    have h0 : textCompare f (text c x) (text c x) = 0 :=
      (textCompare_eq_zero f (Nat.le_refl _)).mpr (by rw [List.take_length])
    rw [decide_eq_false_iff_not, h0]
    omega
  trans _ _ _ h₁ h₂ := by
    simp only [decide_eq_true_eq] at *
    exact textCompare_trans f h₁ h₂
  incomp_trans {x y z} hx hy hz h₁ h₂ h₃ h₄ := by
    -- Texts that tie look equal, have one length, and so tie with what either ties with.
    simp only [decide_eq_false_iff_not] at *
    have hyx := textCompare_symm f (text c x) (text c y)
    have hzy := textCompare_symm f (text c y) (text c z)
    have hzx := textCompare_symm f (text c x) (text c z)
    have hxy : textCompare f (text c x) (text c y) = 0 := by omega
    have hyz : textCompare f (text c y) (text c z) = 0 := by omega
    have e₁ := length_eq_of_textCompare (h x y hx hy) (h y x hy hx) hxy
    have e₂ := length_eq_of_textCompare (h y z hy hz) (h z y hz hy) hyz
    have hxz := textCompare_eq_zero_trans f e₁ e₂ hxy hyz
    omega

/-- A text column obeys the laws on records of which no text begins another. -/
theorem columnLaws_of_text (hc : ColumnNumber.ofInt (n.setWidth 32) = some c)
    (ht : isText c = true)
    (h : ∀ x y, s x → s y → ¬ Begins P.towlower (text c x) (text c y)) : ColumnLaws P n s := by
  have hi : ∀ x y, s x → s y →
      compareOn P n x y = .ok (textCompare P.towlower (text c x) (text c y)) := by
    intro x y hx hy
    rw [compareOn_of_ofInt hc, compare_of_text ht, StringItem.compare_eq]
    split
    · rename_i h0
      have hl := length_eq_of_textCompare (h x y hx hy) (h y x hy hx) h0
      rw [if_neg (by omega), h0]
    · rfl
  refine columnLaws_of_compareOn hc hi (strictWeakOn_textCompare h) fun x y _ _ => ?_
  rw [textCompare_symm, Int.sign_neg]

/-- The comparison of a column obeys the laws on a set of records exactly where
the column is not text or no record's text begins another's. -/
theorem columnLaws_iff (hc : ColumnNumber.ofInt (n.setWidth 32) = some c) :
    ColumnLaws P n s ↔
      (isText c = true → ∀ x y, s x → s y → ¬ Begins P.towlower (text c x) (text c y)) := by
  refine ⟨fun h ht x y hx hy hb => ?_, fun h => ?_⟩
  · obtain ⟨i, j, hi, hj, hij⟩ := h.antisymm x y hx hy
    rw [compareOn_of_ofInt hc, compare_of_text ht, StringItem.compare_eq] at hi hj
    have h0 := (textCompare_eq_zero P.towlower (Nat.le_of_lt hb.1)).mpr hb.2
    have h0' : textCompare P.towlower (text c y) (text c x) = 0 := by
      rw [textCompare_symm, h0, Int.neg_zero]
    rw [if_pos h0, if_neg (by have := hb.1; omega)] at hi
    rw [if_pos h0', if_pos hb.1] at hj
    cases hi
    cases hj
    simp at hij
  · cases ht : isText c with
    | false => exact columnLaws_of_key hc ht
    | true => exact columnLaws_of_text hc ht (h ht)

end

/-- A process of the given name. -/
def named (name : String) : WmiProcess := { name := ⟨wide name⟩ }

/-- The laws hold of two names neither of which begins the other. -/
theorem columnLaws_smss_csrss :
    ColumnLaws .ascii 0 fun r => r = named "smss.exe" ∨ r = named "csrss.exe" := by
  refine (columnLaws_iff (c := .Name) rfl).mpr fun _ x y hx hy => ?_
  rcases hx with rfl | rfl <;> rcases hy with rfl | rfl <;> decide

/-- `svc` compares equal to `svchost`, which is greater than `svc`; and `svc`
ties with `svchost` and with `svcs`, one of which is less than the other. -/
theorem columnLaws_svchost :
    compareOn .ascii 0 (named "svc") (named "svchost") = .ok 0 ∧
    compareOn .ascii 0 (named "svchost") (named "svc") = .ok 1 ∧
    ltOn .ascii 0 (named "svchost") (named "svcs") = .ok true ∧
    ¬ ∀ n c, ColumnNumber.ofInt (n.setWidth 32) = some c → ColumnLaws .ascii n fun _ => True := by
  have h₁ : compareOn .ascii 0 (named "svc") (named "svchost") = .ok 0 := by decide
  have h₂ : compareOn .ascii 0 (named "svchost") (named "svc") = .ok 1 := by decide
  refine ⟨h₁, h₂, by decide, fun h => ?_⟩
  obtain ⟨i, j, hi, hj, hij⟩ := (h 0 .Name rfl).antisymm (named "svc") (named "svchost") trivial trivial
  rw [h₁] at hi
  rw [h₂] at hj
  cases hi
  cases hj
  simp at hij

end RTM.Proof.ColumnItems
