import RemoteTaskManager.Proof.WmiProcessTable
import RemoteTaskManager.Spec.TextOrder

/-!
# Sorting on a text

`String::compare` is greater than 0 exactly where the key of the left text is
greater (`compare_pos_iff`), but less than 0 only where it is less and the left
text does not begin the right one (`compare_neg_iff`). A descending sort asks for
the former, and so puts any rows in order; an ascending sort asks for the latter,
and does so on the rows of which no text begins another (`sorts_iff`).
-/

namespace RTM.Proof.TextSort

open RTM.Impl RTM.Spec RTM.Proof.ColumnItems RTM.Proof.WmiProcessTable

/-! ## Texts -/

section

variable {f : WChar → WChar} {s t : WString}

theorem seen_cons_of_ne {a : WChar} (h : f a ≠ 0) (s : WString) :
    seen f (a :: s) = (f a).toNat :: seen f s := if_neg h

theorem seen_cons (a : WChar) (s : WString) : ∃ l, seen f (a :: s) = (f a).toNat :: l := by
  by_cases h : f a = 0
  · exact ⟨[], by rw [seen, if_pos h, h]; rfl⟩
  · exact ⟨_, seen_cons_of_ne h s⟩

theorem seen_lt_of_textCompare (h : textCompare f s t < 0) : seen f s < seen f t := by
  induction s generalizing t with
  | nil => simp at h
  | cons a s ih =>
    cases t with
    | nil => simp at h
    | cons b t =>
      rw [textCompare_cons] at h
      split at h
      · rename_i hab
        rw [seen_cons_of_ne hab.1, seen_cons_of_ne (hab.2 ▸ hab.1), ← hab.2]
        exact List.cons_lt_cons_iff.mpr (.inr ⟨rfl, ih h⟩)
      · obtain ⟨l, hl⟩ := seen_cons (f := f) a s
        obtain ⟨m, hm⟩ := seen_cons (f := f) b t
        rw [hl, hm]
        exact List.cons_lt_cons_iff.mpr (.inl (by omega))

/-- Texts that look equal up to the length of the shorter one. -/
theorem seen_of_textCompare_eq_zero (h : textCompare f s t = 0) (hl : s.length ≤ t.length) :
    seen f s = seen f t ∨ seen f s < seen f t := by
  induction s generalizing t with
  | nil =>
    cases t with
    | nil => exact .inl rfl
    | cons b t =>
      obtain ⟨m, hm⟩ := seen_cons (f := f) b t
      rw [hm]
      exact .inr (List.nil_lt_cons _ _)
  | cons a s ih =>
    cases t with
    | nil => simp at hl
    | cons b t =>
      rw [textCompare_cons] at h
      split at h
      · rename_i hab
        rw [seen_cons_of_ne hab.1, seen_cons_of_ne (hab.2 ▸ hab.1), ← hab.2]
        rcases ih h (Nat.le_of_succ_le_succ hl) with e | hlt
        · exact .inl (congrArg _ e)
        · exact .inr (List.cons_lt_cons_iff.mpr (.inr ⟨rfl, hlt⟩))
      · rename_i hab
        -- Both end at a null.
        have e : f a = f b := toNat_sub_eq_zero.mp h
        have h0 : f a = 0 := Decidable.byContradiction fun h0 => hab ⟨h0, e⟩
        rw [seen, seen, if_pos h0, if_pos (e ▸ h0)]
        exact .inl rfl

/-- The shorter of two texts that look equal is not after the other. -/
theorem textKey_of_textCompare_eq_zero (h : textCompare f s t = 0) (hl : s.length ≤ t.length) :
    ¬ textKey f t < textKey f s ∧ (textKey f s < textKey f t ↔ s.length < t.length) := by
  have hs := seen_of_textCompare_eq_zero h hl
  rw [textKey_lt, textKey_lt]
  refine ⟨?_, ?_⟩
  · rintro (hlt | ⟨e, hlt⟩)
    · rcases hs with e | hlt'
      · exact lt_irrefl _ (e ▸ hlt)
      · exact lt_asymm hlt hlt'
    · omega
  · constructor
    · rintro (hlt | ⟨-, hlt⟩)
      · refine Nat.lt_of_le_of_ne hl fun e => ?_
        have h' : textCompare f t s = 0 := by rw [textCompare_symm, h, Int.neg_zero]
        rcases seen_of_textCompare_eq_zero h' (Nat.le_of_eq e.symm) with e' | hlt'
        · exact lt_irrefl _ (e' ▸ hlt)
        · exact lt_asymm hlt hlt'
      · exact hlt
    · exact fun hlt => hs.elim (fun e => .inr ⟨e, hlt⟩) .inl

theorem textKey_of_textCompare_neg (h : textCompare f s t < 0) : textKey f s < textKey f t :=
  textKey_lt.mpr (.inl (seen_lt_of_textCompare h))

theorem begins_iff : Begins f s t ↔ s.length < t.length ∧ textCompare f s t = 0 :=
  and_congr_right fun hl => (textCompare_eq_zero f (Nat.le_of_lt hl)).symm

theorem textCompare_neg_iff :
    textCompare f s t < 0 ↔ textKey f s < textKey f t ∧ ¬ Begins f s t := by
  have hsymm := textCompare_symm f s t
  rw [begins_iff]
  rcases Int.lt_trichotomy (textCompare f s t) 0 with h | h | h
  · exact iff_of_true h ⟨textKey_of_textCompare_neg h, fun hb => by omega⟩
  · refine iff_of_false (by omega) fun hk => ?_
    rcases Nat.lt_or_ge s.length t.length with hl | hl
    · exact hk.2 ⟨hl, h⟩
    · exact (textKey_of_textCompare_eq_zero (by omega) hl).1 hk.1
  · have hgt : textKey f t < textKey f s := textKey_of_textCompare_neg (by omega)
    exact iff_of_false (by omega) fun hk => lt_asymm hk.1 hgt

end

/-! ## Comparisons -/

section

variable {P : Platform} {s t : WString}

theorem compare_neg_iff : StringItem.compare P ⟨s⟩ ⟨t⟩ < 0 ↔
    textKey P.towlower s < textKey P.towlower t ∧ ¬ Begins P.towlower s t := by
  rw [StringItem.compare_eq, ← textCompare_neg_iff]
  split
  · split <;> omega
  · exact Iff.rfl

theorem compare_pos_iff :
    StringItem.compare P ⟨s⟩ ⟨t⟩ > 0 ↔ textKey P.towlower t < textKey P.towlower s := by
  have hsymm := textCompare_symm P.towlower s t
  rw [StringItem.compare_eq]
  rcases Int.lt_trichotomy (textCompare P.towlower s t) 0 with h | h | h
  · rw [if_neg (by omega)]
    exact iff_of_false (by omega) fun hk => lt_asymm hk (textKey_of_textCompare_neg h)
  · rw [if_pos h]
    rcases Nat.lt_or_ge t.length s.length with hl | hl
    · rw [if_pos hl]
      have ht : textCompare P.towlower t s = 0 := by omega
      exact iff_of_true (by omega) ((textKey_of_textCompare_eq_zero ht (Nat.le_of_lt hl)).2.mpr hl)
    · rw [if_neg (by omega)]
      exact iff_of_false (by omega) (textKey_of_textCompare_eq_zero h hl).1
  · rw [if_neg (by omega)]
    exact iff_of_true h (textKey_of_textCompare_neg (by omega))

end

/-! ## Rows -/

/-- No text of the column begins another, if an ascending sort would have to
tell them apart. -/
def Distinct (P : Platform) (c : ColumnNumber) (o : SortOrder) (s : WmiProcess → Prop) : Prop :=
  isText c = true → o = .Ascending →
    ∀ x y, s x → s y → ¬ Begins P.towlower (text c x) (text c y)

section

variable {P : Platform} {c : ColumnNumber} {o : SortOrder} {s : WmiProcess → Prop}
  {tbl : List WmiProcess}

theorem lessOn_of_text (h : isText c = true) (x y : WmiProcess) :
    lessOn P c.toInt x y = .ok (decide (StringItem.compare P ⟨text c x⟩ ⟨text c y⟩ < 0)) := by
  simp only [lessOn, WmiProcess.indexInt_toInt, Outcome.ok_bind, ColumnItem.lt, compare_of_text h,
    Outcome.pure_eq]

theorem greaterOn_of_text (h : isText c = true) (x y : WmiProcess) :
    greaterOn P c.toInt x y = .ok (decide (StringItem.compare P ⟨text c x⟩ ⟨text c y⟩ > 0)) := by
  simp only [greaterOn, WmiProcess.indexInt_toInt, Outcome.ok_bind, ColumnItem.gt,
    compare_of_text h, Outcome.pure_eq]

theorem precedes_of_key (h : isText c = false) : precedes P c o = before c o := by
  funext a b
  simp [precedes, h]

theorem precedes_ascending (h : isText c = true) : precedes P c .Ascending = fun a b =>
    decide (textKey P.towlower (text c a) < textKey P.towlower (text c b)) := by
  funext a b
  simp [precedes, h]

theorem precedes_descending (h : isText c = true) (ho : o ≠ .Ascending) :
    precedes P c o = fun a b =>
      decide (textKey P.towlower (text c b) < textKey P.towlower (text c a)) := by
  funext a b
  simp [precedes, h, ho]

theorem precedes_weak (P : Platform) (c : ColumnNumber) (o : SortOrder) (s : WmiProcess → Prop) :
    StrictWeakOn (precedes P c o) s := by
  cases h : isText c with
  | false =>
    rw [precedes_of_key h]
    exact before_weak c o s
  | true =>
    by_cases ho : o = .Ascending
    · rw [ho, precedes_ascending h]
      exact .of_linear fun r => textKey P.towlower (text c r)
    · rw [precedes_descending h ho]
      exact (StrictWeakOn.of_linear fun r => textKey P.towlower (text c r)).swap

/-- A sort puts rows in order that the column tells apart. -/
theorem sortTableOnColumn_precedes (h : Distinct P c o (· ∈ tbl)) :
    ∃ rows, sortTableOnColumn P tbl c.toInt o = .ok rows ∧
      IsStableSort (precedes P c o) tbl rows := by
  have hw := precedes_weak P c o (· ∈ tbl)
  cases ht : isText c with
  | false =>
    rw [precedes_of_key ht]
    exact sortTableOnColumn_stable P ht o tbl
  | true =>
    unfold sortTableOnColumn
    split
    · rename_i ho
      subst ho
      refine stableSort_spec (fun x hx y hy => ?_) hw
      rw [lessOn_of_text ht, precedes_ascending ht]
      refine congrArg _ (decide_eq_decide.mpr (compare_neg_iff.trans ?_))
      exact and_iff_left (h ht rfl x y hx hy)
    · rename_i ho
      refine stableSort_spec (fun x _ y _ => ?_) hw
      rw [greaterOn_of_text ht, precedes_descending ht ho]
      exact congrArg _ (decide_eq_decide.mpr compare_pos_iff)

end

end RTM.Proof.TextSort
