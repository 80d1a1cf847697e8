import Mathlib.Order.Lattice
import RemoteTaskManager.Framework.Outcome

/-!
# Stable sorting

What a stable sort asks of its comparator (`StrictWeakOn`, on the elements it
is given) and what it promises (`IsStableSort`: a permutation, in order, tied
elements in the order they had). The promise determines the result
(`IsStableSort.unique`), so nothing depends on the algorithm; `stableSort` is
one, by insertion, whose comparator may fail, and `stableSort_spec` is its
contract. A list sorted twice is sorted by both comparators, the last one first
(`IsStableSort.thenBy`), and as by the last alone only if it had its tied
elements in the order of the other (`IsStableSort.of_thenBy_iff`).
-/

namespace RTM

variable {ε α : Type}

/-- `lt` is a strict weak ordering of the elements of `s`. -/
structure StrictWeakOn (lt : α → α → Bool) (s : α → Prop) : Prop where
  irrefl {a : α} : s a → lt a a = false
  trans {a b c : α} : s a → s b → s c → lt a b = true → lt b c = true → lt a c = true
  /-- Neither being less is transitive. -/
  incomp_trans {a b c : α} : s a → s b → s c → lt a b = false → lt b a = false →
    lt b c = false → lt c b = false → lt a c = false ∧ lt c a = false

/-- Neither is less. -/
def tied (lt : α → α → Bool) (a b : α) : Bool := !lt a b && !lt b a

/-- `l'` is `l` sorted stably. -/
structure IsStableSort (lt : α → α → Bool) (l l' : List α) : Prop where
  perm : l'.Perm l
  sorted : l'.Pairwise fun a b => lt b a = false
  stable : ∀ a ∈ l, l'.filter (tied lt a) = l.filter (tied lt a)

/-! ## Orderings -/

theorem tied_iff {lt : α → α → Bool} {a b : α} :
    tied lt a b = true ↔ lt a b = false ∧ lt b a = false := by
  simp [tied]

namespace StrictWeakOn

variable {lt : α → α → Bool} {s t : α → Prop}

theorem mono (h : StrictWeakOn lt s) (hts : ∀ a, t a → s a) : StrictWeakOn lt t where
  irrefl ha := h.irrefl (hts _ ha)
  trans ha hb hc := h.trans (hts _ ha) (hts _ hb) (hts _ hc)
  incomp_trans ha hb hc := h.incomp_trans (hts _ ha) (hts _ hb) (hts _ hc)

/-- Not being less is transitive. -/
theorem not_lt_trans (h : StrictWeakOn lt s) {a b c : α} (ha : s a) (hb : s b) (hc : s c)
    (hab : lt a b = false) (hbc : lt b c = false) : lt a c = false := by
  rcases hba : lt b a with _ | _
  · rcases hcb : lt c b with _ | _
    · exact (h.incomp_trans ha hb hc hab hba hbc hcb).1
    · rcases hac : lt a c with _ | _
      · rfl
      · rw [h.trans ha hc hb hac hcb] at hab
        cases hab
  · rcases hac : lt a c with _ | _
    · rfl
    · rw [h.trans hb ha hc hba hac] at hbc
      cases hbc

/-- An ordering by a key, ascending. -/
theorem of_key (f : α → Int) : StrictWeakOn (fun a b => decide (f a < f b)) s where
  irrefl _ := by simp
  trans _ _ _ h₁ h₂ := by simp only [decide_eq_true_eq] at *; omega
  incomp_trans _ _ _ h₁ h₂ h₃ h₄ := by simp only [decide_eq_false_iff_not] at *; omega

/-- An ordering by a key of any linear order. -/
theorem of_linear {β : Type} [LinearOrder β] (f : α → β) :
    StrictWeakOn (fun a b => decide (f a < f b)) s where
  irrefl _ := decide_eq_false (lt_irrefl _)
  trans _ _ _ h₁ h₂ := by
    simp only [decide_eq_true_eq] at *
    exact lt_trans h₁ h₂
  incomp_trans _ _ _ h₁ h₂ h₃ h₄ := by
    simp only [decide_eq_false_iff_not, not_lt] at *
    exact ⟨le_trans h₃ h₁, le_trans h₂ h₄⟩

/-- The ordering turned around. -/
theorem swap (h : StrictWeakOn lt s) : StrictWeakOn (fun a b => lt b a) s where
  irrefl ha := h.irrefl ha
  trans ha hb hc h₁ h₂ := h.trans hc hb ha h₂ h₁
  incomp_trans ha hb hc h₁ h₂ h₃ h₄ := (h.incomp_trans ha hb hc h₂ h₁ h₄ h₃).symm

end StrictWeakOn

/-! ## The result is unique -/

private theorem eq_of_filters {lt : α → α → Bool} :
    ∀ {l₁ l₂ : List α}, (∀ a ∈ l₁, lt a a = false) → l₁.Perm l₂ →
      (l₁.Pairwise fun a b => lt b a = false) → (l₂.Pairwise fun a b => lt b a = false) →
      (∀ a ∈ l₁, l₁.filter (tied lt a) = l₂.filter (tied lt a)) → l₁ = l₂
  | [], l₂, _, hp, _, _, _ => (List.nil_perm.mp hp).symm
  | a :: l₁, [], _, hp, _, _, _ => by simp at hp
  | a :: l₁, b :: l₂, hi, hp, h₁, h₂, hf => by
    have haa := hi a List.mem_cons_self
    have hba : lt b a = false := by
      rcases List.mem_cons.mp (hp.mem_iff.mpr List.mem_cons_self) with rfl | hb
      · exact haa
      · exact (List.pairwise_cons.mp h₁).1 b hb
    have hab : lt a b = false := by
      rcases List.mem_cons.mp (hp.mem_iff.mp List.mem_cons_self) with rfl | ha
      · exact haa
      · exact (List.pairwise_cons.mp h₂).1 a ha
    -- Both heads are the first element tied with `a`.
    have e : a = b := by
      have := hf a List.mem_cons_self
      rw [List.filter_cons_of_pos (tied_iff.mpr ⟨haa, haa⟩),
        List.filter_cons_of_pos (tied_iff.mpr ⟨hab, hba⟩)] at this
      exact (List.cons.inj this).1
    subst e
    refine congrArg _ (eq_of_filters (fun c hc => hi c (List.mem_cons_of_mem _ hc)) hp.cons_inv
      h₁.of_cons h₂.of_cons fun c hc => ?_)
    have := hf c (List.mem_cons_of_mem _ hc)
    rw [List.filter_cons, List.filter_cons] at this
    split at this
    · exact (List.cons.inj this).2
    · exact this

/-- A list has one stable sort. -/
theorem IsStableSort.unique {lt : α → α → Bool} {l l₁ l₂ : List α}
    (hi : ∀ a ∈ l, lt a a = false) (h₁ : IsStableSort lt l l₁) (h₂ : IsStableSort lt l l₂) :
    l₁ = l₂ := by
  refine eq_of_filters (fun a ha => hi a (h₁.perm.mem_iff.mp ha)) (h₁.perm.trans h₂.perm.symm)
    h₁.sorted h₂.sorted fun a ha => ?_
  have ha := h₁.perm.mem_iff.mp ha
  rw [h₁.stable a ha, h₂.stable a ha]

/-! ## Sorting twice -/

section

variable {lt r : α → α → Bool} {l l₁ l₂ : List α}

/-- By `lt`, and by `r` what `lt` does not tell apart. -/
def thenBy (lt r : α → α → Bool) (a b : α) : Bool := lt a b || (tied lt a b && r a b)

theorem tied_symm (a b : α) : tied lt a b = tied lt b a := by
  rw [tied, tied, Bool.and_comm]

theorem tied_thenBy (a b : α) : tied (thenBy lt r) a b = (tied lt a b && tied r a b) := by
  simp only [tied, thenBy]
  cases lt a b <;> cases lt b a <;> cases r a b <;> cases r b a <;> rfl

theorem thenBy_eq_false {a b : α} :
    thenBy lt r a b = false ↔ lt a b = false ∧ (tied lt a b = true → r a b = false) := by
  rw [thenBy, Bool.or_eq_false_iff, Bool.and_eq_false_imp]

theorem filter_filter_comm (p q : α → Bool) (l : List α) :
    (l.filter p).filter q = (l.filter q).filter p := by
  rw [List.filter_filter, List.filter_filter]
  exact List.filter_congr fun a _ => Bool.and_comm ..

/-- Nothing is less than anything: every list is sorted. -/
theorem IsStableSort.refl (l : List α) : IsStableSort (fun _ _ => false) l l :=
  ⟨.refl l, List.pairwise_of_forall fun _ _ => rfl, fun _ _ => rfl⟩

/-- Tied elements are tied with the same elements. -/
theorem StrictWeakOn.tied_congr {s : α → Prop} (hw : StrictWeakOn lt s) {a b c : α} (ha : s a)
    (hb : s b) (hc : s c) (h : tied lt a b = true) : tied lt a c = tied lt b c := by
  obtain ⟨h₁, h₂⟩ := tied_iff.mp h
  rw [Bool.eq_iff_iff, tied_iff, tied_iff]
  constructor
  · rintro ⟨h₃, h₄⟩
    exact hw.incomp_trans hb ha hc h₂ h₁ h₃ h₄
  · rintro ⟨h₃, h₄⟩
    exact hw.incomp_trans ha hb hc h₁ h₂ h₃ h₄

/-- What holds of the tied pairs of a list holds in each class of tied elements. -/
theorem pairwise_tied_iff {R : α → α → Prop} (hw : StrictWeakOn lt (· ∈ l)) :
    (l.Pairwise fun a b => tied lt a b = true → R a b) ↔
      ∀ a ∈ l, (l.filter (tied lt a)).Pairwise R := by
  constructor
  · intro h a ha
    refine (h.filter (tied lt a)).imp_of_mem fun hb hc hR => hR ?_
    obtain ⟨mb, hb⟩ := List.mem_filter.mp hb
    obtain ⟨mc, hc⟩ := List.mem_filter.mp hc
    rw [← hw.tied_congr ha mb mc hb]
    exact hc
  · intro h
    induction l with
    | nil => exact .nil
    | cons b l ih =>
      have hbb := hw.irrefl (List.mem_cons_self (a := b))
      have hb := h b List.mem_cons_self
      rw [List.filter_cons_of_pos (tied_iff.mpr ⟨hbb, hbb⟩), List.pairwise_cons] at hb
      refine List.pairwise_cons.mpr ⟨fun c hc ht => hb.1 c (List.mem_filter.mpr ⟨hc, ht⟩), ?_⟩
      refine ih (hw.mono fun a ha => List.mem_cons_of_mem _ ha) fun a ha => ?_
      have hsub : (l.filter (tied lt a)).Sublist ((b :: l).filter (tied lt a)) :=
        (List.sublist_cons_self b l).filter _
      exact (h a (List.mem_cons_of_mem _ ha)).sublist hsub

/-- Sorting by `lt` what was sorted by `r` sorts by both. -/
theorem IsStableSort.thenBy (hw : StrictWeakOn lt (· ∈ l)) (h₁ : IsStableSort r l l₁)
    (h₂ : IsStableSort lt l₁ l₂) : IsStableSort (thenBy lt r) l l₂ := by
  have mem₁ : ∀ a, a ∈ l₁ ↔ a ∈ l := fun a => h₁.perm.mem_iff
  have mem₂ : ∀ a, a ∈ l₂ ↔ a ∈ l₁ := fun a => h₂.perm.mem_iff
  refine ⟨h₂.perm.trans h₁.perm, ?_, fun a ha => ?_⟩
  · have hw₂ : StrictWeakOn lt (· ∈ l₂) := hw.mono fun a ha => (mem₁ a).mp ((mem₂ a).mp ha)
    -- Within a class of `lt` the elements are as `r` left them.
    have hr : l₂.Pairwise fun a b => tied lt a b = true → r b a = false := by
      refine (pairwise_tied_iff hw₂).mpr fun a ha => ?_
      rw [h₂.stable a ((mem₂ a).mp ha)]
      exact h₁.sorted.filter _
    refine (h₂.sorted.and hr).imp fun {a b} h => thenBy_eq_false.mpr ⟨h.1, fun ht => ?_⟩
    rw [tied_symm] at ht
    exact h.2 ht
  · have e : tied (RTM.thenBy lt r) a = fun b => tied lt a b && tied r a b :=
      funext (tied_thenBy a)
    have ha₁ := (mem₁ a).mpr ha
    calc l₂.filter (tied (RTM.thenBy lt r) a)
        = (l₂.filter (tied lt a)).filter (tied r a) := by
          rw [e, filter_filter_comm, List.filter_filter]
      _ = (l₁.filter (tied lt a)).filter (tied r a) := by rw [h₂.stable a ha₁]
      _ = (l₁.filter (tied r a)).filter (tied lt a) := filter_filter_comm ..
      _ = (l.filter (tied r a)).filter (tied lt a) := by rw [h₁.stable a ha]
      _ = l.filter (tied (RTM.thenBy lt r) a) := by rw [e, List.filter_filter]

/-- What is sorted by both has each class of `lt` sorted by `r`. -/
theorem IsStableSort.sorted_class (hw : StrictWeakOn lt (· ∈ l))
    (h : IsStableSort (RTM.thenBy lt r) l l₂) {a : α} (ha : a ∈ l) :
    (l₂.filter (tied lt a)).Pairwise fun b c => r c b = false := by
  have hw₂ : StrictWeakOn lt (· ∈ l₂) := hw.mono fun b hb => h.perm.mem_iff.mp hb
  have hr : l₂.Pairwise fun b c => tied lt b c = true → r c b = false := by
    refine h.sorted.imp fun {b c} hbc ht => ?_
    rw [tied_symm] at ht
    exact (thenBy_eq_false.mp hbc).2 ht
  exact (pairwise_tied_iff hw₂).mp hr a (h.perm.mem_iff.mpr ha)

/-- Within a class of `lt`, the elements tied by `r` are those tied by both. -/
theorem StrictWeakOn.filter_class (hw : StrictWeakOn lt (· ∈ l)) {a b : α} (ha : a ∈ l)
    (hb : b ∈ l) (hab : tied lt a b = true) {l' : List α} (hl' : ∀ c ∈ l', c ∈ l) :
    (l'.filter (tied lt a)).filter (tied r b) = l'.filter (tied (RTM.thenBy lt r) b) := by
  rw [List.filter_filter]
  refine List.filter_congr fun c hc => ?_
  rw [tied_thenBy, hw.tied_congr ha hb (hl' c hc) hab, Bool.and_comm]

/-- What is sorted by both is sorted by `lt` alone if and only if `r` has the
elements that `lt` does not tell apart in the order they were in. -/
theorem IsStableSort.of_thenBy_iff (hw : StrictWeakOn lt (· ∈ l)) (hr : ∀ a ∈ l, r a a = false)
    (h : IsStableSort (RTM.thenBy lt r) l l₂) :
    IsStableSort lt l l₂ ↔ l.Pairwise fun a b => tied lt a b = true → r b a = false := by
  have mem : ∀ a ∈ l₂, a ∈ l := fun a ha => h.perm.mem_iff.mp ha
  rw [pairwise_tied_iff hw]
  constructor
  · intro hs a ha
    rw [← hs.stable a ha]
    exact h.sorted_class hw ha
  · intro hp
    refine ⟨h.perm, h.sorted.imp fun hbc => (thenBy_eq_false.mp hbc).1, fun a ha => ?_⟩
    -- Both classes are sorted by `r`, and have the same elements tied by it.
    refine eq_of_filters (fun b hb => ?_) (h.perm.filter _) (h.sorted_class hw ha) (hp a ha)
      fun b hb => ?_
    · exact hr b (mem b (List.mem_filter.mp hb).1)
    · obtain ⟨hb, hab⟩ := List.mem_filter.mp hb
      have hb := mem b hb
      rw [hw.filter_class ha hb hab mem, hw.filter_class ha hb hab fun _ hc => hc]
      exact h.stable b hb

end

/-! ## Sorting by insertion -/

/-- `a`, put before the first element that is not less. -/
def insertBy (lt : α → α → Bool) (a : α) : List α → List α
  | [] => [a]
  | b :: l => if lt b a then b :: insertBy lt a l else a :: b :: l

def sortBy (lt : α → α → Bool) : List α → List α
  | [] => []
  | a :: l => insertBy lt a (sortBy lt l)

theorem insertBy_perm (lt : α → α → Bool) (a : α) (l : List α) :
    (insertBy lt a l).Perm (a :: l) := by
  induction l with
  | nil => exact List.Perm.refl _
  | cons b l ih =>
    simp only [insertBy]
    split
    · exact (ih.cons b).trans (List.Perm.swap a b l)
    · exact List.Perm.refl _

theorem sortBy_perm (lt : α → α → Bool) (l : List α) : (sortBy lt l).Perm l := by
  induction l with
  | nil => exact List.Perm.refl _
  | cons a l ih => exact (insertBy_perm lt a _).trans (ih.cons a)

theorem insertBy_sorted {lt : α → α → Bool} {a : α} {l : List α}
    (h : StrictWeakOn lt (· ∈ a :: l)) (hl : l.Pairwise fun a b => lt b a = false) :
    (insertBy lt a l).Pairwise fun a b => lt b a = false := by
  have ma : a ∈ a :: l := List.mem_cons_self
  induction l with
  | nil => simp [insertBy]
  | cons b l ih =>
    have mb : b ∈ a :: b :: l := by simp
    obtain ⟨hb, hl⟩ := List.pairwise_cons.mp hl
    simp only [insertBy]
    split
    · rename_i hba
      have sub : ∀ x ∈ a :: l, x ∈ a :: b :: l := by
        intro x hx
        rcases List.mem_cons.mp hx with rfl | hx <;> simp [*]
      refine List.pairwise_cons.mpr ⟨fun c hc => ?_, ih (h.mono sub) hl List.mem_cons_self⟩
      rcases List.mem_cons.mp ((insertBy_perm lt a l).mem_iff.mp hc) with rfl | hc
      · rcases hcb : lt c b with _ | _
        · rfl
        · have := h.irrefl ma
          rw [h.trans ma mb ma hcb hba] at this
          cases this
      · exact hb c hc
    · rename_i hba
      refine List.pairwise_cons.mpr ⟨fun c hc => ?_, List.pairwise_cons.mpr ⟨hb, hl⟩⟩
      have hba : lt b a = false := by simpa using hba
      rcases List.mem_cons.mp hc with rfl | hc
      · exact hba
      · exact h.not_lt_trans (by simp [hc]) mb ma (hb c hc) hba

theorem sortBy_sorted {lt : α → α → Bool} {l : List α} (h : StrictWeakOn lt (· ∈ l)) :
    (sortBy lt l).Pairwise fun a b => lt b a = false := by
  induction l with
  | nil => exact List.Pairwise.nil
  | cons a l ih =>
    refine insertBy_sorted (h.mono fun x hx => ?_) (ih (h.mono fun x hx => List.mem_cons_of_mem _ hx))
    rcases List.mem_cons.mp hx with rfl | hx
    · exact List.mem_cons_self
    · exact List.mem_cons_of_mem _ ((sortBy_perm lt l).mem_iff.mp hx)

/-- Inserting `a` keeps it before the elements of a class in which none is
less than it. -/
theorem insertBy_filter {lt : α → α → Bool} {a : α} {l : List α} {p : α → Bool}
    (h : p a = true → ∀ b ∈ l, p b = true → lt b a = false) :
    (insertBy lt a l).filter p = (a :: l).filter p := by
  induction l with
  | nil => rfl
  | cons b l ih =>
    have ih := ih fun ha c hc => h ha c (List.mem_cons_of_mem _ hc)
    simp only [insertBy]
    split
    · rename_i hba
      rcases ha : p a with _ | _
      · rw [List.filter_cons, ih, List.filter_cons (x := a), List.filter_cons (x := a), ha]
        simp only [Bool.false_eq_true, ↓reduceIte, List.filter_cons]
      · have hb : p b = false := by
          rcases hb : p b with _ | _
          · rfl
          · rw [h ha b List.mem_cons_self hb] at hba
            cases hba
        rw [List.filter_cons_of_neg (by simp [hb]), ih, List.filter_cons_of_pos ha,
          List.filter_cons_of_pos ha, List.filter_cons_of_neg (by simp [hb])]
    · rfl

/-- The contract of the sort by insertion. -/
theorem isStableSort_sortBy {lt : α → α → Bool} {l : List α} (h : StrictWeakOn lt (· ∈ l)) :
    IsStableSort lt l (sortBy lt l) := by
  refine ⟨sortBy_perm lt l, sortBy_sorted h, fun c hc => ?_⟩
  -- Any class of tied elements will do: the induction drops elements of the list, not of the class.
  have key : ∀ l' : List α, (∀ x ∈ l', x ∈ l) →
      (sortBy lt l').filter (tied lt c) = l'.filter (tied lt c) := by
    intro l' hl'
    induction l' with
    | nil => rfl
    | cons a l' ih =>
      have ih := ih fun x hx => hl' x (List.mem_cons_of_mem _ hx)
      have ma := hl' a List.mem_cons_self
      refine (insertBy_filter fun pa b hb pb => ?_).trans ?_
      · have mb := hl' b (List.mem_cons_of_mem _ ((sortBy_perm lt l').mem_iff.mp hb))
        obtain ⟨h₁, h₂⟩ := tied_iff.mp pa
        obtain ⟨h₃, h₄⟩ := tied_iff.mp pb
        exact (h.incomp_trans mb hc ma h₄ h₃ h₁ h₂).1
      · rw [List.filter_cons, List.filter_cons, ih]
  exact key l fun _ hx => hx

/-! ## Sorting with a comparator that may fail -/

/-- `insertBy`, with a comparator that may fail. -/
def insertM (cmp : α → α → Outcome ε Bool) (a : α) : List α → Outcome ε (List α)
  | [] => .ok [a]
  | b :: l => do
    if ← cmp b a then
      return b :: (← insertM cmp a l)
    else
      return a :: b :: l

/-- `std::stable_sort`. -/
def stableSort (cmp : α → α → Outcome ε Bool) : List α → Outcome ε (List α)
  | [] => .ok []
  | a :: l => do insertM cmp a (← stableSort cmp l)

theorem insertM_eq {cmp : α → α → Outcome ε Bool} {lt : α → α → Bool} {a : α} {l : List α}
    (h : ∀ b ∈ l, cmp b a = .ok (lt b a)) : insertM cmp a l = .ok (insertBy lt a l) := by
  induction l with
  | nil => rfl
  | cons b l ih =>
    simp only [insertM, insertBy, h b List.mem_cons_self, Outcome.ok_bind,
      ih fun c hc => h c (List.mem_cons_of_mem _ hc), Outcome.pure_eq]
    split <;> rfl

/-- A comparator that returns on the elements sorts them. -/
theorem stableSort_eq {cmp : α → α → Outcome ε Bool} {lt : α → α → Bool} {l : List α}
    (h : ∀ a ∈ l, ∀ b ∈ l, cmp a b = .ok (lt a b)) : stableSort cmp l = .ok (sortBy lt l) := by
  induction l with
  | nil => rfl
  | cons a l ih =>
    simp only [stableSort, sortBy,
      ih fun b hb c hc => h b (List.mem_cons_of_mem _ hb) c (List.mem_cons_of_mem _ hc),
      Outcome.ok_bind]
    refine insertM_eq fun b hb => h b ?_ a List.mem_cons_self
    exact List.mem_cons_of_mem _ ((sortBy_perm lt l).mem_iff.mp hb)

theorem insertM_perm {cmp : α → α → Outcome ε Bool} {a : α} {l l' : List α}
    (h : insertM cmp a l = .ok l') : l'.Perm (a :: l) := by
  induction l generalizing l' with
  | nil =>
    cases h
    exact List.Perm.refl _
  | cons b l ih =>
    obtain ⟨c, -, h⟩ := Outcome.bind_eq_ok.mp h
    split at h
    · obtain ⟨l₁, h₁, h⟩ := Outcome.bind_eq_ok.mp h
      cases h
      exact ((ih h₁).cons b).trans (List.Perm.swap a b l)
    · cases h
      exact List.Perm.refl _

/-- A sort that returns gives the same elements, whatever its comparator. -/
theorem stableSort_perm {cmp : α → α → Outcome ε Bool} {l l' : List α}
    (h : stableSort cmp l = .ok l') : l'.Perm l := by
  induction l generalizing l' with
  | nil =>
    cases h
    exact List.Perm.refl _
  | cons a l ih =>
    obtain ⟨l₁, h₁, h⟩ := Outcome.bind_eq_ok.mp h
    exact (insertM_perm h).trans ((ih h₁).cons a)

/-- A comparator that returns sorts. -/
theorem stableSort_returns {cmp : α → α → Outcome ε Bool} {l : List α}
    (h : ∀ a ∈ l, ∀ b ∈ l, (cmp a b).Returns) : (stableSort cmp l).Returns := by
  let lt : α → α → Bool := fun a b =>
    match cmp a b with
    | .ok r => r
    | _ => false
  have hlt : ∀ a ∈ l, ∀ b ∈ l, cmp a b = .ok (lt a b) := fun a ha b hb => by
    obtain ⟨r, hr⟩ := h a ha b hb
    simp only [lt, hr]
  exact ⟨_, stableSort_eq hlt⟩

/-- With fewer than two elements there is nothing to compare. -/
theorem stableSort_of_length_le_one (cmp : α → α → Outcome ε Bool) {l : List α}
    (h : l.length ≤ 1) : stableSort cmp l = .ok l := by
  match l, h with
  | [], _ => rfl
  | [_], _ => rfl

/-- A comparator that ends the program ends it, with two elements or more. -/
theorem stableSort_of_terminated {cmp : α → α → Outcome ε Bool} {l : List α}
    (h : ∀ a ∈ l, ∀ b ∈ l, cmp a b = .terminated) (hl : 2 ≤ l.length) :
    stableSort cmp l = .terminated := by
  induction l with
  | nil => simp at hl
  | cons a l ih =>
    rw [stableSort]
    by_cases h2 : 2 ≤ l.length
    · rw [ih (fun b hb c hc => h b (List.mem_cons_of_mem _ hb) c (List.mem_cons_of_mem _ hc)) h2,
        Outcome.terminated_bind]
    · obtain ⟨b, rfl⟩ : ∃ b, l = [b] := by
        refine List.length_eq_one_iff.mp ?_
        rw [List.length_cons] at hl
        omega
      have hb : b ∈ [a, b] := List.mem_cons_of_mem _ List.mem_cons_self
      have hs : stableSort cmp [b] = .ok [b] := stableSort_of_length_le_one cmp (by simp)
      rw [hs, Outcome.ok_bind, insertM,
        h b hb a List.mem_cons_self, Outcome.terminated_bind]

/-- The contract of `std::stable_sort`, for a comparator that returns and is a
strict weak ordering on the elements. -/
theorem stableSort_spec {cmp : α → α → Outcome ε Bool} {lt : α → α → Bool} {l : List α}
    (hc : ∀ a ∈ l, ∀ b ∈ l, cmp a b = .ok (lt a b)) (h : StrictWeakOn lt (· ∈ l)) :
    ∃ l', stableSort cmp l = .ok l' ∧ IsStableSort lt l l' :=
  ⟨_, stableSort_eq hc, isStableSort_sortBy h⟩

end RTM
