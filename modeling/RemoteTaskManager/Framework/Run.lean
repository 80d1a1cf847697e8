/-!
# Runs of a transition system

A system is a partial step function: `step s a` is the state after the event
`a`, or `none` if `a` cannot happen in `s`. A run is a list of events. What
one step keeps, a run keeps (`run_inv`); what a step keeps only under a
condition on the state before it, a run whose steps all meet the condition
keeps (`run_inv_of_allSteps`), and no other run, if every other step breaks it
(`allStates_iff_allSteps`). Conditions that an invariant makes equivalent are
so along a run (`allSteps_congr`). A run of a system that another one simulates
is a run of that one (`run_simulates`).
-/

namespace RTM

variable {σ α : Type} (step : σ → α → Option σ)

/-- The state after the events, if each can happen. -/
def run : σ → List α → Option σ
  | s, [] => some s
  | s, a :: as => (step s a).bind fun s' => run s' as

/-- Every step of the run meets the condition `G` on the state before it. -/
def AllSteps (G : σ → α → Prop) : σ → List α → Prop
  | _, [] => True
  | s, a :: as => G s a ∧ ∀ s', step s a = some s' → AllSteps G s' as

/-- Every state of the run is one of `I`, as far as its events can happen. -/
def AllStates (I : σ → Prop) : σ → List α → Prop
  | s, [] => I s
  | s, a :: as => I s ∧ ∀ s', step s a = some s' → AllStates I s' as

variable {step}

@[simp] theorem run_nil (s : σ) : run step s [] = some s := rfl

theorem run_cons_eq_some {s s' : σ} {a : α} {as : List α} :
    run step s (a :: as) = some s' ↔ ∃ t, step s a = some t ∧ run step t as = some s' := by
  simp only [run, Option.bind_eq_some_iff]

/-- A run goes on from the state it has reached. -/
theorem run_append {s t : σ} {as : List α} (h : run step s as = some t) (bs : List α) :
    run step s (as ++ bs) = run step t bs := by
  induction as generalizing s with
  | nil =>
    cases h
    rfl
  | cons a as ih =>
    obtain ⟨u, hu, h⟩ := run_cons_eq_some.mp h
    rw [List.cons_append, run, hu, Option.bind_some, ih h]

theorem allSteps_cons {G : σ → α → Prop} {s t : σ} {a : α} {as : List α} (h : step s a = some t) :
    AllSteps step G s (a :: as) ↔ G s a ∧ AllSteps step G t as := by
  simp only [AllSteps, h, Option.some.injEq, forall_eq']

/-- A condition that every event meets, whatever the state. -/
theorem allSteps_of_forall {G : α → Prop} {as : List α} (h : ∀ a ∈ as, G a) (s : σ) :
    AllSteps step (fun _ a => G a) s as := by
  induction as generalizing s with
  | nil => trivial
  | cons a as ih =>
    exact ⟨h a List.mem_cons_self, fun t _ => ih (fun b hb => h b (List.mem_cons_of_mem _ hb)) t⟩

instance AllSteps.instDecidable (G : σ → α → Prop) [∀ s a, Decidable (G s a)] :
    ∀ s as, Decidable (AllSteps step G s as)
  | _, [] => isTrue trivial
  | s, a :: as =>
    match h : step s a with
    | none => decidable_of_iff (G s a) (by simp [AllSteps, h])
    | some t =>
      have := AllSteps.instDecidable G t as
      decidable_of_iff _ (allSteps_cons h).symm

theorem AllStates.head {I : σ → Prop} {s : σ} {as : List α} (h : AllStates step I s as) : I s := by
  cases as with
  | nil => exact h
  | cons a as => exact h.1

theorem run_inv {I : σ → Prop} (hstep : ∀ {s a s'}, I s → step s a = some s' → I s')
    {as : List α} {s s' : σ} (hi : I s) (h : run step s as = some s') : I s' := by
  induction as generalizing s with
  | nil =>
    simp only [run_nil, Option.some.injEq] at h
    exact h ▸ hi
  | cons a as ih =>
    obtain ⟨t, ht, h⟩ := run_cons_eq_some.mp h
    exact ih (hstep hi ht) h

/-- An invariant that speaks of what was gathered from the events so far. -/
theorem run_inv_foldl {γ : Type} {I : γ → σ → Prop} {gather : γ → α → γ}
    (hstep : ∀ {g s a s'}, I g s → step s a = some s' → I (gather g a) s')
    {as : List α} {g : γ} {s s' : σ} (hi : I g s) (h : run step s as = some s') :
    I (as.foldl gather g) s' := by
  induction as generalizing g s with
  | nil =>
    simp only [run_nil, Option.some.injEq] at h
    exact h ▸ hi
  | cons a as ih =>
    obtain ⟨t, ht, h⟩ := run_cons_eq_some.mp h
    exact ih (hstep hi ht) h

theorem run_inv_of_allSteps {I : σ → Prop} {G : σ → α → Prop}
    (hstep : ∀ {s a s'}, I s → G s a → step s a = some s' → I s')
    {as : List α} {s s' : σ} (hi : I s) (hg : AllSteps step G s as) (h : run step s as = some s') :
    I s' := by
  induction as generalizing s with
  | nil =>
    simp only [run_nil, Option.some.injEq] at h
    exact h ▸ hi
  | cons a as ih =>
    obtain ⟨t, ht, h⟩ := run_cons_eq_some.mp h
    exact ih (hstep hi hg.1 ht) (hg.2 t ht) h

/-- An invariant of what was gathered, kept by the steps that meet a condition. -/
theorem run_inv_foldl_of_allSteps {γ : Type} {I : γ → σ → Prop} {G : σ → α → Prop}
    {gather : γ → α → γ}
    (hstep : ∀ {g s a s'}, I g s → G s a → step s a = some s' → I (gather g a) s')
    {as : List α} {g : γ} {s s' : σ} (hi : I g s) (hg : AllSteps step G s as)
    (h : run step s as = some s') : I (as.foldl gather g) s' := by
  induction as generalizing g s with
  | nil =>
    simp only [run_nil, Option.some.injEq] at h
    exact h ▸ hi
  | cons a as ih =>
    obtain ⟨t, ht, h⟩ := run_cons_eq_some.mp h
    exact ih (hstep hi hg.1 ht) (hg.2 t ht) h

/-- A step that keeps `I` if and only if it meets `G`: so does a run. -/
theorem allStates_iff_allSteps {I : σ → Prop} {G : σ → α → Prop}
    (hstep : ∀ {s a s'}, I s → step s a = some s' → (I s' ↔ G s a))
    {as : List α} {s s' : σ} (hi : I s) (h : run step s as = some s') :
    AllStates step I s as ↔ AllSteps step G s as := by
  induction as generalizing s with
  | nil => exact iff_of_true hi trivial
  | cons a as ih =>
    obtain ⟨t, ht, h⟩ := run_cons_eq_some.mp h
    rw [allSteps_cons ht]
    constructor
    · rintro ⟨-, hs⟩
      have hit : I t := (hs t ht).head
      exact ⟨(hstep hi ht).mp hit, (ih hit h).mp (hs t ht)⟩
    · rintro ⟨hg, hs⟩
      have hit : I t := (hstep hi ht).mpr hg
      refine ⟨hi, fun t' ht' => ?_⟩
      obtain rfl : t = t' := Option.some.inj (ht.symm.trans ht')
      exact (ih hit h).mpr hs

/-- Two conditions that an invariant of the steps within `H` makes equivalent. -/
theorem allSteps_congr {I : σ → Prop} {H G G' : σ → α → Prop}
    (hcond : ∀ {s a}, I s → H s a → (G s a ↔ G' s a))
    (hstep : ∀ {s a s'}, I s → H s a → step s a = some s' → I s')
    {as : List α} {s : σ} (hi : I s) (hh : AllSteps step H s as) :
    AllSteps step G s as ↔ AllSteps step G' s as := by
  induction as generalizing s with
  | nil => exact Iff.rfl
  | cons a as ih =>
    refine and_congr (hcond hi hh.1) (forall_congr' fun t => forall_congr' fun ht => ?_)
    exact ih (hstep hi hh.1 ht) (hh.2 t ht)

/-- A system whose steps, on events within `G`, are runs of another one. -/
theorem run_simulates {τ β : Type} {step' : τ → β → Option τ} {R : σ → τ → Prop} {G : α → Prop}
    (hstep : ∀ {s a s' t}, R s t → G a → step s a = some s' →
      ∃ bs t', run step' t bs = some t' ∧ R s' t')
    {as : List α} {s s' : σ} {t : τ} (hr : R s t) (hg : ∀ a ∈ as, G a)
    (h : run step s as = some s') : ∃ bs t', run step' t bs = some t' ∧ R s' t' := by
  induction as generalizing s t with
  | nil =>
    simp only [run_nil, Option.some.injEq] at h
    exact ⟨[], t, rfl, h ▸ hr⟩
  | cons a as ih =>
    obtain ⟨u, hu, h⟩ := run_cons_eq_some.mp h
    obtain ⟨bs, t₁, h₁, hr₁⟩ := hstep hr (hg a List.mem_cons_self) hu
    obtain ⟨cs, t', h', hr'⟩ := ih hr₁ (fun b hb => hg b (List.mem_cons_of_mem _ hb)) h
    exact ⟨bs ++ cs, t', (run_append h₁ cs).trans h', hr'⟩

/-- Along a run whose steps keep `I` if they meet `G`, what `G` gives where `I`
holds. -/
theorem allSteps_of_inv {I : σ → Prop} {G G' : σ → α → Prop}
    (hcond : ∀ {s a s'}, I s → G s a → step s a = some s' → G' s a)
    (hstep : ∀ {s a s'}, I s → G s a → step s a = some s' → I s')
    {as : List α} {s s' : σ} (hi : I s) (hg : AllSteps step G s as) (h : run step s as = some s') :
    AllSteps step G' s as := by
  induction as generalizing s with
  | nil => trivial
  | cons a as ih =>
    obtain ⟨t, ht, h⟩ := run_cons_eq_some.mp h
    obtain ⟨hga, hg⟩ := (allSteps_cons ht).mp hg
    exact (allSteps_cons ht).mpr ⟨hcond hi hga ht, ih (hstep hi hga ht) hg h⟩

end RTM
