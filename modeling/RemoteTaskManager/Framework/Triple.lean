import RemoteTaskManager.Framework.Outcome

/-!
# Pre- and postconditions of calls

`Triple I x Q E`: from a state of `I`, a call of `x` that returns leaves a
result and a state of `Q`, and one that throws a state of `E`. Of a call that
ends the program, or whose behaviour is undefined, it says nothing. There is one
rule for each way to make a call of others.
-/

namespace RTM

variable {σ τ ε α β : Type}

def Triple (I : σ → Prop) (x : ExecM σ ε α) (Q : α → σ → Prop) (E : σ → Prop) : Prop :=
  ∀ s, I s → match x s with
    | (.ok a, s') => Q a s'
    | (.threw _, s') => E s'
    | _ => True

/-- A triple whose call keeps what it finds, however it ends. -/
abbrev Keeps (I : σ → Prop) (x : ExecM σ ε α) : Prop := Triple I x (fun _ => I) I

namespace Triple

variable {I I' E E' : σ → Prop} {x : ExecM σ ε α} {Q Q' : α → σ → Prop}

/-- What is so however the call ends, if it does. -/
theorem of_ends {s : σ} {J : σ → Prop} (h : Triple I x (fun _ => J) J) (hs : I s)
    (he : (x s).1.Returns ∨ (x s).1.Throws) : J (x s).2 := by
  have h := h s hs
  rcases hx : x s with ⟨r, s'⟩
  rw [hx] at h he
  rcases he with ⟨a, rfl⟩ | ⟨e, rfl⟩
  · exact h
  · exact h

/-- The rule of consequence. -/
theorem imp (h : Triple I x Q E) (hI : ∀ s, I' s → I s) (hQ : ∀ a s, Q a s → Q' a s)
    (hE : ∀ s, E s → E' s) : Triple I' x Q' E' := by
  intro s hs
  have h := h s (hI s hs)
  rcases hx : x s with ⟨_ | _ | _ | _, s'⟩ <;> rw [hx] at h
  · exact hQ _ _ h
  · exact hE _ h
  · trivial
  · trivial

/-- The precondition as a hypothesis. -/
theorem of_forall (h : ∀ s, I s → Triple (fun t => t = s) x Q E) : Triple I x Q E :=
  fun s hs => h s hs s rfl

theorem pure {a : α} (h : ∀ s, I s → Q a s) : Triple I (Pure.pure a : ExecM σ ε α) Q E := h

theorem throw {e : ε} (h : ∀ s, I s → E s) : Triple I (ExecM.throw e : ExecM σ ε α) Q E := h

theorem modify {Q : Unit → σ → Prop} {f : σ → σ} (h : ∀ s, I s → Q () (f s)) :
    Triple I (ExecM.modify f : ExecM σ ε Unit) Q E := h

theorem lift {r : Outcome ε α} (hQ : ∀ a s, r = .ok a → I s → Q a s)
    (hE : ∀ e s, r = .threw e → I s → E s) : Triple I (ExecM.lift r : ExecM σ ε α) Q E := by
  intro s hs
  cases r with
  | ok a => exact hQ a s rfl hs
  | threw e => exact hE e s rfl hs
  | terminated => trivial
  | undefined => trivial

theorem bind {R : α → σ → Prop} {Q : β → σ → Prop} {f : α → ExecM σ ε β} (hx : Triple I x R E)
    (hf : ∀ a, Triple (R a) (f a) Q E) : Triple I (x >>= f) Q E := by
  intro s hs
  have h := hx s hs
  rw [ExecM.bind_apply]
  rcases hr : x s with ⟨_ | _ | _ | _, s'⟩ <;> rw [hr] at h
  · exact hf _ _ h
  · exact h
  · trivial
  · trivial

theorem bind_keeps {Q : β → σ → Prop} {f : α → ExecM σ ε β} (hx : Keeps I x)
    (hf : ∀ a, Triple I (f a) Q I) : Triple I (x >>= f) Q I := bind hx hf

/-- Reading the state. -/
theorem bind_get {f : σ → ExecM σ ε α} (h : ∀ s, I s → Triple (fun t => t = s) (f s) Q E) :
    Triple I (ExecM.get >>= f) Q E :=
  fun s hs => h s hs s rfl

theorem ite {p : Prop} [Decidable p] {y : ExecM σ ε α} (hx : p → Triple I x Q E)
    (hy : ¬ p → Triple I y Q E) : Triple I (if p then x else y) Q E := by
  split
  · exact hx ‹_›
  · exact hy ‹_›

theorem caught {x : ExecM σ ε Unit} {Q : Unit → σ → Prop} (h : Triple I x Q (Q ())) :
    Triple I (ExecM.caught x) Q E := by
  intro s hs
  have h := h s hs
  rw [ExecM.caught]
  rcases hr : x s with ⟨_ | _ | _ | _, s'⟩ <;> rw [hr] at h
  · exact h
  · exact h
  · trivial
  · trivial

/-! ## Local objects -/

variable {J E : τ × σ → Prop} {Q : α → τ × σ → Prop}

/-- A call on the state around a local object. -/
theorem outer (h : ∀ o, Triple (fun s => J (o, s)) x (fun a s => Q a (o, s)) fun s => E (o, s)) :
    Triple J (ExecM.outer x : ExecM (τ × σ) ε α) Q E := by
  rintro ⟨o, s⟩ hs
  have h := h o s hs
  rw [ExecM.outer_apply]
  rcases hx : x s with ⟨_ | _ | _ | _, s'⟩ <;> rw [hx] at h
  · exact h
  · exact h
  · trivial
  · trivial

theorem modifyLocal {Q : Unit → τ × σ → Prop} {f : τ → τ} (h : ∀ o s, J (o, s) → Q () (f o, s)) :
    Triple J (ExecM.modifyLocal f : ExecM (τ × σ) ε Unit) Q E := fun s hs => h s.1 s.2 hs

/-- The scope of a local object, whose destructor runs however it is left. -/
theorem withLocal {I E : σ → Prop} {Q : α → σ → Prop} {o : τ} {dtor : τ → σ → σ}
    {body : ExecM (τ × σ) ε α} (hI : ∀ s, I s → J (o, s))
    (h : Triple J body (fun a s => Q a (dtor s.1 s.2)) fun s => E (dtor s.1 s.2)) :
    Triple I (ExecM.withLocal o body dtor) Q E := by
  intro s hs
  have h := h (o, s) (hI s hs)
  rw [ExecM.withLocal_apply]
  rcases hb : body (o, s) with ⟨_ | _ | _ | _, o', s'⟩ <;> rw [hb] at h
  · exact h
  · exact h
  · trivial
  · trivial

/-- A constructor, which destroys what is built if its body throws. -/
theorem construct {I E : σ → Prop} {Q : τ → σ → Prop} {o : τ} {dtor : τ → σ → σ}
    {body : ExecM (τ × σ) ε Unit} (hI : ∀ s, I s → J (o, s))
    (h : Triple J body (fun _ s => Q s.1 s.2) fun s => E (dtor s.1 s.2)) :
    Triple I (ExecM.construct o body dtor) Q E := by
  intro s hs
  have h := h (o, s) (hI s hs)
  rw [ExecM.construct]
  rcases hb : body (o, s) with ⟨_ | _ | _ | _, o', s'⟩ <;> rw [hb] at h
  · exact h
  · exact h
  · trivial
  · trivial

end Triple

end RTM
