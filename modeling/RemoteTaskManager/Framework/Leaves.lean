import RemoteTaskManager.Framework.Outcome

/-!
# What a call leaves as it is

`Leaves f x`: however the call `x` ends, `f` of the state is what it was. There
is one rule for each way to make a call of others.
-/

namespace RTM

variable {σ τ ε α β γ : Type}

def Leaves (f : σ → γ) (x : ExecM σ ε α) : Prop := ∀ s, f (x s).2 = f s

namespace Leaves

variable {f : σ → γ} {x : ExecM σ ε α}

theorem pure (a : α) : Leaves f (Pure.pure a : ExecM σ ε α) := fun _ => rfl

theorem throw (e : ε) : Leaves f (ExecM.throw e : ExecM σ ε α) := fun _ => rfl

theorem lift (r : Outcome ε α) : Leaves f (ExecM.lift r : ExecM σ ε α) := fun _ => rfl

theorem get : Leaves f (ExecM.get : ExecM σ ε σ) := fun _ => rfl

theorem modify {g : σ → σ} (h : ∀ s, f (g s) = f s) : Leaves f (ExecM.modify g : ExecM σ ε Unit) := h

theorem bind {g : α → ExecM σ ε β} (hx : Leaves f x) (hg : ∀ a, Leaves f (g a)) :
    Leaves f (x >>= g) := by
  intro s
  have h := hx s
  rw [ExecM.bind_apply]
  rcases hr : x s with ⟨_ | _ | _ | _, s'⟩ <;> rw [hr] at h
  · exact (hg _ s').trans h
  · exact h
  · exact h
  · exact h

theorem ite {p : Prop} [Decidable p] {y : ExecM σ ε α} (hx : p → Leaves f x) (hy : ¬ p → Leaves f y) :
    Leaves f (if p then x else y) := by
  split
  · exact hx ‹_›
  · exact hy ‹_›

/-! ## Local objects -/

/-- A call on the state around a local object. -/
theorem outer (h : Leaves f x) :
    Leaves (fun s => f s.2) (ExecM.outer x : ExecM (τ × σ) ε α) := fun s => h s.2

theorem modifyLocal (g : τ → τ) :
    Leaves (fun s => f s.2) (ExecM.modifyLocal g : ExecM (τ × σ) ε Unit) := fun _ => rfl

theorem withLocal {o : τ} {dtor : τ → σ → σ} {body : ExecM (τ × σ) ε α}
    (h : Leaves (fun s => f s.2) body) (hd : ∀ o s, f (dtor o s) = f s) :
    Leaves f (ExecM.withLocal o body dtor) := by
  intro s
  have h := h (o, s)
  rw [ExecM.withLocal_apply]
  rcases hb : body (o, s) with ⟨_ | _ | _ | _, o', s'⟩ <;> rw [hb] at h
  · exact (hd o' s').trans h
  · exact (hd o' s').trans h
  · exact h
  · exact h

theorem construct {o : τ} {dtor : τ → σ → σ} {body : ExecM (τ × σ) ε Unit}
    (h : Leaves (fun s => f s.2) body) (hd : ∀ o s, f (dtor o s) = f s) :
    Leaves f (ExecM.construct o body dtor) := by
  intro s
  have h := h (o, s)
  rw [ExecM.construct]
  rcases hb : body (o, s) with ⟨_ | _ | _ | _, o', s'⟩ <;> rw [hb] at h
  · exact h
  · exact (hd o' s').trans h
  · exact h
  · exact h

end Leaves

end RTM
