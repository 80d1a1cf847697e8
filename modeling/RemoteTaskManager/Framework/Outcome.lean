/-!
# Outcomes of C++ code

A call returns, throws, reaches `std::terminate` or has undefined behaviour
(`Outcome`). A member function also changes its object, and what it changed
stays changed when it throws (`ExecM`, over the state `σ`); `withLocal` is a
local variable of class type, whose destructor runs however its scope is left
by a return or an exception, and `construct` the body of a constructor, which
an exception leaves with the members destroyed.
-/

namespace RTM

/-- How a call ends. -/
inductive Outcome (ε α : Type) where
  | ok (a : α)
  | threw (e : ε)
  | terminated
  | undefined
deriving DecidableEq, Repr

namespace Outcome

variable {ε α β γ : Type}

/-- Nothing after a call that does not return is run. -/
def bind (x : Outcome ε α) (f : α → Outcome ε β) : Outcome ε β :=
  match x with
  | ok a => f a
  | threw e => threw e
  | terminated => terminated
  | undefined => undefined

instance : Monad (Outcome ε) where
  pure := ok
  bind := bind

@[simp] theorem pure_eq (a : α) : (pure a : Outcome ε α) = ok a := rfl

@[simp] theorem ok_bind (a : α) (f : α → Outcome ε β) : (ok a >>= f) = f a := rfl

@[simp] theorem threw_bind (e : ε) (f : α → Outcome ε β) : (threw e >>= f) = threw e := rfl

@[simp] theorem terminated_bind (f : α → Outcome ε β) :
    ((terminated : Outcome ε α) >>= f) = terminated := rfl

@[simp] theorem undefined_bind (f : α → Outcome ε β) :
    ((undefined : Outcome ε α) >>= f) = undefined := rfl

/-- A sequence of two calls returns if both do. -/
theorem bind_eq_ok {x : Outcome ε α} {f : α → Outcome ε β} {b : β} :
    (x >>= f) = ok b ↔ ∃ a, x = ok a ∧ f a = ok b := by
  cases x with
  | ok a => simp
  | threw e => simp
  | terminated => simp
  | undefined => simp

/-- Whether the call returns. -/
def Returns (x : Outcome ε α) : Prop := ∃ a, x = ok a

/-- Whether the call throws. -/
def Throws (x : Outcome ε α) : Prop := ∃ e, x = threw e

theorem returns_ok (a : α) : (ok a : Outcome ε α).Returns := ⟨a, rfl⟩

theorem not_throws_ok (a : α) : ¬ (ok a : Outcome ε α).Throws := fun ⟨_, h⟩ => by cases h

/-- A sequence whose first call returns for sure returns if the second does. -/
theorem returns_bind {x : Outcome ε α} {f : α → Outcome ε β} :
    (x >>= f).Returns ↔ ∃ a, x = ok a ∧ (f a).Returns := by
  constructor
  · rintro ⟨b, h⟩
    obtain ⟨a, ha, hb⟩ := bind_eq_ok.mp h
    exact ⟨a, ha, b, hb⟩
  · rintro ⟨a, ha, b, hb⟩
    exact ⟨b, bind_eq_ok.mpr ⟨a, ha, hb⟩⟩

end Outcome

/-- A call that reads and changes a state, and keeps what it changed when it
throws. -/
def ExecM (σ ε α : Type) : Type := σ → Outcome ε α × σ

namespace ExecM

variable {σ τ ε α β : Type}

def bind (x : ExecM σ ε α) (f : α → ExecM σ ε β) : ExecM σ ε β := fun s =>
  match x s with
  | (.ok a, s') => f a s'
  | (.threw e, s') => (.threw e, s')
  | (.terminated, s') => (.terminated, s')
  | (.undefined, s') => (.undefined, s')

instance : Monad (ExecM σ ε) where
  pure a := fun s => (.ok a, s)
  bind := bind

/-- The state. -/
def get : ExecM σ ε σ := fun s => (.ok s, s)

def modify (f : σ → σ) : ExecM σ ε Unit := fun s => (.ok (), f s)

def throw (e : ε) : ExecM σ ε α := fun s => (.threw e, s)

/-- A call that does not touch the state. -/
def lift (x : Outcome ε α) : ExecM σ ε α := fun s => (x, s)

@[simp] theorem pure_apply (a : α) (s : σ) : (pure a : ExecM σ ε α) s = (.ok a, s) := rfl

@[simp] theorem get_apply (s : σ) : (get : ExecM σ ε σ) s = (.ok s, s) := rfl

@[simp] theorem modify_apply (f : σ → σ) (s : σ) : (modify f : ExecM σ ε Unit) s = (.ok (), f s) := rfl

@[simp] theorem lift_apply (x : Outcome ε α) (s : σ) : (lift x : ExecM σ ε α) s = (x, s) := rfl

theorem bind_apply (x : ExecM σ ε α) (f : α → ExecM σ ε β) (s : σ) :
    (x >>= f) s = match x s with
      | (.ok a, s') => f a s'
      | (.threw e, s') => (.threw e, s')
      | (.terminated, s') => (.terminated, s')
      | (.undefined, s') => (.undefined, s') := rfl

/-- A call that returns is followed by the rest. -/
theorem bind_of_ok {x : ExecM σ ε α} {s s' : σ} {a : α} (h : x s = (.ok a, s'))
    (f : α → ExecM σ ε β) : (x >>= f) s = f a s' := by
  rw [bind_apply, h]

/-- An exception ends the sequence. -/
theorem bind_of_threw {x : ExecM σ ε α} {s s' : σ} {e : ε} (h : x s = (.threw e, s'))
    (f : α → ExecM σ ε β) : (x >>= f) s = (.threw e, s') := by
  rw [bind_apply, h]

theorem bind_assoc {γ : Type} (x : ExecM σ ε α) (f : α → ExecM σ ε β) (g : β → ExecM σ ε γ) :
    (x >>= f) >>= g = x >>= fun a => f a >>= g := by
  funext s
  rw [bind_apply, bind_apply, bind_apply]
  rcases x s with ⟨_ | _ | _ | _, s'⟩ <;> rfl

/-- What comes after two calls that do the same does the same. -/
theorem bind_congr {x y : ExecM σ ε α} {s t : σ} (h : x s = y t) (f : α → ExecM σ ε β) :
    (x >>= f) s = (y >>= f) t := by
  rw [bind_apply, bind_apply, h]

/-- `try { x } catch( ... ) { }`. -/
def caught (x : ExecM σ ε Unit) : ExecM σ ε Unit := fun s =>
  match x s with
  | (.threw _, s') => (.ok (), s')
  | r => r

/-- `try { x } catch( ... ) { h }`. -/
def tryCatch (x h : ExecM σ ε Unit) : ExecM σ ε Unit := fun s =>
  match x s with
  | (.threw _, s') => h s'
  | r => r

/-- The object `o` after a call of a member function. -/
def on (o : τ) (x : ExecM τ ε Unit) : Outcome ε τ :=
  match x o with
  | (.ok (), o') => .ok o'
  | (.threw e, _) => .threw e
  | (.terminated, _) => .terminated
  | (.undefined, _) => .undefined

theorem on_of_ok {o o' : τ} {x : ExecM τ ε Unit} (h : x o = (.ok (), o')) : on o x = .ok o' := by
  rw [on, h]

/-- A local object `o` in the scope `body`, destroyed by `dtor` when the scope
is left by a return or by an exception. -/
def withLocal (o : τ) (body : ExecM (τ × σ) ε α) (dtor : τ → σ → σ) : ExecM σ ε α := fun s =>
  match body (o, s) with
  | (.ok a, (o', s')) => (.ok a, dtor o' s')
  | (.threw e, (o', s')) => (.threw e, dtor o' s')
  | (.terminated, (_, s')) => (.terminated, s')
  | (.undefined, (_, s')) => (.undefined, s')

@[simp] theorem withLocal_apply (o : τ) (body : ExecM (τ × σ) ε α) (dtor : τ → σ → σ) (s : σ) :
    withLocal o body dtor s = match body (o, s) with
      | (.ok a, (o', s')) => (.ok a, dtor o' s')
      | (.threw e, (o', s')) => (.threw e, dtor o' s')
      | (.terminated, (_, s')) => (.terminated, s')
      | (.undefined, (_, s')) => (.undefined, s') := rfl

/-- The body of a constructor, on an object `o` whose members are built; `dtor`
destroys them if the body throws. -/
def construct (o : τ) (body : ExecM (τ × σ) ε Unit) (dtor : τ → σ → σ) : ExecM σ ε τ := fun s =>
  match body (o, s) with
  | (.ok (), (o', s')) => (.ok o', s')
  | (.threw e, (o', s')) => (.threw e, dtor o' s')
  | (.terminated, (_, s')) => (.terminated, s')
  | (.undefined, (_, s')) => (.undefined, s')

/-- A change of the local object. -/
def modifyLocal (f : τ → τ) : ExecM (τ × σ) ε Unit := fun s => (.ok (), (f s.1, s.2))

@[simp] theorem modifyLocal_apply (f : τ → τ) (o : τ) (s : σ) :
    (modifyLocal f : ExecM (τ × σ) ε Unit) (o, s) = (.ok (), (f o, s)) := rfl

/-- A call on the state around a local object. -/
def outer (x : ExecM σ ε α) : ExecM (τ × σ) ε α := fun s =>
  match x s.2 with
  | (r, s') => (r, (s.1, s'))

@[simp] theorem outer_apply (x : ExecM σ ε α) (o : τ) (s : σ) :
    (outer x : ExecM (τ × σ) ε α) (o, s) = ((x s).1, (o, (x s).2)) := rfl

end ExecM

end RTM
