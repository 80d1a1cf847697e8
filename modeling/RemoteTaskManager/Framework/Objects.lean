import Mathlib.Logic.Function.Basic
import RemoteTaskManager.Framework.Run

/-!
# Objects of a class

The objects of a class, in numbered variables, are constructed by default or of
a value, assigned a value, and copied (`ObjectOp`). Each is what the class makes
of the value that it was given last, directly or through copies, or a copy of a
default constructed object if it was given none (`run_made`).
-/

namespace RTM

variable {α ι : Type}

/-- What is done with the objects of a class: `T x;`, `T x( v );`, `x = v;`,
`T x( y );` and `x = y;`. -/
inductive ObjectOp (ι : Type) where
  | default (x : Nat)
  | construct (x : Nat) (v : ι)
  | assign (x : Nat) (v : ι)
  | copyConstruct (x y : Nat)
  | copyAssign (x y : Nat)
deriving DecidableEq, Repr

/-- A class whose assignment of a value leaves what the constructor makes of
it; copies are equal to what they are copied from. -/
structure ObjectClass (α ι : Type) where
  default : α
  construct : ι → α
  assign : α → ι → α
  assign_eq : ∀ a v, assign a v = construct v

namespace ObjectClass

variable (C : ObjectClass α ι)

/-- The objects there are after an operation; only an object can be assigned to
or copied. -/
def step (s : Nat → Option α) : ObjectOp ι → Option (Nat → Option α)
  | .default x => some (Function.update s x (some C.default))
  | .construct x v => some (Function.update s x (some (C.construct v)))
  | .assign x v => (s x).map fun a => Function.update s x (some (C.assign a v))
  | .copyConstruct x y => (s y).map fun b => Function.update s x (some b)
  | .copyAssign x y => (s x).bind fun _ => (s y).map fun b => Function.update s x (some b)

/-- What is made of the value given last, if one was. -/
def made : Option ι → α
  | none => C.default
  | some v => C.construct v

end ObjectClass

/-- The value that each variable was given last, after one more operation. -/
def give (g : Nat → Option ι) : ObjectOp ι → Nat → Option ι
  | .default x => Function.update g x none
  | .construct x v | .assign x v => Function.update g x (some v)
  | .copyConstruct x y | .copyAssign x y => Function.update g x (g y)

/-- The value that each variable was given last. -/
def given (ops : List (ObjectOp ι)) : Nat → Option ι := ops.foldl give fun _ => none

variable {C : ObjectClass α ι} {g : Nat → Option ι} {s s' : Nat → Option α} {op : ObjectOp ι}

/-- Every object is what is made of the value given. -/
def Made (C : ObjectClass α ι) (g : Nat → Option ι) (s : Nat → Option α) : Prop :=
  ∀ x a, s x = some a → a = C.made (g x)

/-- A variable that gets an object of the value noted for it. -/
theorem Made.update (h : Made C g s) {x : Nat} {a : α} {o : Option ι} (ha : a = C.made o) :
    Made C (Function.update g x o) (Function.update s x (some a)) := by
  intro y b hb
  by_cases hy : y = x
  · subst hy
    rw [Function.update_self] at hb ⊢
    exact (Option.some.inj hb).symm.trans ha
  · rw [Function.update_of_ne hy] at hb ⊢
    exact h y b hb

theorem made_step (h : Made C g s) (hs : C.step s op = some s') : Made C (give g op) s' := by
  cases op with
  | default x =>
    obtain rfl := Option.some.inj hs
    exact h.update rfl
  | construct x v =>
    obtain rfl := Option.some.inj hs
    exact h.update rfl
  | assign x v =>
    obtain ⟨a, -, rfl⟩ := Option.map_eq_some_iff.mp hs
    exact h.update (C.assign_eq a v)
  | copyConstruct x y =>
    obtain ⟨b, hb, rfl⟩ := Option.map_eq_some_iff.mp hs
    exact h.update (h y b hb)
  | copyAssign x y =>
    obtain ⟨-, -, hs⟩ := Option.bind_eq_some_iff.mp hs
    obtain ⟨b, hb, rfl⟩ := Option.map_eq_some_iff.mp hs
    exact h.update (h y b hb)

/-- Every object reached is what the class makes of the value it was given last. -/
theorem run_made {ops : List (ObjectOp ι)} (h : run C.step (fun _ => none) ops = some s) {x : Nat}
    {a : α} (hx : s x = some a) : a = C.made (given ops x) := by
  have hi : Made C (fun _ => none) fun _ => none := fun _ _ hb => (Option.some_ne_none _ hb.symm).elim
  exact run_inv_foldl made_step hi h x a hx

end RTM
