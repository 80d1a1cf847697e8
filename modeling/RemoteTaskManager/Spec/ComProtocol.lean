import RemoteTaskManager.Framework.Run
import RemoteTaskManager.Impl.WmiImpl

/-!
# The order of the calls of COM

What the calls of a process need of the calls before them. Its security is
initialised once, before anything is created; an interface is used, and released
once, after a call that gave it; a connection goes from a locator to a service,
and from a service to enumerators and methods. How often a thread is initialised
is left out.
-/

namespace RTM.Spec

open RTM.Impl

/-- What a process holds: its security, and the interfaces of a connection. -/
structure ComHeld where
  secured : Bool := false
  locator : Bool := false
  service : Bool := false
  enumerator : Bool := false
deriving DecidableEq, Repr

namespace ComHeld

def holds (h : ComHeld) : Interface → Bool
  | .locator => h.locator
  | .service => h.service
  | .enumerator => h.enumerator

def drop (h : ComHeld) : Interface → ComHeld
  | .locator => { h with locator := false }
  | .service => { h with service := false }
  | .enumerator => { h with enumerator := false }

/-- What a call that is in order leaves. A call that fails gives nothing. -/
def step (h : ComHeld) : ComCall → Option ComHeld
  | .coInitializeEx _ | .coUninit => some h
  | .coInitializeSecurity hres =>
    if h.secured = false then some { h with secured := !failed hres } else none
  | .coCreateInstance hres =>
    if h.secured ∧ h.locator = false then some { h with locator := !failed hres } else none
  | .connectServer _ hres =>
    if h.locator ∧ h.service = false then some { h with service := !failed hres } else none
  | .execQuery _ hres =>
    if h.service ∧ h.enumerator = false then some { h with enumerator := !failed hres } else none
  | .coSetProxyBlanket _ | .getObject _ _ | .getMethod _ _ | .spawnInstance _ | .put _ _ _
  | .execMethod _ _ _ => if h.service then some h else none
  | .release i => if h.holds i then some (h.drop i) else none

end ComHeld

/-- The call gives the interface. -/
def gives (i : Interface) : ComCall → Bool
  | .coCreateInstance hres => i = .locator ∧ failed hres = false
  | .connectServer _ hres => i = .service ∧ failed hres = false
  | .execQuery _ hres => i = .enumerator ∧ failed hres = false
  | _ => false

/-- The call releases the interface. -/
def releases (i : Interface) (c : ComCall) : Bool := c = .release i

/-- The call initialises the security. -/
def secures : ComCall → Bool
  | .coInitializeSecurity hres => !failed hres
  | _ => false

section

variable {h h' : ComHeld} {c : ComCall} {calls : List ComCall}

/-- A call in order gives an interface that is not held, and releases one that
is. -/
theorem holds_step (i : Interface) (hs : h.step c = some h') :
    (if gives i c then 1 else 0) + (h.holds i).toNat =
      (if releases i c then 1 else 0) + (h'.holds i).toNat := by
  cases c with
  | coInitializeEx _ | coUninit =>
    cases hs
    rfl
  | coInitializeSecurity hres =>
    simp only [ComHeld.step, Option.ite_none_right_eq_some, Option.some.injEq] at hs
    obtain ⟨-, rfl⟩ := hs
    cases i <;> rfl
  | coCreateInstance hres =>
    simp only [ComHeld.step, Option.ite_none_right_eq_some, Option.some.injEq] at hs
    obtain ⟨⟨-, hl⟩, rfl⟩ := hs
    cases i <;> cases hf : failed hres <;> simp [gives, releases, ComHeld.holds, hl, hf]
  | connectServer path hres =>
    simp only [ComHeld.step, Option.ite_none_right_eq_some, Option.some.injEq] at hs
    obtain ⟨⟨-, hl⟩, rfl⟩ := hs
    cases i <;> cases hf : failed hres <;> simp [gives, releases, ComHeld.holds, hl, hf]
  | execQuery query hres =>
    simp only [ComHeld.step, Option.ite_none_right_eq_some, Option.some.injEq] at hs
    obtain ⟨⟨-, hl⟩, rfl⟩ := hs
    cases i <;> cases hf : failed hres <;> simp [gives, releases, ComHeld.holds, hl, hf]
  | release j =>
    simp only [ComHeld.step, Option.ite_none_right_eq_some, Option.some.injEq] at hs
    obtain ⟨hj, rfl⟩ := hs
    cases i <;> cases j <;> simp_all [gives, releases, ComHeld.holds, ComHeld.drop]
  | coSetProxyBlanket _ | getObject _ _ | getMethod _ _ | spawnInstance _ | put _ _ _ | execMethod _ _ _ =>
    simp only [ComHeld.step, Option.ite_none_right_eq_some, Option.some.injEq] at hs
    obtain ⟨-, rfl⟩ := hs
    rfl

theorem secured_step (hs : h.step c = some h') :
    (if secures c then 1 else 0) + h.secured.toNat = h'.secured.toNat := by
  cases c with
  | coInitializeSecurity hres =>
    simp only [ComHeld.step, Option.ite_none_right_eq_some, Option.some.injEq] at hs
    obtain ⟨hl, rfl⟩ := hs
    cases hf : failed hres <;> simp [secures, hl, hf]
  | coInitializeEx _ | coUninit =>
    cases hs
    simp [secures]
  | release j =>
    simp only [ComHeld.step, Option.ite_none_right_eq_some, Option.some.injEq] at hs
    obtain ⟨-, rfl⟩ := hs
    cases j <;> simp [secures, ComHeld.drop]
  | _ =>
    simp only [ComHeld.step, Option.ite_none_right_eq_some, Option.some.injEq] at hs
    obtain ⟨-, rfl⟩ := hs
    simp [secures]

end

end RTM.Spec
