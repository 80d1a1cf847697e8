import Mathlib.Data.List.Perm.Basic
import RemoteTaskManager.Framework.Triple
import RemoteTaskManager.Proof.ComOrder
import RemoteTaskManager.Spec.ComProtocol

/-!
# The interfaces that objects hold

However objects are built, connected, queried, moved, assigned and destroyed, a
locator or service that COM gave has been released, or one object holds it: a
move takes it along, an assignment releases what it replaces, and a constructor
that throws holds none. Only a second connection of an object may lose one, the
service of the first (`interfaces_conserved`).
-/

namespace RTM.Proof.Interfaces

open RTM.Impl RTM.Spec RTM.Proof.WmiImpl RTM.Proof.ComBalance
open RTM.Proof.ComOrder (Use)

/-! ## Calls -/

/-- `n` of the interfaces given are yet to be released, and at no point were more
released than given. -/
structure Balance (i : Interface) (n : Int) (s : Com) : Prop where
  guarded : Guarded (gives i) (releases i) s.calls
  level : level (gives i) (releases i) s.calls = n

section

variable {i j : Interface} {n m : Int} {s : Com} {c : ComCall} {M : Machine}

theorem Balance.nonneg (h : Balance i n s) : 0 ≤ n := by
  have hle := h.guarded s.calls (List.prefix_refl _)
  have hl := h.level
  unfold RTM.level at hl
  omega

theorem Balance.log (h : Balance i n s) (hm : n + RTM.level (gives i) (releases i) [c] = m)
    (h0 : 0 ≤ m) : Balance i m (s.log c) := by
  have hl : RTM.level (gives i) (releases i) (s.log c).calls = m := by
    rw [Com.log, level_concat, h.level, hm]
  exact ⟨guarded_concat.mpr ⟨h.guarded, hl ▸ h0⟩, hl⟩

/-- A call that neither gives nor releases. -/
theorem Balance.log_other (h : Balance i n s) (hg : gives i c = false) (hr : releases i c = false) :
    Balance i n (s.log c) := by
  refine h.log ?_ h.nonneg
  simp [RTM.level, hg, hr]

theorem Balance.log_gives (h : Balance i n s) (hg : gives i c = true) (hr : releases i c = false) :
    Balance i (n + 1) (s.log c) := by
  refine h.log ?_ (by have := h.nonneg; omega)
  simp [RTM.level, hg, hr]

/-- The destructor of a pointer that may hold the interface. -/
theorem Balance.drop {b : Bool} (h : Balance i (n + if b ∧ i = j then 1 else 0) s) (h0 : 0 ≤ n) :
    Balance i n (releaseIf b j s) := by
  cases b with
  | false => simpa [Impl.releaseIf] using h
  | true =>
    refine h.log ?_ h0
    by_cases hij : i = j
    · simp [RTM.level, gives, releases, hij]
    · simp [RTM.level, gives, releases, hij, Ne.symm hij]

theorem Balance.secured (h : Balance i n s) : Balance i n (secured M s) := by
  unfold WmiImpl.secured
  split
  · have hl : Balance i n (s.log (.coInitializeSecurity M.coInitializeSecurity)) :=
      h.log_other rfl (by simp [releases])
    exact ⟨hl.guarded, hl.level⟩
  · exact h

theorem Balance.initDtor (h : Balance i n s) (o : WmiStateCo) : Balance i n (o.dtor s) := by
  unfold WmiStateCo.dtor
  split
  · exact h.log_other rfl (by simp [releases])
  · exact h

end

/-! ## An object -/

/-- Whether an object holds an interface. -/
def owns (i : Interface) (o : WmiStateT) : Bool :=
  match i with
  | .locator => o.locator
  | .service => o.service
  | .enumerator => false

/-- `n` of the interfaces given are neither released nor held by the object. -/
def Fair (i : Interface) (n : Int) (s : WmiStateT × Com) : Prop :=
  Balance i (n + if owns i s.1 then 1 else 0) s.2

section

variable {i : Interface} {n : Int} {s : Com} {M : Machine} {o : WmiStateT} {b : Bool}

/-- The pointers of an object, released in either order. -/
theorem Balance.dropBoth (h : Balance i (n + if owns i o then 1 else 0) s) (h0 : 0 ≤ n) :
    Balance i n (releaseIf o.locator .locator (releaseIf o.service .service s)) ∧
      Balance i n (releaseIf o.service .service (releaseIf o.locator .locator s)) := by
  refine ⟨.drop (.drop ?_ ?_) h0, .drop (.drop ?_ ?_) h0⟩
  · cases i <;> cases hl : o.locator <;> cases hs : o.service <;> simpa [owns, hl, hs] using h
  · split <;> omega
  · cases i <;> cases hl : o.locator <;> cases hs : o.service <;> simpa [owns, hl, hs] using h
  · split <;> omega

theorem Fair.dtor (h : Fair i n (o, s)) (h0 : 0 ≤ n) : Balance i n (o.dtor s) :=
  (Balance.dropBoth (Balance.initDtor h o.init) h0).1

/-- A constructor that returns holds what it was given, and one that throws was
given nothing. -/
theorem ctor_balance (M : Machine) (h : Balance i n s) :
    match WmiStateT.ctor M s with
    | (.ok o, s') => Fair i n (o, s')
    | (_, s') => Balance i n s' := by
  have hinit : Balance i n (s.log (.coInitializeEx M.coInitializeEx)) :=
    h.log_other rfl (by simp [releases])
  have hsec := hinit.secured (M := M)
  cases hf : failed M.coInitializeEx with
  | true =>
    rw [ctor_init_fails hf]
    exact hinit
  | false =>
    by_cases hs : SecurityFails M (s.log (.coInitializeEx M.coInitializeEx))
    · rw [ctor_security_fails hf hs]
      exact (hinit.log_other rfl (by simp [releases])).log_other rfl (by simp [releases])
    · cases hc : failed M.coCreateInstance with
      | true =>
        rw [ctor_create_fails hf hs hc]
        refine ((hsec.log_other ?_ ?_).log_other rfl ?_).log_other rfl ?_ <;> simp [gives, releases, hc]
      | false =>
        rw [ctor_ok hf hs hc]
        show Balance i _ _
        cases i with
        | locator => exact hsec.log_gives (by simp [gives, hc]) (by simp [releases])
        | service => simpa [owns] using hsec.log_other rfl (by simp [releases])
        | enumerator => simpa [owns] using hsec.log_other rfl (by simp [releases])

/-- What a use leaves: more may be lost only of a service, if the object held one. -/
def After (i : Interface) (n : Int) (connected : Bool) (s : WmiStateT × Com) : Prop :=
  ∃ m, n ≤ m ∧ ((i = .service → connected = false) → m = n) ∧ Fair i m s

theorem Fair.after {s : WmiStateT × Com} (h : Fair i n s) : After i n b s :=
  ⟨n, Int.le_refl n, fun _ => rfl, h⟩

/-- A call through an object that neither gives nor releases. -/
theorem After.log_other {c : ComCall} (h : After i n b (o, s)) (hg : gives i c = false)
    (hr : releases i c = false) : After i n b (o, s.log c) := by
  obtain ⟨m, hle, heq, h⟩ := h
  exact ⟨m, hle, heq, Balance.log_other h hg hr⟩

/-- A connection that is made: the pointer to the service is overwritten. -/
theorem connected_after {path : WString} {hres : HRESULT} (hi : i ≠ .enumerator)
    (hf : failed hres = false) (h : Fair i n (o, s)) :
    After i n o.service ({ o with service := true }, s.log (.connectServer path hres)) := by
  cases i with
  | locator =>
    exact Fair.after (Balance.log_other h (by simp [gives]) (by simp [releases]))
  | service =>
    have hl := Balance.log_gives (c := .connectServer path hres) h (by simp [gives, hf])
      (by simp [releases])
    cases hs : o.service with
    | false =>
      refine ⟨n, Int.le_refl n, fun _ => rfl, ?_⟩
      simpa [Fair, owns, hs] using hl
    | true =>
      refine ⟨n + 1, by omega, fun hfalse => (by cases hfalse rfl), ?_⟩
      simpa [Fair, owns, hs] using hl
  | enumerator => exact absurd rfl hi

theorem connect_after (hi : i ≠ .enumerator) (M : Machine) (path machine : WString) :
    Triple (fun s => Fair i n s ∧ s.1.service = b) (WmiStateT.connect M path machine)
      (fun _ => After i n b) (After i n b) := by
  rw [WmiStateT.connect]
  apply Triple.bind_get
  rintro ⟨o, s⟩ ⟨h, rfl⟩
  refine .ite (fun _ => .lift (fun _ _ h => by cases h) fun _ _ h => by cases h) fun _ => ?_
  generalize WmiStateT.serverPath path machine = server
  refine .bind (R := fun _ t => t = (o, s.log (.connectServer server (M.connectServer server))))
    (.outer fun o' => .modify fun t ht => ?_) fun _ => .ite (fun hf => .throw fun t ht => ?_) fun hf => ?_
  · obtain ⟨rfl, rfl⟩ := Prod.mk.inj ht
    rfl
  · rw [ht]
    exact (h.after).log_other (by simp [gives, hf]) (by simp [releases])
  · have hf : failed (M.connectServer server) = false := by simpa using hf
    refine .bind (R := fun _ => After i n o.service) (.modifyLocal fun o' t ht => ?_) fun _ => ?_
    · obtain ⟨rfl, rfl⟩ := Prod.mk.inj ht
      exact connected_after hi hf h
    · rw [WmiStateT.setProxyBlanket]
      refine .bind (R := fun _ => After i n o.service) (.outer fun o' => .modify fun t ht => ?_)
        fun _ => .ite (fun _ => .throw fun _ h => h) fun _ => .pure fun _ h => h
      exact ht.log_other rfl (by simp [releases])

theorem query_fair (hi : i ≠ .enumerator) (M : Machine) (queryStr : WString) :
    Keeps (Fair i n) (WmiStateT.query M queryStr) := by
  rw [WmiStateT.query]
  refine .bind_get fun t ht => Triple.imp (I := Fair i n)
    (.ite (fun _ => .lift (fun _ _ h => by cases h) fun _ _ h => by cases h) fun _ => ?_)
    (fun _ h => h ▸ ht) (fun _ _ h => h) fun _ h => h
  refine .bind (R := fun _ => Fair i n) (.outer fun o => .modify fun s hs => ?_)
    fun _ => .ite (fun _ => .throw fun _ h => h) fun _ => .pure fun _ h => h
  exact Balance.log_other hs (by cases i <;> simp_all [gives]) (by simp [releases])

/-- A use connects the object, or gives and loses nothing. -/
def connects : Use → Bool
  | .connect .. => true
  | .query .. => false

theorem use_after (hi : i ≠ .enumerator) (u : Use) {E : WmiStateT × Com → Prop} :
    Triple (fun s => Fair i n s ∧ s.1.service = b) u.exec (fun _ => After i n (b && connects u)) E := by
  cases u with
  | connect M path machine =>
    rw [connects, Bool.and_true]
    exact .caught (connect_after hi M path machine)
  | query M queryStr =>
    have hreleased (e : Option Enumeration) {s : WmiStateT × Com} (h : Fair i n s) :
        Fair i n (releaseEnumerator e s) := by
      have hs : Balance i (n + if owns i (releaseEnumerator e s).1 then 1 else 0) s.2 := h
      refine Balance.drop ?_ hs.nonneg
      simpa only [hi, and_false, ↓reduceIte, Int.add_zero] using hs
    have hquery : Keeps (Fair i n) (WmiStateT.query M queryStr >>= fun e =>
        ExecM.withLocal e (ExecM.lift (.ok ())) releaseEnumerator) := by
      refine .bind (query_fair hi M queryStr) fun e => ?_
      refine .withLocal (J := fun s => s.1 = e ∧ Fair i n s.2) (fun _ h => ⟨rfl, h⟩) ?_
      exact .lift (fun _ s _ h => hreleased s.1 h.2) fun _ s _ h => hreleased s.1 h.2
    exact .caught (hquery.imp (fun _ h => h.1) (fun _ _ h => Fair.after h) fun _ h => Fair.after h)

end

/-! ## A thread -/

/-- An operation on the objects, or a use of one. -/
inductive ThreadOp where
  | obj (a : ObjOp)
  | use (i : Nat) (u : Use)

def step (s : Thread) : ThreadOp → Option Thread
  | .obj a => s.step a
  | .use i u =>
    match s.live[i]? with
    | some (.t o) =>
      match u.exec (o, s.com) with
      | (.ok (), (o, com)) => some ⟨s.live.set i (.t o), com⟩
      | _ => none
    | _ => none

/-- Whether an object holds an interface. -/
def holds (i : Interface) : Obj → Bool
  | .co _ => false
  | .t o => owns i o

/-- How many objects hold the interface. -/
def held (i : Interface) (s : Thread) : Nat := s.live.countP (holds i)

/-- An object is connected that has a service already. -/
def Reconnects (s : Thread) : ThreadOp → Prop
  | .use i (.connect ..) => (s.live[i]?).any (holds .service) = true
  | _ => False

instance (s : Thread) : ∀ a, Decidable (Reconnects s a)
  | .use _ (.connect ..) => inferInstanceAs (Decidable (_ = _))
  | .use _ (.query ..) | .obj _ => inferInstanceAs (Decidable False)

/-- `n` of the interfaces given are neither released nor held. -/
def Accounted (i : Interface) (n : Int) (s : Thread) : Prop := Balance i (n + held i s) s.com

section

variable {i : Interface} {n : Int} {s t : Thread} {live : List Obj} {k : Nat} {x y : Obj}
  {p : Obj → Bool}

theorem countP_set (h : live[k]? = some x) (y : Obj) :
    (live.set k y).countP p + (if p x then 1 else 0) = live.countP p + if p y then 1 else 0 := by
  obtain ⟨hk, rfl⟩ := List.getElem?_eq_some_iff.mp h
  have hset := (List.set_perm_cons_eraseIdx hk y).countP_eq p
  have hget := (List.getElem_cons_eraseIdx_perm hk).countP_eq p
  rw [List.countP_cons] at hset hget
  omega

theorem countP_eraseIdx (h : live[k]? = some x) :
    (live.eraseIdx k).countP p + (if p x then 1 else 0) = live.countP p := by
  obtain ⟨hk, rfl⟩ := List.getElem?_eq_some_iff.mp h
  have hget := (List.getElem_cons_eraseIdx_perm hk).countP_eq p
  rw [List.countP_cons] at hget
  exact hget

/-- An object more. -/
theorem Accounted.push {com : Com} (h : Balance i (n + held i s + if holds i x then 1 else 0) com) :
    Accounted i n ⟨s.live ++ [x], com⟩ := by
  have e : held i ⟨s.live ++ [x], com⟩ = held i s + if holds i x then 1 else 0 := by
    rw [held, List.countP_append, List.countP_singleton]
    rfl
  have hn : n + (held i s + if holds i x then 1 else 0 : Nat) =
      n + held i s + if holds i x then 1 else 0 := by
    split <;> omega
  rw [Accounted, e, hn]
  exact h

/-- An object that takes the place of another. -/
theorem Accounted.set {com : Com} (hx : s.live[k]? = some x)
    (h : Balance i (n + held i s - (if holds i x then 1 else 0) + if holds i y then 1 else 0) com) :
    Accounted i n ⟨s.live.set k y, com⟩ := by
  have e := countP_set (p := holds i) hx y
  have hn : n + (s.live.set k y).countP (holds i) =
      n + held i s - (if holds i x then 1 else 0) + if holds i y then 1 else 0 := by
    rw [held]
    cases hp : holds i x <;> cases hq : holds i y <;>
      simp only [hp, hq, Bool.false_eq_true, ↓reduceIte] at e ⊢ <;> omega
  rw [Accounted, held, hn]
  exact h

theorem Accounted.balance (h : Accounted i n s) : Balance i (n + held i s) s.com := h

/-- A constructor that returns brings an object, and one that throws brings none. -/
theorem accounted_construct {α : Type} {f : α → Obj} {r : Outcome Exn α × Com}
    (hok : ∀ o com, r = (.ok o, com) → Balance i (n + held i s + if holds i (f o) then 1 else 0) com)
    (hthrew : ∀ e com, r = (.threw e, com) → Balance i (n + held i s) com)
    (h : s.construct f r = some t) : Accounted i n t := by
  obtain ⟨r, com⟩ := r
  cases r with
  | ok o =>
    obtain rfl := Option.some.inj h
    exact .push (hok o com rfl)
  | threw e =>
    obtain rfl := Option.some.inj h
    exact hthrew e com rfl
  | terminated => cases h
  | undefined => cases h

theorem accounted_constructCo {M : Machine} (hi : Accounted i n s)
    (h : s.step (.constructCo M) = some t) : Accounted i n t := by
  have hlog : Balance i (n + held i s) (s.com.log (.coInitializeEx M.coInitializeEx)) :=
    hi.balance.log_other rfl (by simp [releases])
  refine accounted_construct (fun o com e => ?_) (fun x com e => ?_) h
  all_goals cases hf : failed M.coInitializeEx
  · rw [coCtor_ok hf] at e
    obtain ⟨-, rfl⟩ := Prod.mk.inj e
    simpa [holds] using hlog
  · rw [coCtor_fails hf] at e
    cases e
  · rw [coCtor_ok hf] at e
    cases e
  · rw [coCtor_fails hf] at e
    obtain ⟨-, rfl⟩ := Prod.mk.inj e
    exact hlog

theorem accounted_constructT {M : Machine} (hi : Accounted i n s)
    (h : s.step (.constructT M) = some t) : Accounted i n t := by
  have hctor := ctor_balance M hi.balance
  refine accounted_construct (fun o com e => ?_) (fun x com e => ?_) h
  · rw [e] at hctor
    exact hctor
  · rw [e] at hctor
    exact hctor

/-- The object built holds what the other held. -/
theorem accounted_move {o : WmiStateT} (hi : Accounted i n s) (ho : s.live[k]? = some (.t o)) :
    Accounted i n { s with live := s.live.set k (.t o.move.2) ++ [.t o.move.1] } := by
  have hset := countP_set (p := holds i) ho (.t o.move.2)
  have hnew : owns i o.move.1 = owns i o := by cases i <;> rfl
  have hold : owns i o.move.2 = false := by cases i <;> rfl
  refine .push (s := { s with live := s.live.set k (.t o.move.2) }) ?_
  have hn : n + held i { s with live := s.live.set k (.t o.move.2) } +
      (if holds i (.t o.move.1) then 1 else 0) = n + held i s := by
    simp only [held]
    cases h₁ : owns i o <;>
      simp only [holds, h₁, hnew, hold, Bool.false_eq_true, ↓reduceIte] at hset ⊢ <;> omega
  rw [hn]
  exact hi

/-- What is replaced is released, and what replaces it is held no longer where it
was. -/
theorem accounted_moveAssign {j : Nat} {o other : WmiStateT} (hi : Accounted i n s) (h0 : 0 ≤ n)
    (hne : k ≠ j) (ho : s.live[k]? = some (.t o)) (hother : s.live[j]? = some (.t other)) :
    Accounted i n ⟨(s.live.set k (.t (o.moveAssign other s.com).1)).set j
      (.t (o.moveAssign other s.com).2.1), (o.moveAssign other s.com).2.2⟩ := by
  have hset := countP_set (p := holds i) ho (.t (o.moveAssign other s.com).1)
  have hnew : holds i (.t (o.moveAssign other s.com).1) = owns i other := by cases i <;> rfl
  have hold : holds i (.t (o.moveAssign other s.com).2.1) = false := by cases i <;> rfl
  have hj : (s.live.set k (.t (o.moveAssign other s.com).1))[j]? = some (.t other) := by
    rw [List.getElem?_set_ne hne, hother]
  have hpos := countP_eraseIdx (p := holds i) hj
  rw [hnew] at hset
  have hcom : Balance i (n + held i s - if owns i o then 1 else 0) (o.moveAssign other s.com).2.2 := by
    refine (Balance.dropBoth ?_ ?_).2
    · rw [Int.sub_add_cancel]
      exact hi
    · simp only [held]
      cases h₁ : owns i o <;> cases h₂ : owns i other <;>
        simp only [holds, h₁, h₂, Bool.false_eq_true, ↓reduceIte] at hset hpos ⊢ <;> omega
  refine Accounted.set (s := ⟨s.live.set k _, (o.moveAssign other s.com).2.2⟩) hj ?_
  rw [hold]
  have hn : n + held i ⟨s.live.set k (.t (o.moveAssign other s.com).1), (o.moveAssign other s.com).2.2⟩ -
      (if holds i (.t other) then 1 else 0) + (if false = true then 1 else 0) =
        n + held i s - if owns i o then 1 else 0 := by
    simp only [held]
    cases h₁ : owns i o <;> cases h₂ : owns i other <;>
      simp only [holds, h₁, h₂, Bool.false_eq_true, ↓reduceIte] at hset ⊢ <;> omega
  rw [hn]
  exact hcom

theorem accounted_destroy (hi : Accounted i n s) (h0 : 0 ≤ n) (hx : s.live[k]? = some x) :
    Accounted i n ⟨s.live.eraseIdx k, x.dtor s.com⟩ := by
  have hlen := countP_eraseIdx (p := holds i) hx
  have hrest : Balance i (n + (s.live.eraseIdx k).countP (holds i) + if holds i x then 1 else 0) s.com := by
    have hn : n + (s.live.eraseIdx k).countP (holds i) + (if holds i x then 1 else 0) = n + held i s := by
      rw [held]
      cases hp : holds i x <;> simp only [hp, Bool.false_eq_true, ↓reduceIte] at hlen ⊢ <;> omega
    rw [hn]
    exact hi
  cases x with
  | co o =>
    rw [if_neg (by simp [holds]), Int.add_zero] at hrest
    exact hrest.initDtor o
  | t o => exact Fair.dtor hrest (by omega)

/-- No operation on objects loses an interface. -/
theorem accounted_obj {a : ObjOp} (hi : Accounted i n s) (h0 : 0 ≤ n) (h : s.step a = some t) :
    Accounted i n t := by
  cases a with
  | constructCo M => exact accounted_constructCo hi h
  | constructT M => exact accounted_constructT hi h
  | copy j =>
    simp only [Thread.step] at h
    split at h <;> cases h
    exact .push (by simpa [holds] using hi.balance)
  | move j =>
    simp only [Thread.step] at h
    split at h
    · obtain rfl := Option.some.inj h
      exact .push (by simpa [holds] using hi.balance)
    · rename_i o ho
      obtain rfl := Option.some.inj h
      exact accounted_move hi ho
    · cases h
  | copyAssign j k =>
    simp only [Thread.step] at h
    split at h <;> cases h
    rename_i o other ho hother
    exact .set ho (by simpa [holds] using hi.balance)
  | moveAssign j k =>
    simp only [Thread.step] at h
    split at h
    · rename_i o other ho hother
      obtain rfl := Option.some.inj h
      exact .set ho (by simpa [holds] using hi.balance)
    · rename_i o other ho hother
      split at h
      · obtain rfl := Option.some.inj h
        exact hi
      · rename_i hne
        obtain rfl := Option.some.inj h
        exact accounted_moveAssign hi h0 hne ho hother
    · cases h
  | destroy j =>
    simp only [Thread.step] at h
    split at h <;> cases h
    rename_i x hx
    exact accounted_destroy hi h0 hx

/-- A use loses nothing, but for the service of an object that is connected again. -/
theorem accounted_use {u : Use} (hne : i ≠ .enumerator) (hi : Accounted i n s)
    (h : step s (.use k u) = some t) :
    ∃ m, n ≤ m ∧ ((i = .service → ¬ Reconnects s (.use k u)) → m = n) ∧ Accounted i m t := by
  simp only [step] at h
  split at h
  · rename_i o ho
    have hlen := countP_eraseIdx (p := holds i) ho
    have hrest : n + held i s =
        n + (s.live.eraseIdx k).countP (holds i) + (if owns i o then 1 else 0) := by
      simp only [held]
      cases h₁ : owns i o <;> simp only [holds, h₁, Bool.false_eq_true, ↓reduceIte] at hlen ⊢ <;> omega
    have hfair : Fair i (n + (s.live.eraseIdx k).countP (holds i)) (o, s.com) := by
      rw [Fair, ← hrest]
      exact hi
    have huse := use_after (E := fun _ => True) hne u (o, s.com) ⟨hfair, rfl⟩
    split at h <;> cases h
    rename_i o' com he
    rw [he] at huse
    obtain ⟨m, hle, heq, hm⟩ := huse
    refine ⟨m - (s.live.eraseIdx k).countP (holds i), by omega, fun hs => ?_, ?_⟩
    · have := heq fun hserv => ?_
      · omega
      · cases u with
        | query => simp [connects]
        | connect M path machine =>
          have hno := hs hserv
          simp only [Reconnects, ho, Option.any_some, Bool.not_eq_true] at hno
          simpa [connects, holds, owns] using hno
    · have hn : m - (s.live.eraseIdx k).countP (holds i) + held i s - (if owns i o then 1 else 0) +
          (if owns i o' then 1 else 0) = m + if owns i o' then 1 else 0 := by
        omega
      refine .set ho (show Balance i (_ - (if owns i o then 1 else 0) + if owns i o' then 1 else 0) com
        from ?_)
      rw [hn]
      exact hm
  · cases h

/-- A step keeps account of an interface. -/
theorem accounted_step {a : ThreadOp} (hne : i ≠ .enumerator) (h0 : 0 ≤ n) (hi : Accounted i n s)
    (h : step s a = some t) :
    ∃ m, n ≤ m ∧ ((i = .service → ¬ Reconnects s a) → m = n) ∧ Accounted i m t := by
  cases a with
  | obj a => exact ⟨n, Int.le_refl n, fun _ => rfl, accounted_obj hi h0 h⟩
  | use k u => exact accounted_use hne hi h

theorem accounted_run {ops : List ThreadOp} (hne : i ≠ .enumerator) (h0 : 0 ≤ n)
    (hi : Accounted i n s) (h : run step s ops = some t) :
    ∃ m, n ≤ m ∧ ((i = .service → AllSteps step (fun s a => ¬ Reconnects s a) s ops) → m = n) ∧
      Accounted i m t := by
  induction ops generalizing s n with
  | nil =>
    cases h
    exact ⟨n, Int.le_refl n, fun _ => rfl, hi⟩
  | cons a ops ih =>
    obtain ⟨u, hu, h⟩ := run_cons_eq_some.mp h
    obtain ⟨m, hle, heq, hi⟩ := accounted_step hne h0 hi hu
    obtain ⟨m', hle', heq', hi'⟩ := ih (Int.le_trans h0 hle) hi h
    refine ⟨m', Int.le_trans hle hle', fun hs => ?_, hi'⟩
    rw [heq' fun hserv => ((allSteps_cons hu).mp (hs hserv)).2,
      heq fun hserv => ((allSteps_cons hu).mp (hs hserv)).1]

end

/-- In every run of operations on objects and uses of them, locators and services
are never released more often than they were given; every locator that was given
has been released, or one object holds it; and so has every service, if no object
was connected while it had one. -/
theorem interfaces_conserved (secRes : Option HRESULT) {ops : List ThreadOp} {t : Thread}
    (h : run step ⟨[], ⟨secRes, []⟩⟩ ops = some t) :
    (∀ i, i ≠ .enumerator → Guarded (gives i) (releases i) t.com.calls) ∧
    t.com.calls.countP (gives .locator) =
      t.com.calls.countP (releases .locator) + held .locator t ∧
    (AllSteps step (fun s a => ¬ Reconnects s a) ⟨[], ⟨secRes, []⟩⟩ ops →
      t.com.calls.countP (gives .service) =
        t.com.calls.countP (releases .service) + held .service t) := by
  have hi : ∀ i, Accounted i 0 ⟨[], ⟨secRes, []⟩⟩ := fun i => ⟨guarded_nil, rfl⟩
  have account (i : Interface) (hne : i ≠ .enumerator) := accounted_run hne (Int.le_refl 0) (hi i) h
  have counted {i : Interface} (hi : Accounted i 0 t) :
      t.com.calls.countP (gives i) = t.com.calls.countP (releases i) + held i t := by
    have hl := hi.level
    unfold RTM.level at hl
    omega
  refine ⟨fun i hne => ?_, ?_, fun hs => ?_⟩
  · obtain ⟨m, -, -, hi⟩ := account i hne
    exact hi.guarded
  · obtain ⟨m, -, heq, hi⟩ := account .locator nofun
    exact counted (heq nofun ▸ hi)
  · obtain ⟨m, -, heq, hi⟩ := account .service nofun
    exact counted (heq (fun _ => hs) ▸ hi)

/-- An object is connected and moved, and both are destroyed. -/
def movedOn : List ThreadOp :=
  [.obj (.constructT (creating S_OK)), .use 0 (.connect (creating S_OK) root []), .obj (.move 0),
    .obj (.destroy 0), .use 0 (.query (creating S_OK) allProcesses), .obj (.destroy 0)]

theorem interfaces_conserved_moved :
    ∃ t ∈ run step ⟨[], ⟨none, []⟩⟩ movedOn, t.com.calls.countP (gives .service) = 1 ∧
      t.com.calls.countP (releases .service) = 1 := by
  obtain ⟨t, ht⟩ := Option.isSome_iff_exists.mp
    (show (run step ⟨[], ⟨none, []⟩⟩ movedOn).isSome by decide)
  have hgiven : ∀ t ∈ run step ⟨[], ⟨none, []⟩⟩ movedOn,
      t.com.calls.countP (gives .service) = 1 ∧ held .service t = 0 := by decide
  obtain ⟨hone, hheld⟩ := hgiven t ht
  obtain ⟨-, -, hservice⟩ := interfaces_conserved none ht
  have hcount := hservice (by decide)
  rw [hone, hheld] at hcount
  exact ⟨t, ht, hone, hcount.symm⟩

end RTM.Proof.Interfaces
