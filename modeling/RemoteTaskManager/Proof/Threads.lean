import RemoteTaskManager.Framework.Leaves
import RemoteTaskManager.Impl.Threads
import RemoteTaskManager.Proof.Listing
import RemoteTaskManager.Spec.ComProtocol

/-!
# Threads that connect at the same time

The threads of the program may connect in any order of their steps, and meet at
`sec_res` only. What comes after it in a thread leaves `sec_res` as it is
(`rest_leaves`), so a connection on its own is the thread where no other one
runs (`alone_eq`). Hence, in every run:

* the connections are as if made one after another, each once those before it
  have ended, in an order that keeps that of time (`connections_serial`);
* one thread at most initialises security with success, on whatever threads the
  connections are made (`security_once`);
* none waits for ever (`connections_end`).
-/

namespace RTM.Proof.Threads

open RTM.Impl RTM.Spec

/-! ## What comes after `sec_res` -/

/-- `f` looks at no call but `CoInitializeSecurity`. -/
def Blind {γ : Type} (f : Com → γ) : Prop :=
  ∀ s c, (∀ hres, c ≠ .coInitializeSecurity hres) → f (s.log c) = f s

section

variable {γ : Type} {f : Com → γ} {M : Machine}

/-- A call on the state around an object. -/
theorem Blind.logs (hf : Blind f) {c : ComCall} (hc : ∀ hres, c ≠ .coInitializeSecurity hres) :
    Leaves (fun s => f s.2) (ExecM.outer (ExecM.modify (·.log c)) : ExecM (WmiStateT × Com) Exn Unit) :=
  .outer (.modify fun s => hf s c hc)

theorem Blind.releaseIf (hf : Blind f) (b : Bool) (i : Interface) (s : Com) :
    f (releaseIf b i s) = f s := by
  cases b with
  | true => exact hf s (.release i) (by simp)
  | false => rfl

theorem Blind.dtor (hf : Blind f) (o : WmiStateT) (s : Com) : f (o.dtor s) = f s := by
  rw [WmiStateT.dtor, hf.releaseIf, hf.releaseIf, WmiStateCo.dtor]
  split
  · exact hf s .coUninit (by simp)
  · rfl

theorem ctorRest_leaves (hf : Blind f) (M : Machine) :
    Leaves (fun s => f s.2) (WmiStateT.ctorRest M) := by
  rw [WmiStateT.ctorRest]
  refine .bind (hf.logs (by simp)) fun _ => .ite (fun _ => ?_) fun _ => .modifyLocal _
  exact .bind (hf.logs (by simp)) fun _ => .throw _

theorem connect_leaves (hf : Blind f) (M : Machine) (path machine : WString) :
    Leaves (fun s => f s.2) (WmiStateT.connect M path machine) := by
  rw [WmiStateT.connect]
  refine .bind .get fun _ => .ite (fun _ => .lift _) fun _ => ?_
  refine .bind (hf.logs (by simp)) fun _ => .ite (fun _ => .throw _) fun _ => ?_
  refine .bind (.modifyLocal _) fun _ => ?_
  rw [WmiStateT.setProxyBlanket]
  exact .bind (hf.logs (by simp)) fun _ => .ite (fun _ => .throw _) fun _ => .pure _

theorem listProcesses_leaves (hf : Blind f) (P : Platform) (M : Machine) (machine : WString) :
    Leaves (fun s => f s.2) (listProcesses P M machine) := by
  rw [listProcesses]
  refine .bind (connect_leaves hf M _ machine) fun _ => .bind ?_ fun enumerator => ?_
  · rw [WmiStateT.query]
    refine .bind .get fun _ => .ite (fun _ => .lift _) fun _ => ?_
    exact .bind (hf.logs (by simp)) fun _ => .ite (fun _ => .throw _) fun _ => .pure _
  · exact .withLocal (.lift _) fun o s => hf.releaseIf o.isSome .enumerator s.2

theorem callThrough_leaves (hf : Blind f) (held : Bool) {c : ComCall}
    (hc : ∀ hres, c ≠ .coInitializeSecurity hres) : Leaves (fun s => f s.2) (callThrough held c) := by
  rw [callThrough]
  exact .ite (fun _ => hf.logs hc) fun _ => .lift _

theorem execTerminate_leaves (hf : Blind f) (R : ClassMethods) (whereClause : WString) :
    Leaves (fun s => f s.2) (execTerminate R whereClause) := by
  rw [execTerminate]
  refine .bind .get fun _ => .bind (callThrough_leaves hf _ (by simp)) fun _ => ?_
  refine .ite (fun _ => .pure _) fun _ => .bind (callThrough_leaves hf _ (by simp)) fun _ => ?_
  refine .ite (fun _ => .pure _) fun _ => .bind (callThrough_leaves hf _ (by simp)) fun _ => ?_
  exact .bind (callThrough_leaves hf _ (by simp)) fun _ => callThrough_leaves hf _ (by simp)

/-- A thread past `sec_res` makes no call that `f` looks at, and leaves `sec_res`. -/
theorem rest_leaves (hf : Blind f) (P : Platform) (c : Connection) (init : WmiStateCo) :
    Leaves f (c.rest P init) := by
  rw [Connection.rest]
  refine .bind (.construct (ctorRest_leaves hf c.M) hf.dtor) fun o => ?_
  rw [Connection.use]
  cases c.work with
  | list machine => exact .withLocal (listProcesses_leaves hf P c.M machine) hf.dtor
  | terminate R machine pid =>
    refine .bind (.withLocal ?_ hf.dtor) fun _ => .pure _
    exact .bind (connect_leaves hf c.M _ machine) fun _ => execTerminate_leaves hf R _

end

theorem blind_secRes : Blind Com.secRes := fun _ _ _ => rfl

/-! ## A connection on its own -/

section

variable {P : Platform} {c : Connection}

theorem before_ok (h : failed c.M.coInitializeEx = false) :
    c.before = .ok (⟨true⟩, [.coInitializeEx c.M.coInitializeEx]) := by
  rw [Connection.before, WmiImpl.coCtor_ok h]
  rfl

theorem before_fails (h : failed c.M.coInitializeEx = true) :
    c.before = .error (.threw (.wmiError "Failed to init COM library" c.M.coInitializeEx),
      [.coInitializeEx c.M.coInitializeEx]) := by
  rw [Connection.before, WmiImpl.coCtor_fails h]
  rfl

theorem secResInit_ok {M : Machine} (h : failed M.coInitializeSecurity = false) (s : Com) :
    WmiStateT.secResInit M s =
      (.ok M.coInitializeSecurity, s.log (.coInitializeSecurity M.coInitializeSecurity)) := by
  rw [WmiStateT.secResInit, ExecM.bind_of_ok (ExecM.modify_apply _ s), h]
  rfl

theorem secResInit_fails {M : Machine} (h : failed M.coInitializeSecurity = true) (s : Com) :
    WmiStateT.secResInit M s =
      (.threw (.wmiError "Failed to initialize security" M.coInitializeSecurity),
        s.log (.coInitializeSecurity M.coInitializeSecurity)) := by
  rw [WmiStateT.secResInit, ExecM.bind_of_ok (ExecM.modify_apply _ s), h]
  rfl

theorem init_ok (h : failed c.M.coInitializeSecurity = false) (l : WmiStateCo × List ComCall) :
    c.init l = .ok (c.M.coInitializeSecurity, l.1,
      l.2 ++ [.coInitializeSecurity c.M.coInitializeSecurity]) := by
  rw [Connection.init, secResInit_ok h]
  rfl

/-- The member `init` is destroyed. -/
theorem init_fails (h : failed c.M.coInitializeSecurity = true) (calls : List ComCall) :
    c.init (⟨true⟩, calls) =
      .error (.threw (.wmiError "Failed to initialize security" c.M.coInitializeSecurity),
        calls ++ [.coInitializeSecurity c.M.coInitializeSecurity] ++ [.coUninit]) := by
  rw [Connection.init, secResInit_fails h]
  rfl

/-- A connection, cut at the constructor's end. -/
theorem call_eq (P : Platform) (c : Connection) : c.call P = WmiStateT.ctor c.M >>= c.use P := by
  obtain ⟨M, machine | ⟨R, machine, pid⟩⟩ := c
  · rfl
  · exact ExecM.bind_assoc _ _ _

/-- The constructor, on a thread that finds the value of `sec_res`. -/
theorem construct_some (M : Machine) (init : WmiStateCo) (v : HRESULT) (calls : List ComCall) :
    ExecM.construct { init := init } (WmiStateT.ctorBody M) WmiStateT.dtor ⟨some v, calls⟩ =
      ExecM.construct { init := init } (WmiStateT.ctorRest M) WmiStateT.dtor ⟨some v, calls⟩ := by
  rw [ExecM.construct, ExecM.construct, WmiStateT.ctorBody_eq, ExecM.bind_apply, ExecM.outer_apply,
    WmiStateT.secRes_some]

/-- And on one that gives it its value. -/
theorem construct_none {M : Machine} (h : failed M.coInitializeSecurity = false) (init : WmiStateCo)
    (calls : List ComCall) :
    ExecM.construct { init := init } (WmiStateT.ctorBody M) WmiStateT.dtor ⟨none, calls⟩ =
      ExecM.construct { init := init } (WmiStateT.ctorRest M) WmiStateT.dtor
        ⟨some M.coInitializeSecurity, calls ++ [.coInitializeSecurity M.coInitializeSecurity]⟩ := by
  rw [ExecM.construct, ExecM.construct, WmiStateT.ctorBody_eq, ExecM.bind_apply, ExecM.outer_apply,
    WmiStateT.secRes_none, secResInit_ok h]
  rfl

theorem construct_fails {M : Machine} (h : failed M.coInitializeSecurity = true)
    (calls : List ComCall) :
    ExecM.construct { init := ⟨true⟩ } (WmiStateT.ctorBody M) WmiStateT.dtor ⟨none, calls⟩ =
      (.threw (.wmiError "Failed to initialize security" M.coInitializeSecurity),
        ⟨none, calls ++ [.coInitializeSecurity M.coInitializeSecurity] ++ [.coUninit]⟩) := by
  rw [ExecM.construct, WmiStateT.ctorBody_eq, ExecM.bind_apply, ExecM.outer_apply,
    WmiStateT.secRes_none, secResInit_fails h]
  rfl

/-- A connection past the member `init`. -/
theorem call_of_init (h : failed c.M.coInitializeEx = false) (v : Option HRESULT) :
    c.call P ⟨v, []⟩ =
      (ExecM.construct { init := ⟨true⟩ } (WmiStateT.ctorBody c.M) WmiStateT.dtor >>= c.use P)
        ⟨v, [.coInitializeEx c.M.coInitializeEx]⟩ := by
  rw [call_eq, WmiStateT.ctor, ExecM.bind_assoc, ExecM.bind_of_ok (WmiImpl.coCtor_ok h)]
  rfl

/-- The thread where no other one runs is the connection on its own. -/
theorem alone_eq (P : Platform) (c : Connection) (v : Option HRESULT) :
    (c.job P).alone v =
      (((c.call P ⟨v, []⟩).1, (c.call P ⟨v, []⟩).2.calls), (c.call P ⟨v, []⟩).2.secRes) := by
  have rested (s : Com) : (c.rest P ⟨true⟩ s).2.secRes = s.secRes :=
    rest_leaves blind_secRes P c ⟨true⟩ s
  cases hi : failed c.M.coInitializeEx with
  | true =>
    rw [Job.alone_of_error (Job.pass_of_error (before_fails hi) v), call_eq, WmiStateT.ctor,
      ExecM.bind_assoc, ExecM.bind_of_threw (WmiImpl.coCtor_fails hi)]
    rfl
  | false =>
    rw [call_of_init hi]
    cases v with
    | some v =>
      rw [Job.alone_of_ok (Job.pass_some (before_ok hi) v),
        ExecM.bind_congr (construct_some c.M ⟨true⟩ v _) (c.use P)]
      show _ = (((c.rest P ⟨true⟩ _).1, (c.rest P ⟨true⟩ _).2.calls), (c.rest P ⟨true⟩ _).2.secRes)
      rw [rested]
      rfl
    | none =>
      cases hs : failed c.M.coInitializeSecurity with
      | true =>
        have hpass : (c.job P).pass none = .error _ :=
          (Job.pass_none (before_ok hi)).trans (init_fails hs _)
        rw [Job.alone_of_error hpass, ExecM.bind_of_threw (construct_fails hs _)]
      | false =>
        have hpass : (c.job P).pass none = .ok _ :=
          (Job.pass_none (before_ok hi)).trans (init_ok hs _)
        rw [Job.alone_of_ok hpass, ExecM.bind_congr (construct_none hs ⟨true⟩ _) (c.use P)]
        show _ = (((c.rest P ⟨true⟩ _).1, (c.rest P ⟨true⟩ _).2.calls), (c.rest P ⟨true⟩ _).2.secRes)
        rw [rested]
        rfl

end

/-- So the value that threads leave is that of connections made one after another. -/
theorem valueAfter_eq {ι : Type} (P : Platform) (cs : ι → Connection) (v : Option HRESULT)
    (order : List ι) :
    valueAfter (fun i => (cs i).job P) v order = Threads.secResAfter P cs v order := by
  rw [valueAfter, Threads.secResAfter]
  refine congrArg (fun g => List.foldl g v order) ?_
  funext v i
  rw [alone_eq]

/-! ## One after another -/

section

variable {ι : Type} [DecidableEq ι]

/-- Whatever the order of the threads' steps, there is one of the threads
themselves: `sec_res` is what it is when their connections are made in that
order, each once those before it have ended, and a thread that has ended has the
result and the calls that its connection has there. A thread that ended before
another began comes before it. -/
theorem connections_serial (P : Platform) (cs : ι → Connection) (v : Option HRESULT) {as : List ι}
    {s : Threads ι} (h : run (Threads.step P cs) (.start v) as = some s) :
    ∃ order : List ι, order.Nodup ∧ s.value = Threads.secResAfter P cs v order ∧
      (∀ i r, s.phase i = .ended r → ∃ pre post com, order = pre ++ i :: post ∧
        (cs i).call P ⟨Threads.secResAfter P cs v pre, []⟩ = (r.1, com) ∧ com.calls = r.2) ∧
      ∀ as₁ as₂ t i k r, as = as₁ ++ as₂ → run (Threads.step P cs) (.start v) as₁ = some t →
        t.phase i = .ended r → t.phase k = .begun → order.idxOf i < order.idxOf k := by
  have hserial := StaticInit.Serial.of_run h
  refine ⟨_, hserial.nodup, ?_, fun i r hi => ?_, ?_⟩
  · rw [hserial.value, valueAfter_eq]
  · have hfits := hserial.fits i
    rw [hi] at hfits
    obtain ⟨pre, post, ho, hr⟩ := hfits
    rw [alone_eq, valueAfter_eq] at hr
    subst hr
    exact ⟨pre, post, _, ho, rfl, rfl⟩
  · rintro as₁ as₂ t i k r rfl ht hi hk
    exact StaticInit.idxOf_order_lt ht hi hk

end

/-- Two threads that list the processes of a machine: security cannot be
initialised on the first. -/
def pair : Fin 2 → Connection
  | 0 => ⟨{ Listing.answering (.done 1) with coInitializeSecurity := 0x80010119 }, .list []⟩
  | 1 => ⟨Listing.answering (.done 1), .list []⟩

/-- The second is at `sec_res` before the first is in its initialiser. -/
def overtaking : List (Fin 2) := [0, 1, 0, 0, 1, 1, 1]

theorem connections_serial_overtaking :
    ∃ s ∈ run (Threads.step .ascii pair) (.start none) overtaking, s.value = some S_OK ∧
      ∃ order : List (Fin 2), order.Nodup ∧
        some S_OK = Threads.secResAfter .ascii pair none order := by
  obtain ⟨s, hs⟩ := Option.isSome_iff_exists.mp
    (show (run (Threads.step .ascii pair) (.start none) overtaking).isSome by decide +kernel)
  have hvalue : ∀ s ∈ run (Threads.step .ascii pair) (.start none) overtaking,
      s.value = some S_OK := by decide +kernel
  obtain ⟨order, hnodup, hsec, -⟩ := connections_serial .ascii pair none hs
  exact ⟨s, hs, hvalue s hs, order, hnodup, hvalue s hs ▸ hsec⟩

/-! ## Once per process -/

/-- How many calls initialise security. -/
def secured (calls : List ComCall) : Nat := calls.countP secures

theorem blind_secured : Blind fun s => secured s.calls := by
  intro s c hc
  have hfalse : secures c = false := by
    cases c with
    | coInitializeSecurity hres => exact absurd rfl (hc hres)
    | _ => rfl
  simp [secured, Com.log, hfalse]

section

variable {P : Platform} {c : Connection} {v : Option HRESULT}

theorem before_calls {l : WmiStateCo × List ComCall} (h : c.before = .ok l) :
    l = (⟨true⟩, [.coInitializeEx c.M.coInitializeEx]) := by
  cases hi : failed c.M.coInitializeEx with
  | true =>
    rw [before_fails hi] at h
    cases h
  | false =>
    rw [before_ok hi] at h
    exact (Except.ok.inj h).symm

/-- As far as past `sec_res`, a thread initialises security if it has no value. -/
theorem pass_ok {w : HRESULT} {l : WmiStateCo × List ComCall} (h : (c.job P).pass v = .ok (w, l)) :
    secured l.2 = (if v = none then 1 else 0) ∧ ∀ hres, .coCreateInstance hres ∉ l.2 := by
  cases hi : failed c.M.coInitializeEx with
  | true =>
    rw [Job.pass_of_error (before_fails hi)] at h
    cases h
  | false =>
    cases v with
    | some v =>
      rw [Job.pass_some (before_ok hi)] at h
      cases h
      exact ⟨rfl, by simp⟩
    | none =>
      have h := (Job.pass_none (before_ok hi)).symm.trans h
      cases hs : failed c.M.coInitializeSecurity with
      | true => cases (init_fails hs _).symm.trans h
      | false =>
        cases (init_ok hs _).symm.trans h
        simp [secured, secures, hs]

/-- A thread that ends before it is past `sec_res` has not. -/
theorem pass_error {r : ThreadEnd} (h : (c.job P).pass v = .error r) :
    secured r.2 = 0 ∧ ∀ hres, .coCreateInstance hres ∉ r.2 := by
  cases hi : failed c.M.coInitializeEx with
  | true =>
    cases (Job.pass_of_error (before_fails hi) v).symm.trans h
    exact ⟨rfl, by simp⟩
  | false =>
    cases v with
    | some v => cases (Job.pass_some (before_ok hi) v).symm.trans h
    | none =>
      have h := (Job.pass_none (before_ok hi)).symm.trans h
      cases hs : failed c.M.coInitializeSecurity with
      | false => cases (init_ok hs _).symm.trans h
      | true =>
        cases (init_fails hs _).symm.trans h
        simp [secured, secures, hs]

/-- A thread initialises security if it finds `sec_res` without a value and leaves
it with one. -/
theorem alone_secured (P : Platform) (c : Connection) (v : Option HRESULT) :
    secured ((c.job P).alone v).1.2 = if v = none ∧ ((c.job P).alone v).2 ≠ none then 1 else 0 := by
  rcases h : (c.job P).pass v with r | ⟨w, l⟩
  · rw [Job.alone_of_error h, (pass_error h).1, if_neg fun hv => hv.2 hv.1]
  · rw [Job.alone_of_ok h]
    have hrest : secured ((c.job P).after w l).2 = secured l.2 :=
      rest_leaves blind_secured P c l.1 ⟨some w, l.2⟩
    simp [hrest, (pass_ok h).1]

/-- It has gone past `sec_res` if it creates an object. -/
theorem alone_creates {hres : HRESULT} (h : .coCreateInstance hres ∈ ((c.job P).alone v).1.2) :
    ((c.job P).alone v).2 ≠ none := by
  rcases hpass : (c.job P).pass v with r | ⟨w, l⟩
  · rw [Job.alone_of_error hpass] at h
    exact absurd h ((pass_error hpass).2 hres)
  · rw [Job.alone_of_ok hpass]
    exact Option.some_ne_none w

end

section

variable {ι : Type} {P : Platform} {cs : ι → Connection} {v : Option HRESULT} {order : List ι}
  {s : Threads ι}

/-- The thread that initialises security is the one that sets `sec_res`. -/
theorem secured_eq (h : StaticInit.Serial (fun i => (cs i).job P) v order s) (i : ι) :
    Sets (fun i => (cs i).job P) v order i ∧ secured (Threads.calls (s.phase i)) = 1 ∨
      ¬ Sets (fun i => (cs i).job P) v order i ∧ secured (Threads.calls (s.phase i)) = 0 := by
  have hfits := h.fits i
  cases hp : s.phase i with
  | begun =>
    rw [hp] at hfits
    exact .inr ⟨fun hi => hfits hi.mem, rfl⟩
  | arrived l =>
    rw [hp] at hfits
    refine .inr ⟨fun hi => hfits.1 hi.mem, ?_⟩
    rw [before_calls hfits.2]
    rfl
  | initialising l =>
    rw [hp] at hfits
    refine .inr ⟨fun hi => hfits.1.1 hi.mem, ?_⟩
    rw [before_calls hfits.1.2]
    rfl
  | passed l =>
    rw [hp] at hfits
    obtain ⟨pre, post, w, ho, hpass, -⟩ := hfits
    have hcount : secured (Threads.calls (.passed l)) = _ := (pass_ok hpass).1
    rw [h.sets_iff ho, hcount]
    by_cases hv : valueAfter (fun i => (cs i).job P) v pre = none
    · rw [hv] at hpass
      simp [hv, Job.alone_of_ok hpass]
    · simp [hv]
  | ended r =>
    rw [hp] at hfits
    obtain ⟨pre, post, ho, rfl⟩ := hfits
    have hcount := alone_secured P (cs i) (valueAfter (fun i => (cs i).job P) v pre)
    rw [h.sets_iff ho, Threads.calls, hcount]
    by_cases hv : valueAfter (fun i => (cs i).job P) v pre = none
    · rw [hv]
      by_cases hw : (((cs i).job P).alone none).2 = none <;> simp [hw]
    · simp [hv]

/-- No thread creates an object before `sec_res` has its value. -/
theorem value_of_creates (h : StaticInit.Serial (fun i => (cs i).job P) v order s) {i : ι}
    {hres : HRESULT} (hcall : .coCreateInstance hres ∈ Threads.calls (s.phase i)) : s.value ≠ none := by
  have hfits := h.fits i
  cases hp : s.phase i with
  | begun =>
    rw [hp] at hcall
    cases hcall
  | arrived l =>
    rw [hp] at hfits hcall
    rw [before_calls hfits.2] at hcall
    simp [Threads.calls] at hcall
  | initialising l =>
    rw [hp] at hfits hcall
    rw [before_calls hfits.1.2] at hcall
    simp [Threads.calls] at hcall
  | passed l =>
    rw [hp] at hfits
    obtain ⟨-, -, w, -, -, hv⟩ := hfits
    rw [hv]
    exact Option.some_ne_none w
  | ended r =>
    rw [hp] at hfits hcall
    obtain ⟨pre, post, ho, rfl⟩ := hfits
    rw [h.value, ho]
    exact valueAfter_ne_none (alone_creates hcall)

/-- In all threads together, one call at most initialises security with success,
and one does exactly if `sec_res` had no value and has one now. No thread creates
an object before that. -/
theorem security_once [DecidableEq ι] {as : List ι}
    (h : run (Threads.step P cs) (.start v) as = some s) :
    (∀ i, secured (Threads.calls (s.phase i)) ≤ 1) ∧
      (∀ i k, secured (Threads.calls (s.phase i)) ≠ 0 → secured (Threads.calls (s.phase k)) ≠ 0 →
        i = k) ∧
      ((∃ i, secured (Threads.calls (s.phase i)) ≠ 0) ↔ v = none ∧ s.value ≠ none) ∧
      ∀ i hres, .coCreateInstance hres ∈ Threads.calls (s.phase i) → s.value ≠ none := by
  obtain ⟨order, hserial⟩ :
      ∃ order, StaticInit.Serial (fun i => (cs i).job P) v order s := ⟨_, .of_run h⟩
  have hone := secured_eq hserial
  have sets {i : ι} : secured (Threads.calls (s.phase i)) ≠ 0 ↔
      Sets (fun i => (cs i).job P) v order i := by
    rcases hone i with ⟨hi, hc⟩ | ⟨hi, hc⟩ <;> simp [hi, hc]
  refine ⟨fun i => ?_, fun i k hi hk => (sets.mp hi).unique (sets.mp hk), ?_, fun i hres hcall =>
    value_of_creates hserial hcall⟩
  · rcases hone i with ⟨-, hc⟩ | ⟨-, hc⟩ <;> omega
  · rw [hserial.value, ← exists_sets_iff]
    exact exists_congr fun _ => sets

theorem security_once_overtaking :
    ∃ s ∈ run (Threads.step .ascii pair) (.start none) overtaking,
      secured (Threads.calls (s.phase 1)) = 1 ∧ secured (Threads.calls (s.phase 0)) = 0 := by
  obtain ⟨s, hs⟩ := Option.isSome_iff_exists.mp
    (show (run (Threads.step .ascii pair) (.start none) overtaking).isSome by decide +kernel)
  have hcalls : ∀ s ∈ run (Threads.step .ascii pair) (.start none) overtaking,
      secured (Threads.calls (s.phase 1)) = 1 := by decide +kernel
  have hone := hcalls s hs
  obtain ⟨-, honly, -⟩ := security_once hs
  refine ⟨s, hs, hone, ?_⟩
  by_contra hzero
  exact absurd (honly 0 1 hzero (by omega)) (by decide)

/-! ## Waiting -/

/-- The threads make four steps each at most, and until all have ended one of them
has a step: none waits for ever at `sec_res`. -/
theorem connections_end [DecidableEq ι] [Fintype ι] {as : List ι}
    (h : run (Threads.step P cs) (.start v) as = some s) :
    as.length ≤ 4 * Fintype.card ι ∧
      ((∃ i, ∀ r, s.phase i ≠ .ended r) → ∃ i t, Threads.step P cs s i = some t) := by
  constructor
  · have hlen := StaticInit.length_le h
    have hstart : ∑ k : ι, StaticInit.stepsLeft ((StaticInit.start v : Threads ι).phase k) =
        4 * Fintype.card ι := by
      simp [StaticInit.start, StaticInit.stepsLeft, Nat.mul_comm]
    omega
  · rintro ⟨i, hi⟩
    by_contra hno
    push Not at hno
    obtain ⟨r, hr⟩ := (StaticInit.Serial.of_run h).ended_of_stuck
      (fun k => Option.eq_none_iff_forall_ne_some.mpr (hno k)) i
    exact hi r hr

end

/-- The second thread waits for the first, which has a step. -/
theorem connections_end_waiting :
    ∃ s ∈ run (Threads.step .ascii pair) (.start none) [0, 1, 0],
      Threads.step .ascii pair s 1 = none ∧ ∃ i t, Threads.step .ascii pair s i = some t := by
  obtain ⟨s, hs⟩ := Option.isSome_iff_exists.mp
    (show (run (Threads.step .ascii pair) (.start none) [0, 1, 0]).isSome by decide +kernel)
  have hwaits : ∀ s ∈ run (Threads.step .ascii pair) (.start none) [0, 1, 0],
      (Threads.step .ascii pair s 1).isNone ∧ StaticInit.stepsLeft (s.phase 1) = 3 := by
    decide +kernel
  obtain ⟨hwait, hleft⟩ := hwaits s hs
  refine ⟨s, hs, Option.isNone_iff_eq_none.mp hwait, (connections_end hs).2 ⟨1, fun r hr => ?_⟩⟩
  rw [hr] at hleft
  cases hleft

end RTM.Proof.Threads
