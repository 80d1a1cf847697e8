import RemoteTaskManager.Proof.ComBalance

/-!
# The order of the destructor

`init` is the last member declared, and so the first destroyed: the thread is
uninitialised, and then `service` and `locator` are released. Whatever is done
with an object in between changes neither (`Quiet`), so the interfaces that an
object holds are released in time exactly when its constructor throws
(`com_order_iff`), and the same is so of `get_wmi_win32_process`
(`getWmiWin32Process_order`).
-/

namespace RTM.Proof.ComOrder

open RTM.Impl RTM.Proof.WmiImpl RTM.Proof.ComBalance

/-- The release of an interface that a `wmi_state_t` holds. -/
def isRelease : ComCall → Bool
  | .release .locator | .release .service => true
  | _ => false

/-- Every interface is released while the thread is initialised. -/
def InTime (s : Com) : Prop := Within isInit isUninit isRelease s.calls

theorem inTime_log {s : Com} (c : ComCall) :
    InTime (s.log c) ↔ InTime s ∧ (isRelease c = true → 0 < depth s) :=
  within_concat

/-! ## Use of an object -/

/-- A call that leaves the object's locator and `init` alone, and the thread as
initialised as it was. -/
structure Quiet {α : Type} (x : ExecM (WmiStateT × Com) Exn α) : Prop where
  keeps : ∀ o s, (x (o, s)).2.1.locator = o.locator ∧ (x (o, s)).2.1.init = o.init ∧
    depth (x (o, s)).2.2 = depth s

namespace Quiet

variable {α β : Type}

theorem get : Quiet ExecM.get := ⟨fun _ _ => ⟨rfl, rfl, rfl⟩⟩

theorem pure (a : α) : Quiet (Pure.pure a) := ⟨fun _ _ => ⟨rfl, rfl, rfl⟩⟩

theorem lift (r : Outcome Exn α) : Quiet (ExecM.lift r) := ⟨fun _ _ => ⟨rfl, rfl, rfl⟩⟩

theorem throw (e : Exn) : Quiet (ExecM.throw e : ExecM (WmiStateT × Com) Exn α) :=
  ⟨fun _ _ => ⟨rfl, rfl, rfl⟩⟩

/-- A call of COM that is no initialisation. -/
theorem log {c : ComCall} (h : level isInit isUninit [c] = 0) :
    Quiet (ExecM.outer (ExecM.modify (·.log c))) :=
  ⟨fun _ s => ⟨rfl, rfl, (depth_log s c).trans (by rw [h, Int.add_zero])⟩⟩

theorem setService : Quiet (ExecM.modifyLocal fun o : WmiStateT => { o with service := true }) :=
  ⟨fun _ _ => ⟨rfl, rfl, rfl⟩⟩

theorem bind {x : ExecM (WmiStateT × Com) Exn α} {f : α → ExecM (WmiStateT × Com) Exn β}
    (hx : Quiet x) (hf : ∀ a, Quiet (f a)) : Quiet (x >>= f) := by
  refine ⟨fun o s => ?_⟩
  obtain ⟨h₁, h₂, h₃⟩ := hx.keeps o s
  rw [ExecM.bind_apply]
  cases h : x (o, s) with
  | mk r os =>
    rw [h] at h₁ h₂ h₃
    cases r with
    | ok a =>
      obtain ⟨k₁, k₂, k₃⟩ := (hf a).keeps os.1 os.2
      exact ⟨k₁.trans h₁, k₂.trans h₂, k₃.trans h₃⟩
    | threw e => exact ⟨h₁, h₂, h₃⟩
    | terminated => exact ⟨h₁, h₂, h₃⟩
    | undefined => exact ⟨h₁, h₂, h₃⟩

theorem caught {x : ExecM (WmiStateT × Com) Exn Unit} (hx : Quiet x) : Quiet (ExecM.caught x) := by
  refine ⟨fun o s => ?_⟩
  have h := hx.keeps o s
  rw [ExecM.caught]
  split
  · rename_i he
    rw [he] at h
    exact h
  · exact h

theorem ite {p : Prop} [Decidable p] {x y : ExecM (WmiStateT × Com) Exn α} (hx : Quiet x)
    (hy : Quiet y) : Quiet (if p then x else y) := by
  split
  · exact hx
  · exact hy

/-- A call whose enumerator is released after it. -/
theorem withEnumerator (e : Option Enumeration) (r : Outcome Exn α) :
    Quiet (ExecM.withLocal e (ExecM.lift r) releaseEnumerator) := by
  refine ⟨fun o s => ?_⟩
  have hd : depth (releaseEnumerator e (o, s)).2 = depth s := depth_releaseIf _ _
  cases r with
  | ok a => exact ⟨rfl, rfl, hd⟩
  | threw x => exact ⟨rfl, rfl, hd⟩
  | terminated => exact ⟨rfl, rfl, rfl⟩
  | undefined => exact ⟨rfl, rfl, rfl⟩

end Quiet

theorem setProxyBlanket_quiet (M : Machine) : Quiet (WmiStateT.setProxyBlanket M) := by
  apply Quiet.bind (.log rfl)
  intro _
  exact .ite (.throw _) (.pure _)

theorem connect_quiet (M : Machine) (path machine : WString) :
    Quiet (WmiStateT.connect M path machine) := by
  apply Quiet.bind .get
  intro o
  apply Quiet.ite (.lift _)
  apply Quiet.bind (.log rfl)
  intro _
  apply Quiet.ite (.throw _)
  -- The interface is connected, and the blanket is set.
  apply Quiet.bind .setService
  intro _
  exact setProxyBlanket_quiet M

theorem query_quiet (M : Machine) (queryStr : WString) : Quiet (WmiStateT.query M queryStr) := by
  apply Quiet.bind .get
  intro o
  apply Quiet.ite (.lift _)
  apply Quiet.bind (.log rfl)
  intro _
  exact .ite (.throw _) (.pure _)

theorem listProcesses_quiet (P : Platform) (M : Machine) (machine : WString) :
    Quiet (listProcesses P M machine) := by
  apply Quiet.bind (connect_quiet ..)
  intro _
  apply Quiet.bind (query_quiet ..)
  intro e
  exact .withEnumerator e _

theorem callThrough_quiet {held : Bool} {c : ComCall} (h : level isInit isUninit [c] = 0) :
    Quiet (callThrough held c) := .ite (.log h) (.lift _)

theorem execTerminate_quiet (R : ClassMethods) (whereClause : WString) :
    Quiet (execTerminate R whereClause) := by
  apply Quiet.bind .get
  intro o
  apply Quiet.bind (callThrough_quiet rfl)
  intro _
  apply Quiet.ite (.pure _)
  apply Quiet.bind (callThrough_quiet rfl)
  intro _
  apply Quiet.ite (.pure _)
  apply Quiet.bind (callThrough_quiet rfl)
  intro _
  apply Quiet.bind (callThrough_quiet rfl)
  intro _
  exact callThrough_quiet rfl

/-! ## The life of an object -/

/-- An object is built, used and destroyed. -/
def life {α : Type} (M : Machine) (body : ExecM (WmiStateT × Com) Exn α) : ComM α := do
  let wmiState ← WmiStateT.ctor M
  ExecM.withLocal wmiState body WmiStateT.dtor

/-- Whether the constructor throws. -/
def CtorThrows (M : Machine) (secRes : Option HRESULT) : Prop :=
  failed M.coInitializeEx = true ∨ (secRes = none ∧ failed M.coInitializeSecurity = true) ∨
    failed M.coCreateInstance = true

/-- The behaviour is defined, and does not end the program. -/
def Ends {α : Type} (r : Outcome Exn α) : Prop := r.Returns ∨ r.Throws

/-- The locator of an object built is released too late. -/
theorem not_inTime_dtor {o : WmiStateT} {s : Com} (hl : o.locator = true) (hi : o.init = ⟨true⟩)
    (hd : depth s = 1) : ¬ InTime (o.dtor s) := by
  rw [WmiStateT.dtor, hl, releaseIf, if_pos rfl, inTime_log]
  rintro ⟨-, h⟩
  have h := h rfl
  rw [depth_releaseIf, hi, WmiStateCo.dtor, if_pos rfl, depth_log, hd] at h
  exact absurd h (by decide)

section

variable {α : Type} {M : Machine} {secRes : Option HRESULT} {body : ExecM (WmiStateT × Com) Exn α}

/-- Calls without a release. -/
theorem inTime_of_none {s : Com} (h : ∀ c ∈ s.calls, isRelease c = false) : InTime s := by
  intro p a hp ha
  rw [h a (hp.subset (by simp))] at ha
  cases ha

/-- A call that the constructor makes. -/
inductive CtorCall : ComCall → Prop where
  | init (hres : HRESULT) : CtorCall (.coInitializeEx hres)
  | security (hres : HRESULT) : CtorCall (.coInitializeSecurity hres)
  | create (hres : HRESULT) : CtorCall (.coCreateInstance hres)
  | uninit : CtorCall .coUninit

attribute [simp] CtorCall.init CtorCall.security CtorCall.create CtorCall.uninit

/-- The calls of a constructor that throws. -/
theorem ctor_threw_calls (h : CtorThrows M secRes) :
    ∃ e s, WmiStateT.ctor M ⟨secRes, []⟩ = (.threw e, s) ∧ ∀ c ∈ s.calls, CtorCall c := by
  cases hf : failed M.coInitializeEx with
  | true => exact ⟨_, _, ctor_init_fails hf, by simp [Com.log]⟩
  | false =>
    by_cases hs : SecurityFails M (Com.log ⟨secRes, []⟩ (.coInitializeEx M.coInitializeEx))
    · exact ⟨_, _, ctor_security_fails hf hs, by simp [Com.log]⟩
    · have hc : failed M.coCreateInstance = true := by
        rcases h with h | h | h
        · rw [hf] at h
          cases h
        · exact absurd h hs
        · exact h
      refine ⟨_, _, ctor_create_fails hf hs hc, ?_⟩
      cases secRes <;> simp [secured, Com.log]

theorem ctor_threw (h : CtorThrows M secRes) :
    ∃ e s, WmiStateT.ctor M ⟨secRes, []⟩ = (.threw e, s) ∧ InTime s := by
  obtain ⟨e, s, hs, hc⟩ := ctor_threw_calls h
  refine ⟨e, s, hs, inTime_of_none fun c hm => ?_⟩
  cases hc c hm <;> rfl

/-- The object built, and its thread. -/
theorem ctor_returned (h : ¬ CtorThrows M secRes) :
    ∃ s, WmiStateT.ctor M ⟨secRes, []⟩ = (.ok ⟨true, false, ⟨true⟩⟩, s) ∧ depth s = 1 := by
  simp only [CtorThrows, not_or, Bool.not_eq_true] at h
  refine ⟨_, ctor_ok h.1 (fun hs => h.2.1 hs) h.2.2, ?_⟩
  simp only [depth_log, depth_secured, level_coCreateInstance, level_coInitializeEx, h.1]
  rfl

/-- The interfaces of an object are released in time exactly when it is never
built. -/
theorem life_inTime_iff (hq : Quiet body) (h : Ends (life M body ⟨secRes, []⟩).1) :
    InTime (life M body ⟨secRes, []⟩).2 ↔ CtorThrows M secRes := by
  by_cases ht : CtorThrows M secRes
  · refine iff_of_true ?_ ht
    obtain ⟨e, s, hs, hin⟩ := ctor_threw ht
    rw [life, ExecM.bind_of_threw hs]
    exact hin
  · refine iff_of_false ?_ ht
    obtain ⟨s, hs, hd⟩ := ctor_returned ht
    rw [life, ExecM.bind_of_ok hs, ExecM.withLocal_apply] at h ⊢
    obtain ⟨k₁, k₂, k₃⟩ := hq.keeps ⟨true, false, ⟨true⟩⟩ s
    cases hb : body (⟨true, false, ⟨true⟩⟩, s) with
    | mk r os =>
      rw [hb] at h k₁ k₂ k₃
      cases r with
      | ok a => exact not_inTime_dtor k₁ k₂ (k₃.trans hd)
      | threw e => exact not_inTime_dtor k₁ k₂ (k₃.trans hd)
      | terminated => rcases h with ⟨_, h⟩ | ⟨_, h⟩ <;> cases h
      | undefined => rcases h with ⟨_, h⟩ | ⟨_, h⟩ <;> cases h

end

/-! ## Connecting and querying -/

/-- A use of an object. -/
inductive Use where
  | connect (M : Machine) (path machine : WString)
  | query (M : Machine) (queryStr : WString)

/-- A use whose exception, if it throws, is caught; the enumerator that a query
gives is released. -/
def Use.exec : Use → ExecM (WmiStateT × Com) Exn Unit
  | connect M path machine => ExecM.caught (WmiStateT.connect M path machine)
  | query M queryStr => ExecM.caught do
    let enumerator ← WmiStateT.query M queryStr
    ExecM.withLocal enumerator (ExecM.lift (.ok ())) releaseEnumerator

def useAll : List Use → ExecM (WmiStateT × Com) Exn Unit
  | [] => pure ()
  | u :: us => do
    u.exec
    useAll us

theorem useAll_quiet (us : List Use) : Quiet (useAll us) := by
  induction us with
  | nil => exact .pure ()
  | cons u us ih =>
    refine .bind ?_ fun _ => ih
    cases u with
    | connect M path machine => exact .caught (connect_quiet M path machine)
    | query M queryStr => exact .caught (.bind (query_quiet M queryStr) fun e => .withEnumerator e _)

/-- On a thread that nothing else has initialised, an object that is built,
connected and queried, and destroyed releases its interfaces while the thread
is initialised exactly when its constructor throws. -/
theorem com_order_iff (M : Machine) (secRes : Option HRESULT) (us : List Use)
    (h : Ends (life M (useAll us) ⟨secRes, []⟩).1) :
    InTime (life M (useAll us) ⟨secRes, []⟩).2 ↔ CtorThrows M secRes :=
  life_inTime_iff (useAll_quiet us) h

/-- So does the object of `get_wmi_win32_process`. -/
theorem getWmiWin32Process_order (P : Platform) (M : Machine) (machine : WString)
    (secRes : Option HRESULT) (h : Ends (getWmiWin32Process P M machine ⟨secRes, []⟩).1) :
    InTime (getWmiWin32Process P M machine ⟨secRes, []⟩).2 ↔ CtorThrows M secRes :=
  life_inTime_iff (listProcesses_quiet P M machine) h

/-- And the object of `terminate_process_by_where`. -/
theorem terminateProcessByWhere_order (M : Machine) (R : ClassMethods)
    (machine whereClause : WString) (secRes : Option HRESULT)
    (h : Ends (terminateProcessByWhere M R machine whereClause ⟨secRes, []⟩).1) :
    InTime (terminateProcessByWhere M R machine whereClause ⟨secRes, []⟩).2 ↔ CtorThrows M secRes :=
  life_inTime_iff (.bind (connect_quiet ..) fun _ => execTerminate_quiet ..) h

/-- Without its locator, an object is in time. -/
theorem com_order_uncreated :
    InTime (life (creating 0x80040154) (useAll [.query (creating S_OK) []]) ⟨none, []⟩).2 :=
  (com_order_iff (creating 0x80040154) none [.query (creating S_OK) []]
    (.inr ⟨_, rfl⟩)).mpr (.inr (.inr rfl))

/-- An object that connects: the thread is initialised and uninitialised, and
then the service and the locator are released. -/
theorem com_order_late :
    let s := (life (creating S_OK) (useAll [.connect (creating S_OK) root []]) ⟨none, []⟩).2
    (∃ p, p ++ [.release .service, .release .locator] = s.calls ∧
      p.countP isInit = 1 ∧ p.countP isUninit = 1) ∧ ¬ InTime s := by
  refine ⟨⟨[.coInitializeEx S_OK, .coInitializeSecurity S_OK, .coCreateInstance S_OK,
    .connectServer (WmiStateT.serverPath root []) S_OK, .coSetProxyBlanket S_OK, .coUninit],
    rfl, rfl, rfl⟩, fun h => ?_⟩
  have := (life_inTime_iff (useAll_quiet [.connect (creating S_OK) root []]) (.inl ⟨_, rfl⟩)).mp h
  rcases this with h | ⟨-, h⟩ | h <;> cases h

end RTM.Proof.ComOrder
