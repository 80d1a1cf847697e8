import RemoteTaskManager.Framework.StaticInit
import RemoteTaskManager.Impl.Win32Process

/-!
# The threads of the program, and `sec_res`

Every listing and every termination is the work of some thread, on which it
builds a `wmi_state_t`. All that two of them share is the static `sec_res` of
its constructor. So a thread is cut there: its `CoInitializeEx`, the
initialiser of `sec_res`, and the rest, which no other thread sees. A
connection not yet made is a thread that has not begun.
-/

namespace RTM.Impl

namespace WmiStateT

/-- The initialiser of `sec_res`. -/
def secResInit (M : Machine) : ComM HRESULT := do
  -- Can only be called once per process
  ExecM.modify (·.log (.coInitializeSecurity M.coInitializeSecurity))
  if failed M.coInitializeSecurity then
    ExecM.throw (.wmiError "Failed to initialize security" M.coInitializeSecurity)
  else
    return M.coInitializeSecurity

/-- The body of the constructor after `sec_res`. -/
def ctorRest (M : Machine) : ExecM (WmiStateT × Com) Exn Unit := do
  ExecM.outer (ExecM.modify (·.log (.coCreateInstance M.coCreateInstance)))
  if failed M.coCreateInstance then
    ExecM.outer (ExecM.modify (·.log .coUninit))
    ExecM.throw (.wmiError "Failed to create IWbemLocator object" M.coCreateInstance)
  else
    ExecM.modifyLocal fun o => { o with locator := true }

theorem ctorBody_eq (M : Machine) :
    ctorBody M = (do ExecM.outer (secRes M); ctorRest M : ExecM (WmiStateT × Com) Exn Unit) := rfl

/-- `sec_res` has its value. -/
theorem secRes_some (M : Machine) (v : HRESULT) (calls : List ComCall) :
    secRes M ⟨some v, calls⟩ = (.ok (), ⟨some v, calls⟩) := rfl

/-- It gets that of its initialiser. -/
theorem secRes_none (M : Machine) (calls : List ComCall) :
    secRes M ⟨none, calls⟩ = match secResInit M ⟨none, calls⟩ with
      | (.ok v, s) => (.ok (), { s with secRes := some v })
      | (.threw e, s) => (.threw e, s)
      | (.terminated, s) => (.terminated, s)
      | (.undefined, s) => (.undefined, s) := by
  simp only [secRes, secResInit, ExecM.bind_apply, ExecM.get_apply, ExecM.modify_apply, ↓reduceIte]
  cases failed M.coInitializeSecurity <;> rfl

end WmiStateT

/-- What a thread builds a `wmi_state_t` for. -/
inductive Work where
  /-- `get_wmi_win32_process`. -/
  | list (machine : WString)
  /-- `terminate_process_by_pid`. -/
  | terminate (R : ClassMethods) (machine : WString) (pid : BitVec 32)

/-- A thread's work, and what its calls return: each is made once at most. -/
structure Connection where
  M : Machine
  work : Work

/-- How a thread ends, and the calls that it made. -/
abbrev ThreadEnd : Type := Outcome Exn (List WmiProcess) × List ComCall

namespace Connection

/-- The work on its own, and the processes that it lists. -/
def call (P : Platform) (c : Connection) : ComM (List WmiProcess) :=
  match c.work with
  | .list machine => getWmiWin32Process P c.M machine
  | .terminate R machine pid => do
    terminateProcessByPid c.M R machine pid
    return []

/-- What is done with the `wmi_state`. -/
def use (P : Platform) (c : Connection) (wmiState : WmiStateT) : ComM (List WmiProcess) :=
  match c.work with
  | .list machine => ExecM.withLocal wmiState (listProcesses P c.M machine) WmiStateT.dtor
  | .terminate R machine pid => do
    ExecM.withLocal wmiState
      (do
        WmiStateT.connect c.M (wide "ROOT\\CIMV2") machine
        execTerminate R (handlePath pid))
      WmiStateT.dtor
    return []

/-- The member `init` of the `wmi_state`. -/
def before (c : Connection) : Except ThreadEnd (WmiStateCo × List ComCall) :=
  match WmiStateCo.ctor c.M ⟨none, []⟩ with
  | (.ok init, s) => .ok (init, s.calls)
  | (.threw e, s) => .error (.threw e, s.calls)
  | (.terminated, s) => .error (.terminated, s.calls)
  | (.undefined, s) => .error (.undefined, s.calls)

/-- The initialiser of `sec_res`. If it throws, so does the constructor, and
destroys the members. -/
def init (c : Connection) (l : WmiStateCo × List ComCall) :
    Except ThreadEnd (HRESULT × WmiStateCo × List ComCall) :=
  match WmiStateT.secResInit c.M ⟨none, l.2⟩ with
  | (.ok v, s) => .ok (v, l.1, s.calls)
  | (.threw e, s) => .error (.threw e, (WmiStateT.dtor { init := l.1 } s).calls)
  | (.terminated, s) => .error (.terminated, s.calls)
  | (.undefined, s) => .error (.undefined, s.calls)

/-- From `sec_res` on. -/
def rest (P : Platform) (c : Connection) (init : WmiStateCo) : ComM (List WmiProcess) := do
  let wmiState ← ExecM.construct { init := init } (WmiStateT.ctorRest c.M) WmiStateT.dtor
  c.use P wmiState

def job (P : Platform) (c : Connection) : Job HRESULT (WmiStateCo × List ComCall) ThreadEnd where
  before := c.before
  init := c.init
  after v l := ((c.rest P l.1 ⟨some v, l.2⟩).1, (c.rest P l.1 ⟨some v, l.2⟩).2.calls)

end Connection

/-- The threads of the connections `ι`, and `sec_res`. -/
abbrev Threads (ι : Type) : Type := StaticInit ι HRESULT (WmiStateCo × List ComCall) ThreadEnd

namespace Threads

variable {ι : Type}

def step [DecidableEq ι] (P : Platform) (cs : ι → Connection) : Threads ι → ι → Option (Threads ι) :=
  StaticInit.step fun i => (cs i).job P

/-- `sec_res` after the connections, each made once those before it have ended. -/
def secResAfter (P : Platform) (cs : ι → Connection) (v : Option HRESULT) (order : List ι) :
    Option HRESULT :=
  order.foldl (fun v i => ((cs i).call P ⟨v, []⟩).2.secRes) v

/-- The calls that a thread has made. -/
def calls : Phase (WmiStateCo × List ComCall) ThreadEnd → List ComCall
  | .begun => []
  | .arrived l => l.2
  | .initialising l => l.2
  | .passed l => l.2
  | .ended r => r.2

end Threads

end RTM.Impl
