import RemoteTaskManager.Impl.RemoteTaskManagement
import RemoteTaskManager.Impl.Win32Process
import RemoteTaskManager.Impl.Window

/-!
# The program

The frame with all its pages, the threads that serve it and their connections.
One thread runs the handlers of every page, one handler at a time; each page
has a task of its own. Every listing and every termination builds a `wmi_state_t`
on its thread, so what they share is the static `sec_res` alone. A connection is
one step: the threads meet at `sec_res` only, which the language initialises on
one of them at a time.
-/

namespace RTM.Impl

/-- A connection: the machine it was for, the processes it listed, and the calls
of COM that it made. -/
structure WmiUse where
  machine : WString
  listing : List WmiProcess
  calls : List ComCall
deriving DecidableEq, Repr

structure Program where
  frame : RemoteTaskManagementFrame := {}
  secRes : Option HRESULT := none
  /-- The connections made, the last one last. -/
  uses : List WmiUse := []
  /-- The exceptions that handlers left to the event loop. -/
  escaped : List Exn := []
deriving DecidableEq, Repr

/-- What a thread does; `M` is what the calls of its connection return. -/
inductive ProgramAct where
  /-- `add_page`, by the constructor or by the handler of `id_open_remote`. -/
  | addPage (host : WString) (M : Machine)
  /-- A step of a page without a connection. -/
  | page (i : Nat) (a : Act)
  /-- The task of a page calls `get_wmi_win32_process`. -/
  | fetch (i : Nat) (M : Machine)
  /-- The handler of `id_close_by_pid`. -/
  | closeByPid (i : Nat) (M : Machine) (R : ClassMethods)

/-- The steps of a page with a connection. -/
def Act.connects : Act → Bool
  | .fetch _ | .fetchThrows _ | .selectClose => true
  | _ => false

/-- The processes of a listing that returns. -/
def listed : Outcome Exn (List WmiProcess) → List WmiProcess
  | .ok listing => listing
  | _ => []

/-- The step of the task that its listing makes. -/
def fetchAct : Outcome Exn (List WmiProcess) → Option Act
  | .ok listing => some (.fetch listing)
  | .threw e => some (.fetchThrows e)
  | _ => none

namespace Program

/-- What a thread starts with. -/
def com (s : Program) : Com := ⟨s.secRes, []⟩

/-- Whether no handler is running. -/
def idle (s : Program) : Bool := s.frame.mNotebook.all (·.page.handler = .idle)

/-- Whether no handler of another page is running. -/
def idleBut (s : Program) (i : Nat) : Bool :=
  (s.frame.mNotebook.eraseIdx i).all (·.page.handler = .idle)

def setPage (s : Program) (i : Nat) (p : NotebookPage) : Program :=
  { s with frame := { s.frame with mNotebook := s.frame.mNotebook.set i p } }

/-- After a connection. -/
def used (s : Program) (machine : WString) (listing : List WmiProcess) (com : Com) : Program :=
  { s with secRes := com.secRes, uses := s.uses ++ [⟨machine, listing, com.calls⟩] }

def addPage (P : Platform) (s : Program) (host : WString) (M : Machine) : Option Program :=
  let (result, com) := getWmiWin32Process P M host s.com
  match RemoteTaskManagementFrame.addPage P (fun _ => result) host s.frame with
  | (.ok (), frame) => some { s.used host (listed result) com with frame }
  | _ => none

def fetch (P : Platform) (s : Program) (i : Nat) (p : NotebookPage) (M : Machine) :
    Option Program := do
  let (result, com) := getWmiWin32Process P M p.page.mRemoteHost s.com
  let a ← fetchAct result
  let page ← p.page.step P a
  return (s.used p.page.mRemoteHost (listed result) com).setPage i { p with page }

def closeByPid (P : Platform) (s : Program) (i : Nat) (p : NotebookPage) (M : Machine)
    (R : ClassMethods) : Option Program := do
  let popup ← p.page.popup
  let page ← p.page.step P .selectClose
  let (result, com) := terminateProcessByPid M R p.host popup.pid s.com
  let s := (s.used p.host [] com).setPage i { p with page }
  match result with
  | .ok () => return s
  | .threw e => return { s with escaped := s.escaped ++ [e] }
  | _ => none

def step (P : Platform) (s : Program) : ProgramAct → Option Program
  | .addPage host M => if s.idle then s.addPage P host M else none
  | .page i a =>
    match s.frame.mNotebook[i]? with
    | some p =>
      -- Handlers wait for one another, the task for none of them
      if a.connects = false ∧ (a.ofUpdate ∨ s.idleBut i) then
        (p.page.step P a).map fun page => s.setPage i { p with page }
      else none
    | none => none
  | .fetch i M =>
    match s.frame.mNotebook[i]? with
    | some p => s.fetch P i p M
    | none => none
  | .closeByPid i M R =>
    match s.frame.mNotebook[i]? with
    | some p => if s.idle then s.closeByPid P i p M R else none
    | none => none

end Program

end RTM.Impl
