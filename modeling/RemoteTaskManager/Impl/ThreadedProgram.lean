import RemoteTaskManager.Impl.Program
import RemoteTaskManager.Impl.Threads

/-!
# The program, connection by connection

The program with each connection made in steps (`Connection.job`), between which
any other thread may go on: it is begun by its thread, which waits at `sec_res`
if it must, ends, and goes on with what it was made for. The thread of the
handlers does nothing else meanwhile.
-/

namespace RTM.Impl

/-- The thread of the handlers, and the task of each page. -/
inductive ProgramThread where
  | handlers
  | task (i : Nat)
deriving DecidableEq, Repr

/-- The thread that makes a step. -/
def ProgramAct.thread : ProgramAct → ProgramThread
  | .fetch i _ => .task i
  | _ => .handlers

/-- The machine that a connection is for. -/
def Connection.machine (c : Connection) : WString :=
  match c.work with
  | .list machine => machine
  | .terminate _ machine _ => machine

structure ThreadedProgram where
  frame : RemoteTaskManagementFrame := {}
  /-- The connections that have ended, the last one last. -/
  uses : List WmiUse := []
  escaped : List Exn := []
  /-- The step that each thread is in the middle of, and its connection. -/
  pending : ProgramThread → Option (ProgramAct × Connection) := fun _ => none
  threads : Threads ProgramThread := .start none

inductive ThreadedAct where
  /-- A step of a page without a connection. -/
  | page (i : Nat) (a : Act)
  /-- A thread comes to its connection. -/
  | connect (a : ProgramAct)
  /-- A step of a connection. -/
  | goOn (t : ProgramThread)
  /-- The rest of what a thread does, its connection made. -/
  | leave (t : ProgramThread)

namespace ThreadedProgram

/-- The program as it is between two steps, but for the connections begun. -/
def program (s : ThreadedProgram) : Program := ⟨s.frame, s.threads.value, s.uses, s.escaped⟩

/-- The connection that a step begins with. -/
def connection (s : ThreadedProgram) : ProgramAct → Option Connection
  | .addPage host M => if s.program.idle then some ⟨M, .list host⟩ else none
  | .page _ _ => none
  | .fetch i M =>
    match s.frame.mNotebook[i]? with
    | some p => if p.page.update = .started then some ⟨M, .list p.page.mRemoteHost⟩ else none
    | none => none
  | .closeByPid i M R =>
    match s.frame.mNotebook[i]? with
    | some p =>
      if s.program.idle then p.page.popup.map fun popup => ⟨M, .terminate R p.host popup.pid⟩
      else none
    | none => none

def setPage (s : ThreadedProgram) (i : Nat) (p : NotebookPage) : ThreadedProgram :=
  { s with frame := { s.frame with mNotebook := s.frame.mNotebook.set i p } }

/-- After a connection. -/
def used (s : ThreadedProgram) (t : ProgramThread) (machine : WString) (listing : List WmiProcess)
    (calls : List ComCall) : ThreadedProgram :=
  { s with
    uses := s.uses ++ [⟨machine, listing, calls⟩]
    pending := Function.update s.pending t none }

/-- What the thread `t` does with the end `r` of the connection for `machine`. -/
def leave (P : Platform) (s : ThreadedProgram) (t : ProgramThread) (machine : WString)
    (r : ThreadEnd) : ProgramAct → Option ThreadedProgram
  | .addPage host _ =>
    match RemoteTaskManagementFrame.addPage P (fun _ => r.1) host s.frame with
    | (.ok (), frame) => some { s.used t machine (listed r.1) r.2 with frame }
    | _ => none
  | .page _ _ => none
  | .fetch i _ => do
    let p ← s.frame.mNotebook[i]?
    let a ← fetchAct r.1
    let page ← p.page.step P a
    return (s.used t machine (listed r.1) r.2).setPage i { p with page }
  | .closeByPid i _ _ => do
    let p ← s.frame.mNotebook[i]?
    let page ← p.page.step P .selectClose
    let s := (s.used t machine [] r.2).setPage i { p with page }
    match r.1 with
    | .ok _ => return s
    | .threw e => return { s with escaped := s.escaped ++ [e] }
    | _ => none

def step (P : Platform) (s : ThreadedProgram) : ThreadedAct → Option ThreadedProgram
  | .page i a =>
    if a.ofUpdate ∨ (s.pending .handlers).isNone then
      (s.program.step P (.page i a)).map fun program => { s with frame := program.frame }
    else none
  | .connect a =>
    if (s.pending a.thread).isNone then
      (s.connection a).map fun c => { s with
        pending := Function.update s.pending a.thread (some (a, c))
        threads := s.threads.set a.thread .begun }
    else none
  | .goOn t =>
    match s.pending t with
    | some (_, c) => (Threads.step P (fun _ => c) s.threads t).map fun threads => { s with threads }
    | none => none
  | .leave t =>
    match s.pending t, s.threads.phase t with
    | some (a, c), .ended r => s.leave P t c.machine r a
    | _, _ => none

end ThreadedProgram

end RTM.Impl
