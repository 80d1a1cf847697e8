import RemoteTaskManager.Impl.Program

/-!
# `remote_task_management_frame.cpp`: how long the timers wait

The delays, in milliseconds, that `add_page` and the handler of the timer give to
`StartOnce`, and the program with what the timer of one of its pages has waited.
A timer does not expire early, and may expire late.
-/

namespace RTM.Impl

/-- `tmr->StartOnce( 2500 )` of `add_page`. -/
def firstDelay : Nat := 2500

/-- The delay with which the handler of the timer starts it again, if it does. -/
def Page.startOnce (s : Page) : Option Nat :=
  match s.update with
  | .none => some 500
  | .returned => some 1700
  | .threw _ => none
  | _ => some 250

/-- The program, and of a page: the delay that its timer was started with last,
what the timer has waited since the page was added, and how often its task has
called `get_wmi_win32_process`. -/
structure TimedProgram where
  program : Program := {}
  delay : Nat := firstDelay
  waited : Nat := 0
  fetched : Nat := 0
deriving DecidableEq, Repr

namespace TimedProgram

/-- After a step to `program`, with a timer that expires `late`. -/
def after (i : Nat) (s : TimedProgram) (late : Nat) (program : Program) :
    ProgramAct → TimedProgram
  | .page j (.tick _) =>
    if j = i then { s with
      program
      delay := ((s.program.frame.mNotebook[i]?).bind (·.page.startOnce)).getD s.delay
      waited := s.waited + (s.delay + late) }
    else { s with program }
  | .fetch j _ => { s with program, fetched := if j = i then s.fetched + 1 else s.fetched }
  | _ => { s with program }

/-- A step of the program; `i` is the page. -/
def step (P : Platform) (i : Nat) (s : TimedProgram) : ProgramAct × Nat → Option TimedProgram
  | (a, late) => (s.program.step P a).map fun program => s.after i late program a

end TimedProgram

end RTM.Impl
