import RemoteTaskManager.Impl.Frame

/-!
# `remote_task_management_frame.cpp`: the handler of the timer

`grid_update_timer` and the futures it makes, for one page. A task is known by
when it was made, and `has_data` is the task whose future it points to. What
the C++ library makes of the n-th `std::async` without a policy is `launch n`.
-/

namespace RTM.Impl

/-- Where a task is. -/
inductive Progress where
  | running
  | deferred
  | returned
  | threw
deriving DecidableEq, Repr

/-- `std::future_status`. -/
inductive FutureStatus where
  | ready
  | timeout
  | deferred
deriving DecidableEq, Repr

/-- A task that `std::async` has made, and how often `get( )` was called on its
future. -/
structure AsyncTask where
  progress : Progress
  gets : Nat := 0
deriving DecidableEq, Repr

namespace AsyncTask

/-- `std::async( [tbl]( ) { tbl->update_data( ); } )`. -/
def async : Launch → AsyncTask
  | .async => { progress := .running }
  | .deferred => { progress := .deferred }

/-- `wait_for( 0 )`, which does not run a deferred task. -/
def waitFor (task : AsyncTask) : FutureStatus :=
  match task.progress with
  | .running => .timeout
  | .deferred => .deferred
  | .returned | .threw => .ready

/-- `is_ready`. -/
def isReady (task : AsyncTask) : Bool := task.waitFor = .ready

/-- The task after `get( )`. -/
def get (task : AsyncTask) : AsyncTask := { task with gets := task.gets + 1 }

end AsyncTask

/-- The tasks made so far, what the handler holds, the timer and the grid. -/
structure GridUpdateTimer where
  tasks : List AsyncTask := []
  hasData : Option Nat := none
  /-- Whether the one-shot timer is armed. -/
  armed : Bool := true
  /-- Whether the grid has the table. -/
  attached : Bool := true
deriving DecidableEq, Repr

namespace GridUpdateTimer

/-- What can happen: the timer expires, where `refreshed` says whether
`ForceRefresh` returns, if it is called; or a running task ends. -/
inductive Event where
  | tick (refreshed : Bool)
  | returns (n : Nat)
  | throws (n : Nat)
deriving DecidableEq, Repr

/-- The handler of the timer, `grid_update_timer`. -/
def handle (launch : Launch) (refreshed : Bool) (s : GridUpdateTimer) : Option GridUpdateTimer :=
  match s.hasData with
  | none =>
    -- Timer has expired and no data is under way
    some { s with
      hasData := some s.tasks.length, tasks := s.tasks ++ [AsyncTask.async launch], armed := true }
  | some n => do
    let task ← s.tasks[n]?
    if !task.isReady then
      return { s with armed := true }
    else if task.progress = .returned ∧ refreshed then
      return { s with tasks := s.tasks.set n task.get, hasData := none, armed := true }
    else
      -- `get( )` or `ForceRefresh( )` has thrown
      return { s with
        tasks := s.tasks.set n task.get, hasData := none, attached := false, armed := false }

/-- A running task ends. -/
def finish (n : Nat) (progress : Progress) (s : GridUpdateTimer) : Option GridUpdateTimer := do
  let task ← s.tasks[n]?
  if task.progress = .running then
    return { s with tasks := s.tasks.set n { task with progress } }
  else
    none

def step (launch : Nat → Launch) (s : GridUpdateTimer) : Event → Option GridUpdateTimer
  | .tick refreshed =>
    -- A one-shot timer that has expired is not armed until it is started again
    if s.armed then { s with armed := false }.handle (launch s.tasks.length) refreshed else none
  | .returns n => s.finish n .returned
  | .throws n => s.finish n .threw

end GridUpdateTimer

end RTM.Impl
