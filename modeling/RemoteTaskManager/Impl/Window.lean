import RemoteTaskManager.Impl.Frame

/-!
# `remote_task_management_frame.cpp`: closing the frame

A page while its frame is open, and after. The grid owns the table
(`SetTable( tbl, true )`), the handler of the timer owns the future, and the
task has only the address of the table. Destroying the frame destroys the grid
first, and the handlers after it: the destructor of a future that
`std::async` made waits for its task.
-/

namespace RTM.Impl

/-- A step of the task. -/
def Act.ofUpdate : Act → Bool
  | .fetch _ | .fetchThrows _ | .readColumn | .sortNew | .publish => true
  | _ => false

/-- Which of a page's objects there are. -/
inductive Lifetime where
  | opened
  /-- The grid is destroyed, the handlers are not. -/
  | closing
  | destroyed
deriving DecidableEq, Repr

/-- A page, and whether its table is deleted. -/
structure Window where
  page : Page
  lifetime : Lifetime := .opened
  tableDeleted : Bool := false
deriving DecidableEq, Repr

inductive WindowAct where
  | page (a : Act)
  /-- The timer, where `ForceRefresh` throws. -/
  | refreshThrows
  /-- `Close( )`, on `wxID_EXIT` and otherwise. -/
  | close
  | destroyHandlers
deriving DecidableEq, Repr

namespace Window

def step (P : Platform) (w : Window) : WindowAct → Option Window
  | .page a =>
    match w.lifetime with
    | .opened => (w.page.step P a).map fun p =>
      -- `SetTable( nullptr )`: the grid deletes the table it had
      { w with page := p, tableDeleted := w.tableDeleted || !p.attached }
    | _ => if a.ofUpdate then (w.page.step P a).map fun p => { w with page := p } else none
  | .refreshThrows =>
    if w.lifetime = .opened ∧ w.page.timer ∧ w.page.handler = .idle ∧ w.page.update = .returned then
      some { w with
        page := { w.page with update := .none, attached := false, painted := [], timer := false }
        tableDeleted := true }
    else none
  | .close =>
    if w.lifetime = .opened ∧ w.page.handler = .idle then
      some { w with lifetime := .closing, tableDeleted := true }
    else none
  | .destroyHandlers =>
    if w.lifetime = .closing ∧ w.page.update.inFlight = false then
      some { w with lifetime := .destroyed }
    else none

end Window

end RTM.Impl
