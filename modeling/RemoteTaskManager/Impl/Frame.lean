import RemoteTaskManager.Impl.WmiProcessTable

/-!
# `remote_task_management_frame.cpp`: a page

A page's table is read and changed by the GUI thread (the timer, the header
clicks, the popup menu) and by the task that runs `update_data`, without a
lock. `Page` is what they share and where each of them is; `Page.step` is one
atomic step of either. A `std::shared_ptr` to a vector is an index into
`vectors`, so that sorting through a copy of `m_data` sorts what `m_data`
holds only while it still points there.
-/

namespace RTM.Impl

/-- What `std::async` without a policy does with the task. -/
inductive Launch where
  | async
  | deferred
deriving DecidableEq, Repr

/-- Where `update_data` is: `none` while there is no future (`has_data` is
null), else in a step of the task, or ready. -/
inductive Update where
  | none
  | deferred
  | started
  | fetched (ptr : List WmiProcess)
  | readColumn (ptr : List WmiProcess) (col : BitVec 32)
  | sorted (ptr : List WmiProcess) (col : BitVec 32) (sortOrder : SortOrder)
  | returned
  | threw (e : Exn)
deriving DecidableEq, Repr

/-- Whether the task is running. -/
def Update.inFlight : Update → Bool
  | .started | .fetched _ | .readColumn .. | .sorted .. => true
  | _ => false

/-- Where the GUI thread's handler is. -/
inductive Handler where
  | idle
  | tookData (col : BitVec 32) (tmpData : Nat)
  | sortedData (col : BitVec 32) (sortOrder : SortOrder)
  | wroteColumn (col : BitVec 32) (sortOrder : SortOrder)
  | readPid (row : BitVec 32) (shown : WmiProcess) (pid : WString)
deriving DecidableEq, Repr

/-- `popup_data_t`, and the record that was painted in the row clicked. -/
structure Popup where
  pid : BitVec 32
  name : WString
  shown : WmiProcess
deriving DecidableEq, Repr

/-- A page: its table (`m_remote_host`, `m_data`, `sorted`), the task, the
timer, the grid and the popup menu. -/
structure Page where
  mRemoteHost : WString
  vectors : List (List WmiProcess)
  mData : Option Nat
  sorted : Sorted
  update : Update := .none
  /-- Whether the one-shot timer is armed. -/
  timer : Bool := true
  /-- Whether the grid has the table. -/
  attached : Bool := true
  /-- How many rows the grid displays. -/
  gridRows : Nat
  /-- The rows as painted last. -/
  painted : List WmiProcess
  handler : Handler := .idle
  popup : Option Popup := none
  /-- The popups whose `Close pid` was selected, the last one first. -/
  closed : List Popup := []
deriving DecidableEq, Repr

/-- A step of the GUI thread or of the task. -/
inductive Act where
  | tick (launch : Launch)
  | fetch (listing : List WmiProcess)
  | fetchThrows (e : Exn)
  | readColumn
  | sortNew
  | publish
  | takeData (col : BitVec 32)
  | sortData
  | writeColumn
  | writeSortOrder
  | rightClick (row : BitVec 32)
  | readName
  | selectClose
  | dismiss
deriving DecidableEq, Repr

def toUInt32 (P : Platform) (str : WString) : BitVec 32 := (P.toULong str).getD 0xDEADBEEF

namespace Page

/-- The rows `m_data` points to. -/
def rows (s : Page) : Option (List WmiProcess) := s.mData.bind fun p => s.vectors[p]?

/-- The table, as any thread sees it between two steps. -/
def table (s : Page) : WmiProcessTable := ⟨s.mRemoteHost, s.rows, s.sorted⟩

/-- The page that `add_page` makes of a table. -/
def ofTable (t : WmiProcessTable) : Page where
  mRemoteHost := t.mRemoteHost
  vectors := t.mData.toList
  mData := t.mData.map fun _ => 0
  sorted := t.sorted
  gridRows := t.getNumberRows.toNat
  painted := t.mData.getD []

/-- The handler of the timer, `grid_update_timer`. -/
def tick (launch : Launch) (s : Page) : Page :=
  match s.update with
  | .none =>
    -- Timer has expired and no data is under way
    { s with update := if launch = .async then .started else .deferred, timer := true }
  | .returned => { s with update := .none, painted := s.rows.getD [], timer := true }
  | .threw _ => { s with update := .none, attached := false, painted := [], timer := false }
  | _ => { s with timer := true }

def step (P : Platform) (s : Page) : Act → Option Page
  | .tick launch => if s.timer ∧ s.handler = .idle then some (s.tick launch) else none
  -- `update_data`
  | .fetch listing =>
    match s.update with
    | .started => some { s with update := .fetched listing }
    | _ => none
  | .fetchThrows e =>
    match s.update with
    | .started => some { s with update := .threw e }
    | _ => none
  | .readColumn =>
    match s.update with
    | .fetched ptr => some { s with update := .readColumn ptr s.sorted.column }
    | _ => none
  | .sortNew =>
    match s.update with
    | .readColumn ptr col =>
      match sortTableOnColumn P ptr col s.sorted.sortOrder with
      | .ok ptr => some { s with update := .sorted ptr col s.sorted.sortOrder }
      | _ => none
    | _ => none
  | .publish =>
    match s.update with
    | .sorted ptr _ _ =>
      some { s with vectors := s.vectors ++ [ptr], mData := some s.vectors.length, update := .returned }
    | _ => none
  -- `sort_column( col, Next )`, on a click on a header
  | .takeData col =>
    if s.handler = .idle ∧ s.attached then
      match s.mData with
      | none => some s
      | some tmpData => some { s with handler := .tookData col tmpData }
    else none
  | .sortData =>
    match s.handler with
    | .tookData col tmpData =>
      match s.vectors[tmpData]? with
      | some tbl =>
        match sortTableOnColumn P tbl col s.sorted.sortOrder.next with
        | .ok tbl => some { s with
            vectors := s.vectors.set tmpData tbl
            handler := .sortedData col s.sorted.sortOrder.next }
        | _ => none
      | none => none
    | _ => none
  | .writeColumn =>
    match s.handler with
    | .sortedData col sortOrder => some { s with
        sorted := { s.sorted with column := col }
        handler := .wroteColumn col sortOrder }
    | _ => none
  | .writeSortOrder =>
    match s.handler with
    | .wroteColumn _ sortOrder => some { s with
        sorted := { s.sorted with sortOrder := sortOrder }
        handler := .idle }
    | _ => none
  -- A right click on a row of the grid, and the popup menu
  | .rightClick row =>
    if s.handler = .idle ∧ s.attached ∧ row.toNat < s.gridRows then
      match s.painted[row.toNat]?, s.table.getValue row ColumnNumber.ProcessId.toInt with
      | some shown, .ok pid => some { s with handler := .readPid row shown pid }
      | _, _ => none
    else none
  | .readName =>
    match s.handler with
    | .readPid row shown pid =>
      match s.table.getValue row ColumnNumber.Name.toInt with
      | .ok name => some { s with popup := some ⟨toUInt32 P pid, name, shown⟩, handler := .idle }
      | _ => none
    | _ => none
  | .selectClose =>
    match s.popup with
    | some p => some { s with popup := none, closed := p :: s.closed }
    | none => none
  | .dismiss => some { s with popup := none }

end Page

end RTM.Impl
