import RemoteTaskManager.Framework.StableSort
import RemoteTaskManager.Impl.WmiProcess

/-!
# `wmi_process_table.h`, `wmi_process_table.cpp`

The table behind a page's grid, as the only owner of its data. What
`get_wmi_win32_process` gives for a host is the parameter `fetch`.
-/

namespace RTM.Impl

inductive SortOrder where
  | Next
  | Ascending
  | Descending
deriving DecidableEq, Repr

/-- `sorted_t`. -/
structure Sorted where
  column : BitVec 32 := -1
  sortOrder : SortOrder := .Descending
deriving DecidableEq, Repr

/-- `wmi_process_table`; `mData` is `none` where `m_data` is null. -/
structure WmiProcessTable where
  mRemoteHost : WString := []
  mData : Option (List WmiProcess)
  sorted : Sorted := {}
deriving DecidableEq, Repr

/-- What `get_wmi_win32_process` gives for each host. -/
abbrev Fetch : Type := WString → Outcome Exn (List WmiProcess)

/-- `lhs[col] < rhs[col]`. -/
def lessOn (P : Platform) (col : BitVec 32) (lhs rhs : WmiProcess) : Outcome Exn Bool := do
  (← lhs.indexInt col).lt P (← rhs.indexInt col)

/-- `lhs[col] > rhs[col]`. -/
def greaterOn (P : Platform) (col : BitVec 32) (lhs rhs : WmiProcess) : Outcome Exn Bool := do
  (← lhs.indexInt col).gt P (← rhs.indexInt col)

def sortTableOnColumn (P : Platform) (tbl : List WmiProcess) (col : BitVec 32)
    (sortOrder : SortOrder) : Outcome Exn (List WmiProcess) :=
  if sortOrder = .Ascending then stableSort (lessOn P col) tbl else stableSort (greaterOn P col) tbl

/-- The order that `SortOrder::Next` asks for. -/
def SortOrder.next : SortOrder → SortOrder
  | .Ascending => .Descending
  | _ => .Ascending

namespace WmiProcessTable

/-- `wmi_process_table( wxString )`. -/
def ofHost (fetch : WString → Outcome Exn (List WmiProcess)) (remoteHost : WString) :
    Outcome Exn WmiProcessTable := do
  return { mRemoteHost := remoteHost, mData := some (← fetch remoteHost) }

/-- `wmi_process_table( std::shared_ptr<table_data_t> )`. -/
def ofPtr (data : Option (List WmiProcess)) : WmiProcessTable := { mData := data }

/-- `wmi_process_table( table_data_t )`, copied or moved. -/
def ofData (data : List WmiProcess) : WmiProcessTable := { mData := some data }

def getNumberRows (t : WmiProcessTable) : BitVec 32 :=
  match t.mData with
  | none => 0
  | some tmpData => BitVec.ofNat 32 tmpData.length

def getNumberCols (t : WmiProcessTable) : BitVec 32 :=
  match t.mData with
  | none => 0
  | some _ => BitVec.ofNat 32 WmiProcess.columnNames.length

/-- `GetColLabelValue`: it does not look at the data. -/
def getColLabelValue (_ : WmiProcessTable) (col : BitVec 32) : Outcome Exn WString :=
  match WmiProcess.columnNames[(col.signExtend 64).toNat]? with
  | some label => .ok label
  | none => .undefined

/-- `GetValue`: `row` is converted to `size_t` before it is compared. -/
def getValue (t : WmiProcessTable) (row col : BitVec 32) : Outcome Exn WString :=
  match t.mData with
  | none => .undefined
  | some tmpData =>
    match tmpData[(row.signExtend 64).toNat]? with
    | some record => do return (← record.indexInt col).toString
    | none => .ok []

/-- `sort_column`: it sorts for `SortOrder::Next` only. -/
def sortColumn (P : Platform) (col : BitVec 32) (sortOrder : SortOrder) :
    ExecM WmiProcessTable Exn Unit := do
  let t ← ExecM.get
  match t.mData with
  | none => return
  | some tmpData =>
    if sortOrder = .Next then
      let sortOrder := t.sorted.sortOrder.next
      let tmpData ← ExecM.lift (sortTableOnColumn P tmpData col sortOrder)
      ExecM.modify fun t => { t with mData := some tmpData, sorted := ⟨col, sortOrder⟩ }

def updateData (P : Platform) (fetch : WString → Outcome Exn (List WmiProcess)) :
    ExecM WmiProcessTable Exn Unit := do
  let t ← ExecM.get
  let ptr ← ExecM.lift (fetch t.mRemoteHost)
  let ptr ← ExecM.lift (sortTableOnColumn P ptr t.sorted.column t.sorted.sortOrder)
  ExecM.modify fun t => { t with mData := some ptr }

def changeHost (P : Platform) (fetch : WString → Outcome Exn (List WmiProcess))
    (remoteHost : WString) : ExecM WmiProcessTable Exn Unit := do
  ExecM.modify fun t => { t with mRemoteHost := remoteHost }
  updateData P fetch

end WmiProcessTable

end RTM.Impl
