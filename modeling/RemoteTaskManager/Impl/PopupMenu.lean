import RemoteTaskManager.Impl.Frame
import RemoteTaskManager.Impl.Win32Process

/-!
# `remote_task_management_frame.cpp`: the popup menu of a row

What a right click on a row makes of the table, as `Page.step` splits it into
steps, and what the selection of `Close pid` then does.
-/

namespace RTM.Impl

/-- `popup_data_t`. -/
structure PopupData where
  pid : BitVec 32
  name : WString
deriving DecidableEq, Repr

/-- The menu of a row: its client data, and its two items. -/
structure PopupMenu where
  clientData : PopupData
  closeByPid : WString
  closeByName : WString
deriving DecidableEq, Repr

/-- The handler of `wxEVT_GRID_CELL_RIGHT_CLICK`. -/
def onCellRightClick (P : Platform) (tbl : WmiProcessTable) (row : BitVec 32) :
    Outcome Exn PopupMenu := do
  let pid ← tbl.getValue row ColumnNumber.ProcessId.toInt
  let name ← tbl.getValue row ColumnNumber.Name.toInt
  return {
    clientData := ⟨toUInt32 P pid, name⟩
    closeByPid := wide "Close pid " ++ pid
    closeByName := wide "Close all " ++ name }

/-- The handler of `id_close_by_pid`, on a page of `host`. -/
def onCloseByPid (M : Machine) (R : ClassMethods) (host : WString) (menu : PopupMenu) : ComM Unit :=
  terminateProcessByPid M R host menu.clientData.pid

/-- A right click on a row, and the selection of `Close pid`. -/
def closePid (P : Platform) (M : Machine) (R : ClassMethods) (host : WString)
    (tbl : WmiProcessTable) (row : BitVec 32) : ComM Unit := do
  let menu ← ExecM.lift (onCellRightClick P tbl row)
  onCloseByPid M R host menu

end RTM.Impl
