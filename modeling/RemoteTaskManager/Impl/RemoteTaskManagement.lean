import RemoteTaskManager.Impl.Frame

/-!
# `remote_task_management.cpp`, `remote_task_management_frame.cpp`: the pages

How pages are added: one for each host of the command line, and later one for
each host of an `Open Remote` dialog. Every call of `add_page` connects anew,
so it has a `fetch` of its own.
-/

namespace RTM.Impl

/-- A page of the notebook: its label, and the host that its handlers know. -/
structure NotebookPage where
  host : WString
  title : WString
  page : Page
deriving DecidableEq, Repr

/-- The notebook of the frame, and the message boxes shown. -/
structure RemoteTaskManagementFrame where
  mNotebook : List NotebookPage := []
  messages : List WString := []
deriving DecidableEq, Repr

def wxID_OK : BitVec 32 := 5100

def wxID_CANCEL : BitVec 32 := 5101

/-- A `wxTextEntryDialog`: whether it is confirmed, and what `GetValue` gives
after that. -/
structure TextEntryDialog where
  confirmed : Bool
  value : WString
  /-- What a connection made then gives. -/
  fetch : Fetch

def TextEntryDialog.showModal (dlg : TextEntryDialog) : BitVec 32 :=
  if dlg.confirmed then wxID_OK else wxID_CANCEL

/-- `remote_task_management_app::OnCmdLineParsed`. -/
def onCmdLineParsed (params mRemoteHosts : List WString) : List WString :=
  params.foldl (fun hosts param => hosts ++ [param]) mRemoteHosts

namespace RemoteTaskManagementFrame

/-- The page that `add_page` makes of a host. -/
def makePage (P : Platform) (fetch : Fetch) (host : WString) : Outcome Exn NotebookPage := do
  let tbl ← WmiProcessTable.ofHost fetch host
  let tbl ← ExecM.on tbl (WmiProcessTable.sortColumn P ColumnNumber.CreationDate.toInt .Next)
  let title := if host = wide "." then wide "local machine" else host
  return { host, title, page := Page.ofTable tbl }

def addPage (P : Platform) (fetch : Fetch) (host : WString) :
    ExecM RemoteTaskManagementFrame Exn Unit :=
  ExecM.tryCatch
    (do
      let page ← ExecM.lift (makePage P fetch host)
      ExecM.modify fun s => { s with mNotebook := s.mNotebook ++ [page] })
    (ExecM.modify fun s => { s with messages := s.messages ++ [wide "Error connecting to " ++ host] })

/-- `for( auto const &host : connect_to ) add_page( host )`. -/
def addPages (P : Platform) : List (WString × Fetch) → ExecM RemoteTaskManagementFrame Exn Unit
  | [] => return
  | (host, fetch) :: connectTo => do
    addPage P fetch host
    addPages P connectTo

/-- The constructor; `fetch n` is what its n-th connection gives. -/
def construct (P : Platform) (fetch : Nat → Fetch) (connectTo : List WString) :
    ExecM RemoteTaskManagementFrame Exn Unit := do
  -- Add hosts
  if connectTo.isEmpty then
    addPage P (fetch 0) (wide ".")
  addPages P (connectTo.zipIdx.map fun host => (host.1, fetch host.2))

/-- The handler of `id_open_remote`. -/
def openRemote (P : Platform) (dlg : TextEntryDialog) : ExecM RemoteTaskManagementFrame Exn Unit :=
  if dlg.showModal ≠ 0 then addPage P dlg.fetch dlg.value else return

def openRemotes (P : Platform) : List TextEntryDialog → ExecM RemoteTaskManagementFrame Exn Unit
  | [] => return
  | dlg :: dlgs => do
    openRemote P dlg
    openRemotes P dlgs

/-- The program, on a command line and the dialogs that follow. -/
def session (P : Platform) (fetch : Nat → Fetch) (params : List WString)
    (dlgs : List TextEntryDialog) : ExecM RemoteTaskManagementFrame Exn Unit := do
  construct P fetch (onCmdLineParsed params [])
  openRemotes P dlgs

end RemoteTaskManagementFrame

end RTM.Impl
