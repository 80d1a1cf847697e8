import RemoteTaskManager.Impl.WmiImpl
import RemoteTaskManager.Impl.WmiProcess

/-!
# `wmi_process.cpp`

How a process is decoded from a record, how the processes of a machine are
listed, and how one is terminated.
-/

namespace RTM.Impl

/-! ## Properties -/

def getProperty (obj : ClassObject) (property : WString) : Outcome Exn Variant :=
  let (hr, v) := obj.get property
  if failed hr then .threw (.wmiError "Error retrieving property" hr) else .ok v

/-- The characters of a `wchar_t const *`, before the terminating null. -/
def cString (str : WString) : WString := str.takeWhile (· ≠ 0)

/-- What `get_wstring` visits a property with. -/
def wstringVisitors : Visitors WString where
  value
    | .bstr => some fun
      | some str => .ok (cString str)
      | none => .undefined
    | _ => none
  nullary := some (.ok [])

def getWstring (obj : ClassObject) (property : WString) : Outcome Exn WString := do
  variantVisit (← getProperty obj property) wstringVisitors

/-- The loop of `from_char_range`, in unsigned integers of `w` bits. -/
def fromCharRangeFrom (w : Nat) (result : BitVec w) : WString → BitVec w
  | [] => result
  | c :: s =>
    if isDigit c then fromCharRangeFrom w (result * 10 + BitVec.ofNat w (digitOf c)) s else result

def fromCharRange (w : Nat) (s : WString) : BitVec w := fromCharRangeFrom w 0 s

/-- The same loop by its pointers, offsets from the first character: `str` is the
memory there, and a read where it has no character is undefined. `none` is a
loop that has not ended after so many turns. -/
def fromCharRangeLoop (w : Nat) (str : Nat → Option WChar) (last : Nat) :
    Nat → Nat → BitVec w → Option (Outcome Exn (BitVec w))
  | 0, _, _ => none
  | turns + 1, first, result =>
    if first = last then some (.ok result) else
    match str first with
    | none => some .undefined
    | some c =>
      if isDigit c then
        fromCharRangeLoop w str last turns (first + 1) (result * 10 + BitVec.ofNat w (digitOf c))
      else some (.ok result)

/-- The characters of a `BSTR`, before its terminating null. -/
def bstrChars (str : Bstr) : Nat → Option WChar := fun i => (str.getD [])[i]?

/-- `unsigned_from_bstr`: the range of a null `BSTR` is empty. -/
def unsignedFromBstr (w : Nat) (str : Bstr) : BitVec w :=
  fromCharRange w ((str.getD []).take (sysStringLen str))

/-- What `get_integer<Integer>` visits a property with, for an unsigned
`Integer` of `w` bits. Of the two visitors of an integer the one of
`Integer &&` is called, with the value converted. -/
def integerVisitors (w : Nat) : Visitors (BitVec w) where
  value
    | .bstr => some fun str => .ok (unsignedFromBstr w str)
    | t => t.toUnsigned w
  nullary := some (.ok 0)

def getInteger (w : Nat) (obj : ClassObject) (property : WString) : Outcome Exn (BitVec w) := do
  variantVisit (← getProperty obj property) (integerVisitors w)

/-- `from_variant_date`. -/
def fromVariantDate (P : Platform) (varDte : Double) : Outcome Exn DateTime :=
  match P.variantTimeToSystemTime varDte with
  | none => .threw (.runtimeError "Error converting DATE to wxDateTime")
  | some st => .ok <| P.ofTm {
      tm_sec := st.wSecond.toNat
      tm_min := st.wMinute.toNat
      tm_hour := st.wHour.toNat
      tm_mday := st.wDay.toNat
      tm_mon := st.wMonth.toNat - 1
      tm_year := st.wYear.toNat - 1900
      tm_isdst := -1 }

/-- What `get_datetime` visits a property with. -/
def datetimeVisitors (P : Platform) : Visitors DateTime where
  value
    | .bstr => some fun str =>
      .ok ((P.parseFormat (cString (str.getD [])) (wide "%Y%m%d%H%M%S%Z")).getD P.now)
    | t => t.toDouble.map fun convert value => fromVariantDate P (convert value)

def getDatetime (P : Platform) (obj : ClassObject) (property : WString) : Outcome Exn DateTime := do
  variantVisit (← getProperty obj property) (datetimeVisitors P)

/-! ## Processes -/

def fromKilobytes {w : Nat} (kilobyteValue : BitVec w) : BitVec w := kilobyteValue * 1024

def makeWmiProcess (P : Platform) (record : ClassObject) : Outcome Exn WmiProcess := do
  let name ← getWstring record (wide "Name")
  let commandLine ← getWstring record (wide "CommandLine")
  let processId ← getInteger 32 record (wide "ProcessId")
  let parentProcessId ← getInteger 32 record (wide "ParentProcessId")
  let sessionId ← getInteger 32 record (wide "SessionId")
  let handle ← getWstring record (wide "Handle")
  let creationDate ← getDatetime P record (wide "CreationDate")
  let threadCount ← getInteger 32 record (wide "ThreadCount")
  let pageFaults ← getInteger 32 record (wide "PageFaults")
  let pageFileUsage ← getInteger 64 record (wide "PageFileUsage")
  let peakPageFileUsage ← getInteger 64 record (wide "PeakPageFileUsage")
  let workingSetSize ← getInteger 32 record (wide "WorkingSetSize")
  let peakWorkingSetSize ← getInteger 64 record (wide "PeakWorkingSetSize")
  let readTransferCount ← getInteger 64 record (wide "ReadTransferCount")
  let writeTransferCount ← getInteger 64 record (wide "WriteTransferCount")
  -- The operands of `=` are converted to `uint64_t`.
  return {
    name := ⟨name⟩
    commandLine := ⟨commandLine⟩
    processId := .ofUInt64 (processId.setWidth 64)
    parentProcessId := .ofUInt64 (parentProcessId.setWidth 64)
    sessionId := .ofUInt64 (sessionId.setWidth 64)
    handle := ⟨handle⟩
    creationDate := DateItem.assign P {} creationDate
    threadCount := .ofUInt64 (threadCount.setWidth 64)
    pageFaults := .ofUInt64 (pageFaults.setWidth 64)
    pageFileUsage := .ofUInt64 (fromKilobytes pageFileUsage)
    peakPageFileUsage := .ofUInt64 (fromKilobytes peakPageFileUsage)
    workingSetSize := .ofUInt64 (workingSetSize.setWidth 64)
    peakWorkingSetSize := .ofUInt64 (fromKilobytes peakWorkingSetSize)
    readTransferCount := .ofUInt64 readTransferCount
    writeTransferCount := .ofUInt64 writeTransferCount }

/-! ## Listings -/

/-- `transform` into a vector. -/
def transform {α : Type} (func : ClassObject → Outcome Exn α) : Enumeration → Outcome Exn (List α)
  | .done _ => .ok []
  | .next hr record rest =>
    match record with
    -- We have an error or no more records left
    | none => .ok []
    | some currentRecord =>
      if failed hr then .ok []
      else do
        let x ← func currentRecord
        return x :: (← transform func rest)

/-- The destructor of the enumerator that `query` returned. -/
def releaseEnumerator (o : Option Enumeration) (s : WmiStateT × Com) : WmiStateT × Com :=
  (s.1, releaseIf o.isSome .enumerator s.2)

/-- What `get_wmi_win32_process` does with its `wmi_state`. -/
def listProcesses (P : Platform) (M : Machine) (machine : WString) :
    ExecM (WmiStateT × Com) Exn (List WmiProcess) := do
  WmiStateT.connect M (wide "ROOT\\CIMV2") machine
  let enumerator ← WmiStateT.query M (wide "SELECT * FROM Win32_Process")
  ExecM.withLocal enumerator
    (ExecM.lift (match enumerator with
      | some enumeration => transform (makeWmiProcess P) enumeration
      | none => .ok []))
    releaseEnumerator

def getWmiWin32Process (P : Platform) (M : Machine) (machine : WString) :
    ComM (List WmiProcess) := do
  let wmiState ← WmiStateT.ctor M
  ExecM.withLocal wmiState (listProcesses P M machine) WmiStateT.dtor

/-! ## Termination -/

/-- What the methods that terminate a process return: of the service, and of the
objects it gives. -/
structure ClassMethods where
  getObject : WString → HRESULT
  getMethod : WString → HRESULT
  spawnInstance : HRESULT
  put : WString → BitVec 32 → HRESULT
  execMethod : WString → WString → HRESULT

/-- A call of a method through an interface pointer, undefined if it is null. -/
def callThrough (held : Bool) (c : ComCall) : ExecM (WmiStateT × Com) Exn Unit :=
  if held then ExecM.outer (ExecM.modify (·.log c)) else ExecM.lift .undefined

/-- What `terminate_process_by_where` does with its `wmi_state` once it is
connected. A call that fails leaves the pointer that it was to set null. -/
def execTerminate (R : ClassMethods) (whereClause : WString) :
    ExecM (WmiStateT × Com) Exn Unit := do
  let o ← ExecM.get
  let result := R.getObject (wide "Win32_Process")
  callThrough o.1.service (.getObject (wide "Win32_Process") result)
  let classObject := !failed result
  if failed result then
    return
  let result := R.getMethod (wide "Terminate")
  callThrough classObject (.getMethod (wide "Terminate") result)
  let inParamDef := !failed result
  if failed result then
    return
  let result := R.spawnInstance
  callThrough inParamDef (.spawnInstance result)
  let classInstance := !failed result
  -- What it and the next two calls return is not looked at.
  callThrough classInstance (.put (wide "Reason") 1 (R.put (wide "Reason") 1))
  let result := R.execMethod whereClause (wide "Terminate")
  callThrough o.1.service (.execMethod whereClause (wide "Terminate") result)

def terminateProcessByWhere (M : Machine) (R : ClassMethods) (machine whereClause : WString) :
    ComM Unit := do
  let wmiState ← WmiStateT.ctor M
  ExecM.withLocal wmiState
    (do
      WmiStateT.connect M (wide "ROOT\\CIMV2") machine
      execTerminate R whereClause)
    WmiStateT.dtor

/-- The path of a process. -/
def handlePath (pid : BitVec 32) : WString :=
  wide "Win32_Process.Handle=\"" ++ decimal pid.toNat ++ wide "\""

def terminateProcessByPid (M : Machine) (R : ClassMethods) (machine : WString) (pid : BitVec 32) :
    ComM Unit :=
  terminateProcessByWhere M R machine (handlePath pid)

end RTM.Impl
