import RemoteTaskManager.Impl.VariantVisit

/-!
# `wmi_impl.h`, `wmi_impl.cpp`

The COM initialisation of a thread (`WmiStateCo`) and the connection to WMI
that owns one (`WmiStateT`). What the COM calls of an object's life return is a
`Machine`; what is kept of the calls is their sequence (`Com.calls`), and of an
interface pointer whether it is held.
-/

namespace RTM.Impl

/-- An `IWbemClassObject`: what `Get` gives for a property. -/
structure ClassObject where
  get : WString → HRESULT × Variant

/-- An `IEnumWbemClassObject`, by what the calls of `Next` give: a success or
failure and a record, if one is given, and from some call on no record. -/
inductive Enumeration where
  | done (hr : HRESULT)
  | next (hr : HRESULT) (record : Option ClassObject) (rest : Enumeration)

inductive Interface where
  | locator
  | service
  | enumerator
deriving DecidableEq, Repr

/-- A call of COM, and its result. -/
inductive ComCall where
  | coInitializeEx (hres : HRESULT)
  /-- `CoUninitialize`. -/
  | coUninit
  | coInitializeSecurity (hres : HRESULT)
  | coCreateInstance (hres : HRESULT)
  | connectServer (path : WString) (hres : HRESULT)
  | coSetProxyBlanket (hres : HRESULT)
  | execQuery (query : WString) (hres : HRESULT)
  | getObject (objectPath : WString) (hres : HRESULT)
  | getMethod (name : WString) (hres : HRESULT)
  | spawnInstance (hres : HRESULT)
  | put (name : WString) (val : BitVec 32) (hres : HRESULT)
  | execMethod (objectPath methodName : WString) (hres : HRESULT)
  | release (interface : Interface)
deriving DecidableEq, Repr

/-- What is left of earlier calls: the static `sec_res`, once it is
initialised, and the calls of the thread, the last one last. -/
structure Com where
  secRes : Option HRESULT := none
  calls : List ComCall := []
deriving DecidableEq, Repr

def Com.log (s : Com) (c : ComCall) : Com := { s with calls := s.calls ++ [c] }

abbrev ComM (α : Type) : Type := ExecM Com Exn α

/-- What the COM calls of an object's life return. -/
structure Machine where
  coInitializeEx : HRESULT
  coInitializeSecurity : HRESULT
  coCreateInstance : HRESULT
  connectServer : WString → HRESULT
  coSetProxyBlanket : HRESULT
  execQuery : WString → HRESULT × Option Enumeration

/-! ## `wmi_state_co` -/

structure WmiStateCo where
  hasInit : Bool := false
deriving DecidableEq, Repr

namespace WmiStateCo

def ctor (M : Machine) : ComM WmiStateCo := do
  ExecM.modify (·.log (.coInitializeEx M.coInitializeEx))
  if failed M.coInitializeEx then
    ExecM.throw (.wmiError "Failed to init COM library" M.coInitializeEx)
  else
    return { hasInit := true }

/-- `~wmi_state_co`. -/
def dtor (o : WmiStateCo) (s : Com) : Com := if o.hasInit then s.log .coUninit else s

/-- The defaulted copy and move constructors: the object built. The one it is
built from keeps its `has_init`. -/
def copy (o : WmiStateCo) : WmiStateCo := { hasInit := o.hasInit }

/-- The defaulted assignments: the object assigned to. -/
def assign (_ other : WmiStateCo) : WmiStateCo := { hasInit := other.hasInit }

end WmiStateCo

/-! ## `wmi_state_t` -/

/-- `wmi_state_t`: whether it holds the interfaces, and its `init`. -/
structure WmiStateT where
  locator : Bool := false
  service : Bool := false
  init : WmiStateCo
deriving DecidableEq, Repr

/-- The destructor of a `CComPtr`. -/
def releaseIf (held : Bool) (i : Interface) (s : Com) : Com :=
  if held then s.log (.release i) else s

namespace WmiStateT

/-- `~wmi_state_t`: the members, the last declared first. -/
def dtor (o : WmiStateT) (s : Com) : Com :=
  releaseIf o.locator .locator (releaseIf o.service .service (o.init.dtor s))

/-- The defaulted move constructor: the object built, and the one it is built
from. -/
def move (o : WmiStateT) : WmiStateT × WmiStateT :=
  ({ o with init := o.init.copy }, { o with locator := false, service := false })

/-- The defaulted move assignment from another object: the object assigned to,
the other, and the release of what the first held. -/
def moveAssign (o other : WmiStateT) (s : Com) : WmiStateT × WmiStateT × Com :=
  ({ other with init := o.init.assign other.init }, { other with locator := false, service := false },
    releaseIf o.service .service (releaseIf o.locator .locator s))

/-- The initialisation of `sec_res`: an exception leaves it to the next call. -/
def secRes (M : Machine) : ComM Unit := do
  let s ← ExecM.get
  if s.secRes = none then
    -- Can only be called once per process
    ExecM.modify (·.log (.coInitializeSecurity M.coInitializeSecurity))
    if failed M.coInitializeSecurity then
      ExecM.throw (.wmiError "Failed to initialize security" M.coInitializeSecurity)
    else
      ExecM.modify fun s => { s with secRes := some M.coInitializeSecurity }

/-- The body of the constructor. -/
def ctorBody (M : Machine) : ExecM (WmiStateT × Com) Exn Unit := do
  ExecM.outer (secRes M)
  ExecM.outer (ExecM.modify (·.log (.coCreateInstance M.coCreateInstance)))
  if failed M.coCreateInstance then
    ExecM.outer (ExecM.modify (·.log .coUninit))
    ExecM.throw (.wmiError "Failed to create IWbemLocator object" M.coCreateInstance)
  else
    ExecM.modifyLocal fun o => { o with locator := true }

def ctor (M : Machine) : ComM WmiStateT := do
  let init ← WmiStateCo.ctor M
  ExecM.construct { init := init } (ctorBody M) dtor

def setProxyBlanket (M : Machine) : ExecM (WmiStateT × Com) Exn Unit := do
  ExecM.outer (ExecM.modify (·.log (.coSetProxyBlanket M.coSetProxyBlanket)))
  if failed M.coSetProxyBlanket then
    ExecM.throw (.wmiError "Could not set proxy blanket" M.coSetProxyBlanket)

/-- The path that `connect` connects to. -/
def serverPath (path machine : WString) : WString :=
  if machine = [] then path else wide "\\\\" ++ machine ++ wide "\\" ++ path

def connect (M : Machine) (path machine : WString) : ExecM (WmiStateT × Com) Exn Unit := do
  let o ← ExecM.get
  if o.1.locator = false then
    ExecM.lift .undefined
  else
    let result := M.connectServer (serverPath path machine)
    ExecM.outer (ExecM.modify (·.log (.connectServer (serverPath path machine) result)))
    if failed result then
      ExecM.throw (.wmiError "Could not connect" result)
    else
      ExecM.modifyLocal fun o => { o with service := true }
      setProxyBlanket M

def query (M : Machine) (queryStr : WString) :
    ExecM (WmiStateT × Com) Exn (Option Enumeration) := do
  let o ← ExecM.get
  if o.1.service = false then
    ExecM.lift .undefined
  else
    let (hres, result) := M.execQuery queryStr
    ExecM.outer (ExecM.modify (·.log (.execQuery queryStr hres)))
    if failed hres then
      ExecM.throw (.wmiError "Query for Win32_Process failed" hres)
    else
      return result

end WmiStateT

end RTM.Impl
