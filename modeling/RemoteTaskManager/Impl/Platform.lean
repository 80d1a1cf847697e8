import RemoteTaskManager.Framework.Double
import RemoteTaskManager.Framework.Outcome
import RemoteTaskManager.Framework.WideText

/-!
# What the code takes from outside

The values exchanged with Windows and wxWidgets (`HRESULT`, `BSTR`,
`SYSTEMTIME`, `wxDateTime`), the exceptions thrown, and the functions of
either that the code calls and whose result it uses (`Platform`): everything
else is defined after the source.
-/

namespace RTM.Impl

/-- `HRESULT`, and `long` error codes. -/
abbrev HRESULT : Type := BitVec 32

/-- `FAILED( hr )`: the sign bit. -/
def failed (hr : HRESULT) : Bool := hr.msb

def S_OK : HRESULT := 0

/-- A `BSTR`: null, or a counted string. -/
abbrev Bstr : Type := Option WString

def sysStringLen : Bstr → Nat
  | none => 0
  | some s => s.length

/-- `wxDateTime`, by the instant it holds. -/
structure DateTime where
  m_time : Int
deriving DecidableEq, Repr

/-- A default constructed `wxDateTime`. -/
def DateTime.invalid : DateTime := ⟨-2 ^ 63⟩

/-- The fields of `SYSTEMTIME` that are read. -/
structure SystemTime where
  wYear : BitVec 16
  wMonth : BitVec 16
  wDay : BitVec 16
  wHour : BitVec 16
  wMinute : BitVec 16
  wSecond : BitVec 16
deriving DecidableEq, Repr

/-- The fields of `std::tm` that are set. -/
structure Tm where
  tm_sec : Int
  tm_min : Int
  tm_hour : Int
  tm_mday : Int
  tm_mon : Int
  tm_year : Int
  tm_isdst : Int
deriving DecidableEq, Repr

/-- The exceptions. -/
inductive Exn where
  /-- `wmi_error_t`. -/
  | wmiError (msg : String) (code : HRESULT)
  | badVariantAccess
  | badCast
  | runtimeError (msg : String)
deriving DecidableEq, Repr

/-- The functions of the C runtime's locale, of wxWidgets and of OLE
Automation that the code calls. -/
structure Platform where
  /-- `towlower`, by which `_wcsnicmp` folds case. -/
  towlower : WChar → WChar
  /-- `wxDateTime::Now`. -/
  now : DateTime
  /-- `wxDateTime::ParseFormat` of a string and a format. -/
  parseFormat : WString → WString → Option DateTime
  /-- `wxDateTime( tm )`. -/
  ofTm : Tm → DateTime
  formatISODate : DateTime → WString
  formatTime : DateTime → WString
  /-- `wxDateTime::Format`. -/
  format : DateTime → WString → WString
  /-- `VariantTimeToSystemTime`; `none` where it returns `FALSE`. -/
  variantTimeToSystemTime : Double → Option SystemTime
  /-- `wxString::ToULong`; `none` where it returns `false`. -/
  toULong : WString → Option (BitVec 32)

/-- `towlower` in the C locale. -/
def asciiTolower (c : WChar) : WChar := if 65 ≤ c.toNat ∧ c.toNat ≤ 90 then c + 32 else c

/-- A number that fills the text and fits an `unsigned long`. -/
def readULong (s : WString) : Option (BitVec 32) :=
  if s ≠ [] ∧ s.all isDigit ∧ decimalValue s < 2 ^ 32 then some (BitVec.ofNat 32 (decimalValue s))
  else none

/-- The C locale, on a machine that reads and shows no dates and whose clock
stands still. -/
def Platform.ascii : Platform where
  towlower := asciiTolower
  now := ⟨0⟩
  parseFormat _ _ := none
  ofTm _ := .invalid
  formatISODate _ := []
  formatTime _ := []
  format _ _ := []
  variantTimeToSystemTime _ := none
  toULong := readULong

end RTM.Impl
