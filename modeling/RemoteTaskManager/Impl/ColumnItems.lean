import RemoteTaskManager.Impl.Platform

/-!
# `column_items.h`, `column_items.cpp`

The four kinds of values a column shows, how two of one kind compare, and the
text each shows.
-/

namespace RTM.Impl

/-! ## Text of a memory size -/

/-- `std::fixed << std::setprecision( 2 ) << value`, for a number that is not
negative. -/
def fixed2 (value : Double) : WString :=
  let h := value.hundredths
  decimal (h / 100) ++ wide "." ++ (if h % 100 < 10 then wide "0" else []) ++ decimal (h % 100)

/-- Without its trailing characters `c`. -/
def dropTrailing (c : WChar) (s : WString) : WString := (s.reverse.dropWhile (· == c)).reverse

def to2DigitDec (value : Double) : WString :=
  let result := fixed2 value
  let result := if result.contains (wchar '.') then dropTrailing (wchar '0') result else result
  if result.getLast? = some (wchar '.') then result.dropLast else result

def memoryValueToWstring (value : BitVec 64) : WString :=
  if value.toNat < 1024 then decimal value.toNat ++ wide "B" else
  let val := (Double.ofInt value.toNat).div1024
  if val.lt1024 then decimal val.lround ++ wide "KB" else
  let val := val.div1024
  if val.lt1024 then to2DigitDec val ++ wide "MB" else
  let val := val.div1024
  if val.lt1024 then to2DigitDec val ++ wide "GB" else
  let val := val.div1024
  if val.lt1024 then to2DigitDec val ++ wide "TB" else
  let val := val.div1024
  if val.lt1024 then to2DigitDec val ++ wide "PB" else
  to2DigitDec val.div1024 ++ wide "EB"

/-! ## The items -/

/-- `Memory`. -/
structure MemoryItem where
  value : BitVec 64 := 0
  strValue : WString := []
deriving DecidableEq, Repr

/-- `Memory( uint64_t )`, and what `operator=( uint64_t )` leaves. -/
def MemoryItem.ofUInt64 (v : BitVec 64) : MemoryItem := ⟨v, memoryValueToWstring v⟩

/-- `Memory::operator=( uint64_t )`. -/
def MemoryItem.assign (x : MemoryItem) (v : BitVec 64) : MemoryItem :=
  { x with value := v, strValue := memoryValueToWstring v }

inductive DateFormats where
  | Combined
  | DateOnly
  | TimeOnly
deriving DecidableEq, Repr

/-- `Date`. -/
structure DateItem where
  value : DateTime := .invalid
  dateFormat : DateFormats := .Combined
  strValue : WString := []
deriving DecidableEq, Repr

def toDateString (P : Platform) (dateFormat : DateFormats) (value : DateTime) : WString :=
  match dateFormat with
  | .DateOnly => P.formatISODate value
  | .TimeOnly => P.formatTime value
  | .Combined => P.format value (wide "%Y-%m-%d %H:%M")

/-- `Date::operator=( wxDateTime )`. -/
def DateItem.assign (P : Platform) (d : DateItem) (v : DateTime) : DateItem :=
  { d with value := v, strValue := toDateString P d.dateFormat v }

/-- `Integer<T>`, for an unsigned `T` of `w` bits. -/
structure IntegerItem (w : Nat) where
  value : BitVec w := 0
  strValue : WString := []
deriving DecidableEq, Repr

/-- `Integer( uint64_t )`, and what `operator=( uint64_t )` leaves: `v` is
narrowed to `T`. -/
def IntegerItem.ofUInt64 {w : Nat} (v : BitVec 64) : IntegerItem w :=
  ⟨v.setWidth w, decimal (v.setWidth w).toNat⟩

/-- `Integer::operator=( uint64_t )`. -/
def IntegerItem.assign {w : Nat} (x : IntegerItem w) (v : BitVec 64) : IntegerItem w :=
  { x with value := v.setWidth w, strValue := decimal (v.setWidth w).toNat }

/-- `Integer<T>`, for a signed `T` of `w` bits. -/
structure SignedIntegerItem (w : Nat) where
  value : BitVec w := 0
  strValue : WString := []
deriving DecidableEq, Repr

namespace SignedIntegerItem

variable {w : Nat}

/-- `std::to_wstring` of a signed integer. -/
def toWstring (n : Int) : WString := if n < 0 then wide "-" ++ decimal n.natAbs else decimal n.toNat

/-- `Integer( uint64_t )`. -/
def ofUInt64 (v : BitVec 64) : SignedIntegerItem w :=
  ⟨v.setWidth w, toWstring (v.setWidth w).toInt⟩

/-- `Integer::operator=( uint64_t )`. -/
def assign (x : SignedIntegerItem w) (v : BitVec 64) : SignedIntegerItem w :=
  { x with value := v.setWidth w, strValue := toWstring (v.setWidth w).toInt }

end SignedIntegerItem

/-- `String`. -/
structure StringItem where
  value : WString := []
deriving DecidableEq, Repr

/-! ## Comparison -/

/-- The comparison of `Memory`, `Date` and `Integer<T>`: −1, 1 or 0. -/
def compareValues (a b : Int) : Int :=
  if a < b then -1 else if a > b then 1 else 0

def MemoryItem.compare (lhs rhs : MemoryItem) : Int :=
  compareValues lhs.value.toNat rhs.value.toNat

def DateItem.compare (lhs rhs : DateItem) : Int :=
  compareValues lhs.value.m_time rhs.value.m_time

def IntegerItem.compare {w w' : Nat} (lhs : IntegerItem w) (rhs : IntegerItem w') : Int :=
  compareValues lhs.value.toNat rhs.value.toNat

def SignedIntegerItem.compare {w : Nat} (lhs rhs : SignedIntegerItem w) : Int :=
  compareValues lhs.value.toInt rhs.value.toInt

/-- `_wcsnicmp`: the difference of the first two folded characters that
differ, of at most `n`; a terminating null ends both strings. -/
def wcsnicmp (towlower : WChar → WChar) : WString → WString → Nat → Int
  | _, _, 0 => 0
  | s, t, n + 1 =>
    let f := towlower (s.headD 0)
    let l := towlower (t.headD 0)
    if f ≠ 0 ∧ f = l then wcsnicmp towlower s.tail t.tail n else (f.toNat : Int) - l.toNat

def StringItem.compare (P : Platform) (lhs rhs : StringItem) : Int :=
  let rlen := min lhs.value.length rhs.value.length
  let result := wcsnicmp P.towlower lhs.value rhs.value rlen
  if result = 0 then
    if lhs.value.length < rlen then -1
    else if lhs.value.length > rlen then 1
    else result
  else result

/-- A `ColumnItem`, of one of the classes derived from it. -/
inductive ColumnItem where
  | memory (x : MemoryItem)
  | date (x : DateItem)
  | integer (w : Nat) (x : IntegerItem w)
  | string (x : StringItem)
deriving DecidableEq, Repr

namespace ColumnItem

/-- `compare`: the `dynamic_cast` of the right operand throws if it is of
another class. -/
def compare (P : Platform) : ColumnItem → ColumnItem → Outcome Exn Int
  | memory x, memory y => .ok (x.compare y)
  | date x, date y => .ok (x.compare y)
  | integer w x, integer w' y => if w = w' then .ok (x.compare y) else .threw .badCast
  | string x, string y => .ok (x.compare P y)
  | _, _ => .threw .badCast

/-- `to_string`. -/
def toString : ColumnItem → WString
  | memory x => x.strValue
  | date x => x.strValue
  | integer _ x => x.strValue
  | string x => x.value

/-- `operator<`. -/
def lt (P : Platform) (lhs rhs : ColumnItem) : Outcome Exn Bool := do
  return (← lhs.compare P rhs) < 0

/-- `operator<=`. -/
def le (P : Platform) (lhs rhs : ColumnItem) : Outcome Exn Bool := do
  return (← lhs.compare P rhs) ≤ 0

/-- `operator==`. -/
def eq (P : Platform) (lhs rhs : ColumnItem) : Outcome Exn Bool := do
  return (← lhs.compare P rhs) = 0

/-- `operator>`. -/
def gt (P : Platform) (lhs rhs : ColumnItem) : Outcome Exn Bool := do
  return (← lhs.compare P rhs) > 0

/-- `operator>=`. -/
def ge (P : Platform) (lhs rhs : ColumnItem) : Outcome Exn Bool := do
  return (← lhs.compare P rhs) ≥ 0

end ColumnItem

end RTM.Impl
