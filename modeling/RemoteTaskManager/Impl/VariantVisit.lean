import RemoteTaskManager.Framework.Switch
import RemoteTaskManager.Impl.Platform

/-!
# `variant_visit.h`

A `VARIANT` by its tag, with the member of the union that the tag names
(`Variant`) or with all of them (`RawVariant`), and the visits of one, with a
result and without. `overload( visitors... )` is what it can be called with: for
each C++ type, the visitor that overload resolution selects, if one is viable
(`Visitors`).
-/

namespace RTM.Impl

/-- The types of the members of the union. -/
inductive CppType where
  | short
  | long
  | float
  | double
  | cy
  | bstr
  | dispatchPtr
  | variantPtr
  | unknownPtr
  | decimal
  | char
  | uchar
  | ushort
  | ulong
  | longlong
  | ulonglong
  | int
  | uint
  | voidPtr
  | safearrayPtr
deriving DecidableEq, Repr

/-- The values of a type. -/
def CppType.Val : CppType → Type
  | short | ushort => BitVec 16
  | long | ulong | int | uint => BitVec 32
  | float | double => Double
  | cy | longlong | ulonglong => BitVec 64
  | bstr => Bstr
  | char | uchar => BitVec 8
  | decimal => BitVec 128
  | dispatchPtr | variantPtr | unknownPtr | voidPtr | safearrayPtr => BitVec 64

/-- The implicit conversion to an unsigned type of `w` bits, of a type that has
one: modulo `2^w`, after the sign is extended; a floating point number out of
range is undefined. -/
def CppType.toUnsigned (w : Nat) : (t : CppType) → Option (t.Val → Outcome Exn (BitVec w))
  | short => some fun (v : BitVec 16) => .ok (v.signExtend w)
  | long | int => some fun (v : BitVec 32) => .ok (v.signExtend w)
  | longlong => some fun (v : BitVec 64) => .ok (v.signExtend w)
  | char => some fun (v : BitVec 8) => .ok (v.signExtend w)
  | uchar => some fun (v : BitVec 8) => .ok (v.setWidth w)
  | ushort => some fun (v : BitVec 16) => .ok (v.setWidth w)
  | ulong | uint => some fun (v : BitVec 32) => .ok (v.setWidth w)
  | ulonglong => some fun (v : BitVec 64) => .ok (v.setWidth w)
  | float | double => some fun (v : Double) =>
    match v.toUnsigned w with
    | some n => .ok n
    | none => .undefined
  | cy | bstr | dispatchPtr | variantPtr | unknownPtr | decimal | voidPtr | safearrayPtr => none

/-- The implicit conversion to `double`, of a type that has one. -/
def CppType.toDouble : (t : CppType) → Option (t.Val → Double)
  | short => some fun (v : BitVec 16) => .ofInt v.toInt
  | long | int => some fun (v : BitVec 32) => .ofInt v.toInt
  | longlong => some fun (v : BitVec 64) => .ofInt v.toInt
  | char => some fun (v : BitVec 8) => .ofInt v.toInt
  | uchar => some fun (v : BitVec 8) => .ofInt v.toNat
  | ushort => some fun (v : BitVec 16) => .ofInt v.toNat
  | ulong | uint => some fun (v : BitVec 32) => .ofInt v.toNat
  | ulonglong => some fun (v : BitVec 64) => .ofInt v.toNat
  | float | double => some fun (v : Double) => v
  | cy | bstr | dispatchPtr | variantPtr | unknownPtr | decimal | voidPtr | safearrayPtr => none

/-- A `VARIANT`; `other` has any tag that the switch does not list. -/
inductive Variant where
  | VT_EMPTY
  | VT_NULL
  | VT_I2 (iVal : CppType.short.Val)
  | VT_I4 (lVal : CppType.long.Val)
  | VT_R4 (fltVal : CppType.float.Val)
  | VT_R8 (dblVal : CppType.double.Val)
  | VT_CY (cyVal : CppType.cy.Val)
  | VT_DATE (date : CppType.double.Val)
  | VT_BSTR (bstrVal : CppType.bstr.Val)
  | VT_DISPATCH (pdispVal : CppType.dispatchPtr.Val)
  | VT_ERROR (scode : CppType.long.Val)
  | VT_BOOL (boolVal : CppType.short.Val)
  | VT_VARIANT (pvarVal : CppType.variantPtr.Val)
  | VT_UNKNOWN (punkVal : CppType.unknownPtr.Val)
  | VT_DECIMAL (decVal : CppType.decimal.Val)
  | VT_I1 (cVal : CppType.char.Val)
  | VT_UI1 (bVal : CppType.uchar.Val)
  | VT_UI2 (uiVal : CppType.ushort.Val)
  | VT_UI4 (ulVal : CppType.ulong.Val)
  | VT_I8 (llVal : CppType.longlong.Val)
  | VT_UI8 (ullVal : CppType.ulonglong.Val)
  | VT_INT (intVal : CppType.int.Val)
  | VT_UINT (uintVal : CppType.uint.Val)
  | VT_RECORD (pvRecord : CppType.voidPtr.Val)
  | VT_ARRAY (parray : CppType.safearrayPtr.Val)
  | other (vt : BitVec 16)

/-- What `overload( visitors... )` can be called with, for a result in `R`. -/
structure Visitors (R : Type) where
  /-- With a value of a type. -/
  value : (t : CppType) → Option (t.Val → Outcome Exn R) := fun _ => none
  /-- With a `null_value`. -/
  nullValue : Option (Outcome Exn R) := none
  /-- With nothing. -/
  nullary : Option (Outcome Exn R) := none

section

variable {R : Type}

def variantVisitorEmpty (v : Visitors R) : Outcome Exn R :=
  v.nullary.getD (.threw .badVariantAccess)

/-- Without a visitor of `null_value`, null is visited as empty is. -/
def variantVisitorNull (v : Visitors R) : Outcome Exn R :=
  v.nullValue.getD (v.nullary.getD (.threw .badVariantAccess))

def variantVisitor (t : CppType) (value : t.Val) (v : Visitors R) : Outcome Exn R :=
  match v.value t with
  | some visitor => visitor value
  | none => .threw .badVariantAccess

def variantVisit (var : Variant) (v : Visitors R) : Outcome Exn R :=
  match var with
  | .VT_EMPTY => variantVisitorEmpty v
  | .VT_NULL => variantVisitorNull v
  | .VT_I2 iVal => variantVisitor .short iVal v
  | .VT_I4 lVal => variantVisitor .long lVal v
  | .VT_R4 fltVal => variantVisitor .float fltVal v
  | .VT_R8 dblVal => variantVisitor .double dblVal v
  | .VT_CY cyVal => variantVisitor .cy cyVal v
  | .VT_DATE date => variantVisitor .double date v
  | .VT_BSTR bstrVal => variantVisitor .bstr bstrVal v
  | .VT_DISPATCH pdispVal => variantVisitor .dispatchPtr pdispVal v
  | .VT_ERROR scode => variantVisitor .long scode v
  | .VT_BOOL boolVal => variantVisitor .short boolVal v
  | .VT_VARIANT pvarVal => variantVisitor .variantPtr pvarVal v
  | .VT_UNKNOWN punkVal => variantVisitor .unknownPtr punkVal v
  | .VT_DECIMAL decVal => variantVisitor .decimal decVal v
  | .VT_I1 cVal => variantVisitor .char cVal v
  | .VT_UI1 bVal => variantVisitor .uchar bVal v
  | .VT_UI2 uiVal => variantVisitor .ushort uiVal v
  | .VT_UI4 ulVal => variantVisitor .ulong ulVal v
  | .VT_I8 llVal => variantVisitor .longlong llVal v
  | .VT_UI8 ullVal => variantVisitor .ulonglong ullVal v
  | .VT_INT intVal => variantVisitor .int intVal v
  | .VT_UINT uintVal => variantVisitor .uint uintVal v
  | .VT_RECORD pvRecord => variantVisitor .voidPtr pvRecord v
  | .VT_ARRAY parray => variantVisitor .safearrayPtr parray v
  -- Unknown Type
  | .other _ => .terminated

end

/-! ## Tags and members -/

/-- The tags that the switch lists, in the order of its cases. -/
inductive VarType where
  | VT_EMPTY
  | VT_NULL
  | VT_I2
  | VT_I4
  | VT_R4
  | VT_R8
  | VT_CY
  | VT_DATE
  | VT_BSTR
  | VT_DISPATCH
  | VT_ERROR
  | VT_BOOL
  | VT_VARIANT
  | VT_UNKNOWN
  | VT_DECIMAL
  | VT_I1
  | VT_UI1
  | VT_UI2
  | VT_UI4
  | VT_I8
  | VT_UI8
  | VT_INT
  | VT_UINT
  | VT_RECORD
  | VT_ARRAY
deriving DecidableEq, Repr

namespace VarType

def value : VarType → BitVec 16
  | VT_EMPTY => 0
  | VT_NULL => 1
  | VT_I2 => 2
  | VT_I4 => 3
  | VT_R4 => 4
  | VT_R8 => 5
  | VT_CY => 6
  | VT_DATE => 7
  | VT_BSTR => 8
  | VT_DISPATCH => 9
  | VT_ERROR => 10
  | VT_BOOL => 11
  | VT_VARIANT => 12
  | VT_UNKNOWN => 13
  | VT_DECIMAL => 14
  | VT_I1 => 16
  | VT_UI1 => 17
  | VT_UI2 => 18
  | VT_UI4 => 19
  | VT_I8 => 20
  | VT_UI8 => 21
  | VT_INT => 22
  | VT_UINT => 23
  | VT_RECORD => 36
  | VT_ARRAY => 0x2000

def all : List VarType :=
  [VT_EMPTY, VT_NULL, VT_I2, VT_I4, VT_R4, VT_R8, VT_CY, VT_DATE, VT_BSTR, VT_DISPATCH, VT_ERROR,
    VT_BOOL, VT_VARIANT, VT_UNKNOWN, VT_DECIMAL, VT_I1, VT_UI1, VT_UI2, VT_UI4, VT_I8, VT_UI8,
    VT_INT, VT_UINT, VT_RECORD, VT_ARRAY]

/-- The tag of a value, if the switch lists it. -/
def ofValue (vt : BitVec 16) : Option VarType := all.find? fun t => t.value = vt

end VarType

/-- A `VARIANT` as it is stored: any tag, and what a read of each member of the
union gives, whether or not it is the one that the tag names. -/
structure RawVariant where
  vt : BitVec 16
  iVal : CppType.short.Val
  lVal : CppType.long.Val
  fltVal : CppType.float.Val
  dblVal : CppType.double.Val
  cyVal : CppType.cy.Val
  date : CppType.double.Val
  bstrVal : CppType.bstr.Val
  pdispVal : CppType.dispatchPtr.Val
  scode : CppType.long.Val
  boolVal : CppType.short.Val
  pvarVal : CppType.variantPtr.Val
  punkVal : CppType.unknownPtr.Val
  decVal : CppType.decimal.Val
  cVal : CppType.char.Val
  bVal : CppType.uchar.Val
  uiVal : CppType.ushort.Val
  ulVal : CppType.ulong.Val
  llVal : CppType.longlong.Val
  ullVal : CppType.ulonglong.Val
  intVal : CppType.int.Val
  uintVal : CppType.uint.Val
  pvRecord : CppType.voidPtr.Val
  parray : CppType.safearrayPtr.Val

/-- The value: the member that the tag names. -/
def RawVariant.toVariant (var : RawVariant) : Variant :=
  match VarType.ofValue var.vt with
  | some .VT_EMPTY => .VT_EMPTY
  | some .VT_NULL => .VT_NULL
  | some .VT_I2 => .VT_I2 var.iVal
  | some .VT_I4 => .VT_I4 var.lVal
  | some .VT_R4 => .VT_R4 var.fltVal
  | some .VT_R8 => .VT_R8 var.dblVal
  | some .VT_CY => .VT_CY var.cyVal
  | some .VT_DATE => .VT_DATE var.date
  | some .VT_BSTR => .VT_BSTR var.bstrVal
  | some .VT_DISPATCH => .VT_DISPATCH var.pdispVal
  | some .VT_ERROR => .VT_ERROR var.scode
  | some .VT_BOOL => .VT_BOOL var.boolVal
  | some .VT_VARIANT => .VT_VARIANT var.pvarVal
  | some .VT_UNKNOWN => .VT_UNKNOWN var.punkVal
  | some .VT_DECIMAL => .VT_DECIMAL var.decVal
  | some .VT_I1 => .VT_I1 var.cVal
  | some .VT_UI1 => .VT_UI1 var.bVal
  | some .VT_UI2 => .VT_UI2 var.uiVal
  | some .VT_UI4 => .VT_UI4 var.ulVal
  | some .VT_I8 => .VT_I8 var.llVal
  | some .VT_UI8 => .VT_UI8 var.ullVal
  | some .VT_INT => .VT_INT var.intVal
  | some .VT_UINT => .VT_UINT var.uintVal
  | some .VT_RECORD => .VT_RECORD var.pvRecord
  | some .VT_ARRAY => .VT_ARRAY var.parray
  | none => .other var.vt

/-! ## Visitors with effects -/

/-- Visitors whose calls change a state `σ`. -/
structure VisitorSet (σ R : Type) where
  value : (t : CppType) → Option (t.Val → ExecM σ Exn R) := fun _ => none
  nullValue : Option (ExecM σ Exn R) := none
  nullary : Option (ExecM σ Exn R) := none

section

variable {σ R : Type}

/-- As visitors whose result is the change. -/
def VisitorSet.visitors (v : VisitorSet σ R) : Visitors (ExecM σ Exn R) where
  value t := (v.value t).map fun visitor val => .ok (visitor val)
  nullValue := v.nullValue.map .ok
  nullary := v.nullary.map .ok

/-- The change that is the result of a visit. -/
def perform (x : Outcome Exn (ExecM σ Exn R)) : ExecM σ Exn R := do
  (← ExecM.lift x)

/-- `variant_visit<R>`. -/
def variantVisitResult (var : RawVariant) (v : VisitorSet σ R) : ExecM σ Exn R :=
  perform (variantVisit var.toVariant v.visitors)

/-- The statement of each case of the void `variant_visit`. -/
def voidCase (var : RawVariant) (visitors : VisitorSet σ Unit) (t : VarType) : ExecM σ Exn Unit :=
  let v := visitors.visitors
  perform <| match t with
  | .VT_EMPTY => variantVisitorEmpty v
  | .VT_NULL => variantVisitorNull v
  | .VT_I2 => variantVisitor .short var.iVal v
  | .VT_I4 => variantVisitor .long var.lVal v
  | .VT_R4 => variantVisitor .float var.fltVal v
  | .VT_R8 => variantVisitor .double var.dblVal v
  | .VT_CY => variantVisitor .cy var.cyVal v
  | .VT_DATE => variantVisitor .double var.date v
  | .VT_BSTR => variantVisitor .bstr var.bstrVal v
  | .VT_DISPATCH => variantVisitor .dispatchPtr var.pdispVal v
  | .VT_ERROR => variantVisitor .long var.scode v
  | .VT_BOOL => variantVisitor .short var.boolVal v
  | .VT_VARIANT => variantVisitor .variantPtr var.pvarVal v
  | .VT_UNKNOWN => variantVisitor .unknownPtr var.punkVal v
  | .VT_DECIMAL => variantVisitor .decimal var.decVal v
  | .VT_I1 => variantVisitor .char var.cVal v
  | .VT_UI1 => variantVisitor .uchar var.bVal v
  | .VT_UI2 => variantVisitor .ushort var.uiVal v
  | .VT_UI4 => variantVisitor .ulong var.ulVal v
  | .VT_I8 => variantVisitor .longlong var.llVal v
  | .VT_UI8 => variantVisitor .ulonglong var.ullVal v
  | .VT_INT => variantVisitor .int var.intVal v
  | .VT_UINT => variantVisitor .uint var.uintVal v
  | .VT_RECORD => variantVisitor .voidPtr var.pvRecord v
  | .VT_ARRAY => variantVisitor .safearrayPtr var.parray v

/-- `variant_visit<void>`: no case ends with a `return` or a `break`, and the
default is an unknown type. -/
def variantVisitVoid (var : RawVariant) (v : VisitorSet σ Unit) : ExecM σ Exn Unit :=
  ExecM.fallThrough (VarType.all.map fun t => (t.value, voidCase var v t))
    (ExecM.lift .terminated) var.vt

end

end RTM.Impl
