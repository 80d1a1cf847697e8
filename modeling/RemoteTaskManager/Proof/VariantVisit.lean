import RemoteTaskManager.Impl.Win32Process
import RemoteTaskManager.Proof.ComOrder

/-!
# The visits of a `VARIANT`

A visit selects a visitor by the value's payload: the member that the tag names
(`variantVisit_eq`). `variant_visit<R>` makes that one call. The cases of
`variant_visit<void>` do not end, so that a visitor that returns is followed by
those of the other members and by `std::terminate`: it agrees with the other
exactly as long as the visitor selected does not return (`void_agrees_iff`).
-/

namespace RTM.Proof.VariantVisit

open RTM.Impl

/-! ## The visitor selected -/

/-- What the tag of a value names. -/
inductive Payload where
  | empty
  | null
  | member (t : CppType) (val : t.Val)
  | unlisted

def payload : Variant → Payload
  | .VT_EMPTY => .empty
  | .VT_NULL => .null
  | .VT_I2 iVal => .member .short iVal
  | .VT_I4 lVal => .member .long lVal
  | .VT_R4 fltVal => .member .float fltVal
  | .VT_R8 dblVal => .member .double dblVal
  | .VT_CY cyVal => .member .cy cyVal
  | .VT_DATE date => .member .double date
  | .VT_BSTR bstrVal => .member .bstr bstrVal
  | .VT_DISPATCH pdispVal => .member .dispatchPtr pdispVal
  | .VT_ERROR scode => .member .long scode
  | .VT_BOOL boolVal => .member .short boolVal
  | .VT_VARIANT pvarVal => .member .variantPtr pvarVal
  | .VT_UNKNOWN punkVal => .member .unknownPtr punkVal
  | .VT_DECIMAL decVal => .member .decimal decVal
  | .VT_I1 cVal => .member .char cVal
  | .VT_UI1 bVal => .member .uchar bVal
  | .VT_UI2 uiVal => .member .ushort uiVal
  | .VT_UI4 ulVal => .member .ulong ulVal
  | .VT_I8 llVal => .member .longlong llVal
  | .VT_UI8 ullVal => .member .ulonglong ullVal
  | .VT_INT intVal => .member .int intVal
  | .VT_UINT uintVal => .member .uint uintVal
  | .VT_RECORD pvRecord => .member .voidPtr pvRecord
  | .VT_ARRAY parray => .member .safearrayPtr parray
  | .other _ => .unlisted

/-- A call of a visitor. -/
inductive VisitorCall where
  | nullary
  | nullValue
  | value (t : CppType) (val : t.Val)

section

variable {R S : Type}

/-- The visitor selected for a payload, called: without one of `null_value`, null
is visited as empty is. -/
def selected (v : Visitors R) : Payload → Option (VisitorCall × Outcome Exn R)
  | .empty => v.nullary.map (.nullary, ·)
  | .null => (v.nullValue.map (.nullValue, ·)).or (v.nullary.map (.nullary, ·))
  | .member t val => (v.value t).map fun visitor => (.value t val, visitor val)
  | .unlisted => none

/-- A visit calls the visitor selected, and throws if there is none. -/
theorem variantVisit_eq (var : Variant) (v : Visitors R) (h : payload var ≠ .unlisted) :
    variantVisit var v = ((selected v (payload var)).map Prod.snd).getD (.threw .badVariantAccess) := by
  cases var with
  | VT_EMPTY =>
    show v.nullary.getD _ = _
    cases hn : v.nullary <;> simp [selected, payload, hn]
  | VT_NULL =>
    show v.nullValue.getD (v.nullary.getD _) = _
    cases hv : v.nullValue <;> cases hn : v.nullary <;> simp [selected, payload, hv, hn]
  | other vt => exact absurd rfl h
  | _ =>
    rw [variantVisit, variantVisitor]
    simp only [selected, payload]
    split <;> rename_i hv <;> rw [hv] <;> rfl

end

/-! ## Visitors with effects -/

section

variable {σ τ R : Type}

/-- A call whose result is left aside. -/
def ignore (x : ExecM σ Exn R) : ExecM σ Exn Unit := do
  let _ ← x
  return

/-- Visitors whose results are left aside. -/
def discard (v : VisitorSet σ R) : VisitorSet σ Unit where
  value t := (v.value t).map fun visitor val => ignore (visitor val)
  nullValue := v.nullValue.map ignore
  nullary := v.nullary.map ignore

/-- A call that is noted before it is made. -/
def record (c : VisitorCall) (x : ExecM τ Exn R) : ExecM (List VisitorCall × τ) Exn R := do
  ExecM.modifyLocal (· ++ [c])
  ExecM.outer x

/-- Visitors whose calls are noted. -/
def recorded (v : VisitorSet τ R) : VisitorSet (List VisitorCall × τ) R where
  value t := (v.value t).map fun visitor val => record (.value t val) (visitor val)
  nullValue := v.nullValue.map (record .nullValue)
  nullary := v.nullary.map (record .nullary)

/-- The call that a payload leads to. -/
def callOf (v : VisitorSet σ R) : Payload → Option (VisitorCall × ExecM σ Exn R)
  | .empty => v.nullary.map (.nullary, ·)
  | .null => (v.nullValue.map (.nullValue, ·)).or (v.nullary.map (.nullary, ·))
  | .member t val => (v.value t).map fun visitor => (.value t val, visitor val)
  | .unlisted => none

theorem selected_visitors (v : VisitorSet σ R) (p : Payload) :
    selected v.visitors p = (callOf v p).map fun c => (c.1, .ok c.2) := by
  cases p with
  | empty => simp [selected, callOf, VisitorSet.visitors, Function.comp_def]
  | null =>
    cases hv : v.nullValue <;> cases hn : v.nullary <;>
      simp [selected, callOf, VisitorSet.visitors, hv, hn]
  | member t val => cases hv : v.value t <;> simp [selected, callOf, VisitorSet.visitors, hv]
  | unlisted => rfl

theorem callOf_recorded (v : VisitorSet τ R) (p : Payload) :
    callOf (recorded v) p = (callOf v p).map fun c => (c.1, record c.1 c.2) := by
  cases p with
  | empty => simp [callOf, recorded, Function.comp_def]
  | null => cases hv : v.nullValue <;> cases hn : v.nullary <;> simp [callOf, recorded, hv, hn]
  | member t val => cases hv : v.value t <;> simp [callOf, recorded, hv]
  | unlisted => rfl

theorem callOf_discard (v : VisitorSet σ R) (p : Payload) :
    callOf (discard v) p = (callOf v p).map fun c => (c.1, ignore c.2) := by
  cases p with
  | empty => simp [callOf, discard, Function.comp_def]
  | null => cases hv : v.nullValue <;> cases hn : v.nullary <;> simp [callOf, discard, hv, hn]
  | member t val => cases hv : v.value t <;> simp [callOf, discard, hv]
  | unlisted => rfl

/-! ## Tags -/

variable {var : RawVariant} {tag : VarType}

theorem ofValue_value (tag : VarType) : VarType.ofValue tag.value = some tag := by
  cases tag <;> rfl

theorem payload_ne_unlisted (h : var.vt = tag.value) : payload var.toVariant ≠ .unlisted := by
  rw [RawVariant.toVariant, h, ofValue_value]
  cases tag <;> exact nofun

/-- `variant_visit<R>` makes the call, or throws if there is none. -/
theorem variantVisitResult_eq (h : var.vt = tag.value) (v : VisitorSet σ R) :
    variantVisitResult var v = match callOf v (payload var.toVariant) with
      | some c => c.2
      | none => ExecM.throw .badVariantAccess := by
  rw [variantVisitResult, variantVisit_eq _ _ (payload_ne_unlisted h), selected_visitors]
  cases callOf v (payload var.toVariant) <;> rfl

/-- The statement of the tag's case is the visit with a result. -/
theorem voidCase_eq (h : var.vt = tag.value) (v : VisitorSet σ Unit) :
    voidCase var v tag = variantVisitResult var v := by
  rw [variantVisitResult, RawVariant.toVariant, h, ofValue_value]
  cases tag <;> rfl

theorem dropWhile_cases (var : RawVariant) (v : VisitorSet σ Unit) (tag : VarType) :
    ∃ rest, ((VarType.all.map fun t => (t.value, voidCase var v t)).dropWhile
      fun c => c.1 ≠ tag.value) = (tag.value, voidCase var v tag) :: rest := by
  cases tag <;> exact ⟨_, rfl⟩

/-- `variant_visit<void>` never returns. -/
theorem void_not_returns (var : RawVariant) (v : VisitorSet σ Unit) (s : σ) :
    ¬ (variantVisitVoid var v s).1.Returns :=
  ExecM.not_returns_fallThrough (fun _ ⟨_, h⟩ => by cases h) _ _

/-- As far as the visit with a result does not return, it is the visit without. -/
theorem void_of_not_returns (h : var.vt = tag.value) (v : VisitorSet σ Unit) {s : σ}
    (hs : ¬ (variantVisitResult var v s).1.Returns) :
    variantVisitVoid var v s = variantVisitResult var v s := by
  obtain ⟨rest, hd⟩ := dropWhile_cases var v tag
  rw [variantVisitVoid, h, ExecM.fallThrough_of_not_returns hd (by rwa [voidCase_eq h]),
    voidCase_eq h]

/-- The visit without a result does what the one with a result does: it makes
the same changes, returns for a return and throws for an exception. -/
def Agrees (x : Outcome Exn R × σ) (y : Outcome Exn Unit × σ) : Prop :=
  y = (x.1 >>= fun _ => .ok (), x.2)

theorem ignore_apply (x : ExecM σ Exn R) (s : σ) :
    ignore x s = ((x s).1 >>= fun _ => .ok (), (x s).2) := by
  rw [ignore, ExecM.bind_apply]
  cases hx : x s with
  | mk r s' => cases r <;> rfl

theorem record_apply (c : VisitorCall) (x : ExecM τ Exn R) (calls : List VisitorCall) (t : τ) :
    record c x (calls, t) = ((x t).1, (calls ++ [c], (x t).2)) := by
  rw [record, ExecM.bind_of_ok (ExecM.modifyLocal_apply _ _ _), ExecM.outer_apply]

theorem returns_ignore {r : Outcome Exn R} : (r >>= fun _ => Outcome.ok ()).Returns ↔ r.Returns := by
  rw [Outcome.returns_bind]
  exact ⟨fun ⟨a, h, _⟩ => ⟨a, h⟩, fun ⟨a, h⟩ => ⟨a, h, (), rfl⟩⟩

theorem variantVisitResult_discard (h : var.vt = tag.value) (v : VisitorSet σ R) (s : σ) :
    variantVisitResult var (discard v) s =
      ((variantVisitResult var v s).1 >>= fun _ => .ok (), (variantVisitResult var v s).2) := by
  rw [variantVisitResult_eq h, variantVisitResult_eq h, callOf_discard]
  cases callOf v (payload var.toVariant) with
  | none => rfl
  | some c => exact ignore_apply c.2 s

/-- The two visits agree if and only if the one with a result does not return. -/
theorem agrees_iff (h : var.vt = tag.value) (v : VisitorSet σ R) (s : σ) :
    Agrees (variantVisitResult var v s) (variantVisitVoid var (discard v) s) ↔
      ¬ (variantVisitResult var v s).1.Returns := by
  have hd := variantVisitResult_discard h v s
  constructor
  · intro ha hr
    apply void_not_returns var (discard v) s
    rw [ha]
    exact returns_ignore.mpr hr
  · intro hr
    rw [Agrees, void_of_not_returns h (discard v) (by rwa [hd, returns_ignore]), hd]

/-- For every listed tag, `variant_visit<R>` makes one call, of the visitor
selected for the member that the tag names, if there is one; `variant_visit<void>`
makes the same calls and ends in the same way exactly when that visitor does not
return. -/
theorem void_agrees_iff (tag : VarType) (h : var.vt = tag.value) (v : VisitorSet τ R) (t : τ) :
    (variantVisitResult var (recorded v) ([], t)).2.1 =
        ((callOf v (payload var.toVariant)).map Prod.fst).toList ∧
    (Agrees (variantVisitResult var (recorded v) ([], t))
        (variantVisitVoid var (discard (recorded v)) ([], t)) ↔
      ∀ c ∈ callOf v (payload var.toVariant), ¬ (c.2 t).1.Returns) := by
  rw [agrees_iff h, variantVisitResult_eq h, callOf_recorded]
  cases callOf v (payload var.toVariant) with
  | none =>
    refine ⟨rfl, iff_of_true (fun ⟨_, h⟩ => by cases h) nofun⟩
  | some c =>
    simp only [Option.map_some, record_apply, List.nil_append, Option.toList_some,
      Option.mem_some_iff, forall_eq', and_self]

end

/-! ## On single values -/

/-- A `VARIANT` of the tag, all of whose other bits are 0. -/
def blank (vt : BitVec 16) : RawVariant where
  vt := vt
  iVal := 0#16
  lVal := 0#32
  fltVal := Double.finite 0 0
  dblVal := Double.finite 0 0
  cyVal := 0#64
  date := Double.finite 0 0
  bstrVal := (none : Bstr)
  pdispVal := 0#64
  scode := 0#32
  boolVal := 0#16
  pvarVal := 0#64
  punkVal := 0#64
  decVal := 0#128
  cVal := 0#8
  bVal := 0#8
  uiVal := 0#16
  ulVal := 0#32
  llVal := 0#64
  ullVal := 0#64
  intVal := 0#32
  uintVal := 0#32
  pvRecord := 0#64
  parray := 0#64

/-- A visitor of one type, which returns. -/
def visitorOf (t : CppType) : VisitorSet Unit Unit where
  value t' := if t' = t then some fun _ => pure () else none

/-- Without a visitor of an integer, both throw. -/
theorem void_agrees_unvisited :
    Agrees (variantVisitResult (blank 3) (recorded (visitorOf .bstr)) ([], ()))
      (variantVisitVoid (blank 3) (discard (recorded (visitorOf .bstr))) ([], ())) :=
  (void_agrees_iff .VT_I4 rfl (visitorOf .bstr) ()).2.mpr nofun

/-- The last case falls into the default, and one before it into a case without
a visitor: the program ends, or an exception is thrown, though the visitor has
returned. -/
theorem void_falls_through :
    ((variantVisitResult (blank 0x2000) (visitorOf .safearrayPtr) ()).1 = .ok () ∧
      (variantVisitVoid (blank 0x2000) (discard (visitorOf .safearrayPtr)) ()).1 = .terminated) ∧
    ((variantVisitResult (blank 8) (visitorOf .bstr) ()).1 = .ok () ∧
      (variantVisitVoid (blank 8) (discard (visitorOf .bstr)) ()).1 = .threw .badVariantAccess) ∧
    ¬ Agrees (variantVisitResult (blank 8) (visitorOf .bstr) ())
      (variantVisitVoid (blank 8) (discard (visitorOf .bstr)) ()) := by
  refine ⟨⟨rfl, rfl⟩, ⟨rfl, rfl⟩, fun h => ?_⟩
  have h := congrArg Prod.fst h
  cases h

end RTM.Proof.VariantVisit
