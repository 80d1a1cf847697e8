import RemoteTaskManager.Proof.VariantVisit

/-!
# Properties of an unexpected kind

A property of any kind whose tag the switch lists is returned or thrown on, but
for a null `BSTR` that is taken for a C string and a real number that does not
fit the integer asked for. Every other tag ends the program, and that of an
array is among them: it is `VT_ARRAY` combined with the tag of the elements,
and the switch has `VT_ARRAY` alone (`getters_end_iff`).
-/

namespace RTM.Proof.Getters

open RTM.Impl RTM.Proof.VariantVisit
open RTM.Proof.ComOrder (Ends)

/-! ## Outcomes -/

section

variable {α R : Type}

theorem ends_ok (a : α) : Ends (.ok a : Outcome Exn α) := .inl ⟨a, rfl⟩

theorem ends_threw (e : Exn) : Ends (.threw e : Outcome Exn α) := .inr ⟨e, rfl⟩

theorem not_ends_terminated : ¬ Ends (.terminated : Outcome Exn α) := by
  rintro (⟨_, h⟩ | ⟨_, h⟩) <;> cases h

theorem not_ends_undefined : ¬ Ends (.undefined : Outcome Exn α) := by
  rintro (⟨_, h⟩ | ⟨_, h⟩) <;> cases h

/-- A visit of a payload. -/
def visitPayload (v : Visitors R) : Payload → Outcome Exn R
  | .unlisted => .terminated
  | p => ((selected v p).map Prod.snd).getD (.threw .badVariantAccess)

theorem variantVisit_eq_visitPayload (var : Variant) (v : Visitors R) :
    variantVisit var v = visitPayload v (payload var) := by
  by_cases h : payload var = .unlisted
  · rw [h]
    cases var <;> first | rfl | cases h
  · rw [variantVisit_eq var v h]
    cases hp : payload var with
    | unlisted => exact absurd hp h
    | _ => rfl

end

/-! ## The visitors of the getters -/

theorem ends_wstring (p : Payload) :
    Ends (visitPayload wstringVisitors p) ↔ p ≠ .unlisted ∧ p ≠ .member .bstr (none : Bstr) := by
  cases p with
  | empty => exact iff_of_true (ends_ok _) ⟨nofun, nofun⟩
  | null => exact iff_of_true (ends_ok _) ⟨nofun, nofun⟩
  | unlisted => exact iff_of_false not_ends_terminated fun h => h.1 rfl
  | member t val =>
    by_cases ht : t = .bstr
    · subst ht
      obtain _ | str : Bstr := val
      · exact iff_of_false not_ends_undefined fun h => h.2 rfl
      · exact iff_of_true (ends_ok _) ⟨nofun, nofun⟩
    · have hn : wstringVisitors.value t = none := by
        cases t <;> first | rfl | exact absurd rfl ht
      refine iff_of_true ?_ ⟨nofun, fun h => ht (by cases h; rfl)⟩
      simp only [visitPayload, selected, hn]
      exact ends_threw _

/-- The real number of a payload. -/
def real? : Payload → Option Double
  | .member .float val => some val
  | .member .double val => some val
  | _ => none

theorem ends_toUnsigned (w : Nat) (d : Double) :
    Ends (match d.toUnsigned w with
      | some n => .ok n
      | none => .undefined) ↔ d.toUnsigned w ≠ none := by
  cases d.toUnsigned w with
  | none => exact iff_of_false not_ends_undefined fun h => h rfl
  | some n => exact iff_of_true (ends_ok _) nofun

theorem ends_integer (w : Nat) (p : Payload) :
    Ends (visitPayload (integerVisitors w) p) ↔
      p ≠ .unlisted ∧ ∀ d ∈ real? p, d.toUnsigned w ≠ none := by
  cases p with
  | empty => exact iff_of_true (ends_ok _) ⟨nofun, nofun⟩
  | null => exact iff_of_true (ends_ok _) ⟨nofun, nofun⟩
  | unlisted => exact iff_of_false not_ends_terminated fun h => h.1 rfl
  | member t val =>
    cases t with
    | float | double =>
      refine (ends_toUnsigned w val).trans ⟨fun h => ⟨nofun, fun d hd => ?_⟩, fun h => h.2 val rfl⟩
      rwa [← Option.some.inj hd]
    | short | long | bstr | char | uchar | ushort | ulong | longlong | ulonglong | int | uint =>
      exact iff_of_true (ends_ok _) ⟨nofun, nofun⟩
    | cy | dispatchPtr | variantPtr | unknownPtr | decimal | voidPtr | safearrayPtr =>
      exact iff_of_true (ends_threw _) ⟨nofun, nofun⟩

theorem ends_fromVariantDate (P : Platform) (d : Double) : Ends (fromVariantDate P d) := by
  unfold fromVariantDate
  split
  · exact ends_threw _
  · exact ends_ok _

theorem ends_datetime (P : Platform) (p : Payload) :
    Ends (visitPayload (datetimeVisitors P) p) ↔ p ≠ .unlisted := by
  cases p with
  | empty => exact iff_of_true (ends_threw _) nofun
  | null => exact iff_of_true (ends_threw _) nofun
  | unlisted => exact iff_of_false not_ends_terminated fun h => h rfl
  | member t val =>
    refine iff_of_true ?_ nofun
    cases t with
    | bstr => exact ends_ok _
    | cy | dispatchPtr | variantPtr | unknownPtr | decimal | voidPtr | safearrayPtr =>
      exact ends_threw _
    | _ => exact ends_fromVariantDate P _

/-! ## Tags -/

/-- The switch lists the tag. -/
def Listed (vt : BitVec 16) : Prop := ∃ tag : VarType, vt = tag.value

/-- The tag of an array of elements of the tag `vt`. -/
def arrayOf (vt : BitVec 16) : BitVec 16 := VarType.VT_ARRAY.value ||| vt

theorem payload_ne_unlisted_iff (var : RawVariant) :
    payload var.toVariant ≠ .unlisted ↔ Listed var.vt := by
  refine ⟨fun h => ?_, fun ⟨tag, h⟩ => payload_ne_unlisted h⟩
  cases ht : VarType.ofValue var.vt with
  | none =>
    rw [RawVariant.toVariant, ht] at h
    exact absurd rfl h
  | some tag =>
    rw [VarType.ofValue] at ht
    have hf := List.find?_some ht
    exact ⟨tag, (of_decide_eq_true hf).symm⟩

/-- Of the tags of arrays, the one of an array of nothing. -/
theorem listed_arrayOf (vt : BitVec 16) : Listed (arrayOf vt) ↔ arrayOf vt = VarType.VT_ARRAY.value := by
  refine ⟨fun ⟨tag, h⟩ => ?_, fun h => ⟨.VT_ARRAY, h⟩⟩
  have hbit : (arrayOf vt).getLsbD 13 = true := by
    rw [arrayOf, BitVec.getLsbD_or]
    rfl
  rw [h] at hbit ⊢
  cases tag <;> first | rfl | cases hbit

theorem toVariant_array {var : RawVariant} (h : var.vt = VarType.VT_ARRAY.value) :
    var.toVariant = .VT_ARRAY var.parray := by
  rw [RawVariant.toVariant, h]
  rfl

/-- An array goes to the visitor of `parray`, or is thrown on, if its tag is
`VT_ARRAY` alone, and ends the program if not. -/
theorem visit_array_iff {var : RawVariant} {vt : BitVec 16} (h : var.vt = arrayOf vt) :
    (∀ (R : Type) (v : Visitors R),
      variantVisit var.toVariant v = variantVisitor .safearrayPtr var.parray v) ↔
      arrayOf vt = VarType.VT_ARRAY.value := by
  constructor
  · intro hv
    rw [← listed_arrayOf, ← h, ← payload_ne_unlisted_iff]
    intro hp
    -- Without visitors an exception is due.
    have hv := hv Unit {}
    rw [variantVisit_eq_visitPayload, hp] at hv
    cases hv
  · intro ha R v
    rw [toVariant_array (h.trans ha)]
    rfl

section

variable {P : Platform} {obj : ClassObject} {name : WString} {hr : HRESULT} {var : RawVariant}

theorem ends_getter {R : Type} (h : obj.get name = (hr, var.toVariant)) (v : Visitors R) :
    Ends (getProperty obj name >>= fun var => variantVisit var v) ↔
      failed hr = true ∨ Ends (visitPayload v (payload var.toVariant)) := by
  rw [getProperty, h]
  dsimp only
  cases hf : failed hr with
  | true => exact iff_of_true (ends_threw _) (.inl rfl)
  | false =>
    rw [if_neg Bool.false_ne_true, Outcome.ok_bind, variantVisit_eq_visitPayload]
    exact ⟨.inr, fun h => h.resolve_left Bool.false_ne_true⟩

/-- For every `VARIANT` that `Get` gives, each getter returns or throws exactly
when `Get` fails, or the switch lists the tag and the value has none of the two
faults. An array goes to the visitor of `parray`, or is thrown on, exactly when
it has no tag of elements. -/
theorem getters_end_iff (P : Platform) (h : obj.get name = (hr, var.toVariant)) :
    (Ends (getWstring obj name) ↔ failed hr = true ∨
      Listed var.vt ∧ payload var.toVariant ≠ .member .bstr (none : Bstr)) ∧
    (∀ w, Ends (getInteger w obj name) ↔ failed hr = true ∨
      Listed var.vt ∧ ∀ d ∈ real? (payload var.toVariant), d.toUnsigned w ≠ none) ∧
    (Ends (getDatetime P obj name) ↔ failed hr = true ∨ Listed var.vt) ∧
    ∀ vt, var.vt = arrayOf vt →
      ((∀ (R : Type) (v : Visitors R),
          variantVisit var.toVariant v = variantVisitor .safearrayPtr var.parray v) ↔
        arrayOf vt = VarType.VT_ARRAY.value) := by
  rw [← payload_ne_unlisted_iff]
  refine ⟨?_, fun w => ?_, ?_, fun vt => visit_array_iff⟩
  · rw [← ends_wstring]
    exact ends_getter h wstringVisitors
  · rw [← ends_integer]
    exact ends_getter h (integerVisitors w)
  · rw [← ends_datetime P]
    exact ends_getter h (datetimeVisitors P)

end

/-! ## On single values -/

/-- A record whose properties are all of one value. -/
def propertiesOf (var : RawVariant) : ClassObject where
  get _ := (S_OK, var.toVariant)

/-- An unknown interface is thrown on, or read as nothing. -/
theorem getters_end_unknown :
    Ends (getWstring (propertiesOf (blank 13)) (wide "Name")) ∧
      Ends (getDatetime .ascii (propertiesOf (blank 13)) (wide "Name")) := by
  have h := getters_end_iff .ascii
    (show (propertiesOf (blank 13)).get (wide "Name") = (S_OK, (blank 13).toVariant) from rfl)
  exact ⟨h.1.mpr (.inr ⟨⟨.VT_UNKNOWN, rfl⟩, nofun⟩), h.2.2.1.mpr (.inr ⟨.VT_UNKNOWN, rfl⟩)⟩

/-- An array of strings ends the program, whatever it is asked for. -/
theorem array_terminates :
    (blank 0x2008).vt = arrayOf VarType.VT_BSTR.value ∧
    getWstring (propertiesOf (blank 0x2008)) (wide "Name") = .terminated ∧
    getInteger 32 (propertiesOf (blank 0x2008)) (wide "ProcessId") = .terminated ∧
    getDatetime .ascii (propertiesOf (blank 0x2008)) (wide "CreationDate") = .terminated ∧
    ¬ Ends (getWstring (propertiesOf (blank 0x2008)) (wide "Name")) :=
  ⟨rfl, rfl, rfl, rfl, not_ends_terminated⟩

end RTM.Proof.Getters
