import RemoteTaskManager.Impl.Win32Process
import RemoteTaskManager.Spec.Rows

/-!
# Decoding a record

A record is decoded column by column: `makeWmiProcess` returns a process if
and only if every column decodes, to the item the process has in that column
(`makeWmiProcess_eq_ok`), and a column is decoded from its own property alone
(`decode_congr`). A well-formed property decodes; so does null, of any column
but the creation date (`decode_returns`, `decode_null_date`).
-/

namespace RTM.Proof.Win32Process

open RTM.Impl RTM.Spec

/-! ## Columns -/

/-- The property a column is decoded from. -/
def property : ColumnNumber → WString
  | .Name => wide "Name"
  | .ProcessId => wide "ProcessId"
  | .ParentProcessId => wide "ParentProcessId"
  | .SessionId => wide "SessionId"
  | .Handle => wide "Handle"
  | .CreationDate => wide "CreationDate"
  | .ThreadCount => wide "ThreadCount"
  | .PageFaults => wide "PageFaults"
  | .WorkingSetSize => wide "WorkingSetSize"
  | .PeakWorkingSetSize => wide "PeakWorkingSetSize"
  | .PageFileUsage => wide "PageFileUsage"
  | .PeakPageFileUsage => wide "PeakPageFileUsage"
  | .ReadTransferCount => wide "ReadTransferCount"
  | .WriteTransferCount => wide "WriteTransferCount"
  | .CommandLine => wide "CommandLine"

/-- The item that a record gives a column. -/
def decode (P : Platform) (obj : ClassObject) (c : ColumnNumber) : Outcome Exn ColumnItem :=
  match c with
  | .Name | .Handle | .CommandLine => do return .string ⟨← getWstring obj (property c)⟩
  | .ProcessId | .ParentProcessId | .SessionId | .ThreadCount | .PageFaults => do
    return .integer 32 (.ofUInt64 ((← getInteger 32 obj (property c)).setWidth 64))
  | .CreationDate => do return .date (DateItem.assign P {} (← getDatetime P obj (property c)))
  | .PageFileUsage | .PeakPageFileUsage | .PeakWorkingSetSize => do
    return .memory (.ofUInt64 (fromKilobytes (← getInteger 64 obj (property c))))
  | .WorkingSetSize => do
    return .memory (.ofUInt64 ((← getInteger 32 obj (property c)).setWidth 64))
  | .ReadTransferCount | .WriteTransferCount => do
    return .memory (.ofUInt64 (← getInteger 64 obj (property c)))

section

variable {P : Platform} {obj obj' : ClassObject} {p p' : WmiProcess} {c : ColumnNumber}

theorem getProperty_congr {name : WString} (h : obj.get name = obj'.get name) :
    getProperty obj name = getProperty obj' name := by
  rw [getProperty, getProperty, h]

/-- A column reads its own property only. -/
theorem decode_congr (h : obj.get (property c) = obj'.get (property c)) :
    decode P obj c = decode P obj' c := by
  have e := getProperty_congr h
  cases c <;> simp only [decode, getWstring, getInteger, getDatetime, e]

theorem decode_item (h : makeWmiProcess P obj = .ok p) (c : ColumnNumber) :
    decode P obj c = .ok (p.item c) := by
  simp only [makeWmiProcess, Outcome.bind_eq_ok] at h
  obtain ⟨name, h₁, commandLine, h₂, pid, h₃, ppid, h₄, sid, h₅, handle, h₆, date, h₇, threads, h₈,
    faults, h₉, pageFile, h₁₀, peakPageFile, h₁₁, workingSet, h₁₂, peakWorkingSet, h₁₃, read, h₁₄,
    write, h₁₅, h⟩ := h
  obtain rfl := Outcome.ok.inj h
  cases c <;>
    simp only [decode, property, h₁, h₂, h₃, h₄, h₅, h₆, h₇, h₈, h₉, h₁₀, h₁₁, h₁₂, h₁₃, h₁₄, h₁₅,
      Outcome.ok_bind, Outcome.pure_eq, WmiProcess.item]

/-- A record whose columns all decode is decoded. -/
theorem makeWmiProcess_returns (h : ∀ c, (decode P obj c).Returns) :
    (makeWmiProcess P obj).Returns := by
  have get : ∀ {α : Type} {x : Outcome Exn α} {f : α → Outcome Exn ColumnItem},
      (x >>= f).Returns → ∃ a, x = .ok a := fun h => by
    obtain ⟨a, ha, -⟩ := Outcome.returns_bind.mp h
    exact ⟨a, ha⟩
  obtain ⟨_, h₁⟩ := get (h .Name)
  obtain ⟨_, h₂⟩ := get (h .CommandLine)
  obtain ⟨_, h₃⟩ := get (h .ProcessId)
  obtain ⟨_, h₄⟩ := get (h .ParentProcessId)
  obtain ⟨_, h₅⟩ := get (h .SessionId)
  obtain ⟨_, h₆⟩ := get (h .Handle)
  obtain ⟨_, h₇⟩ := get (h .CreationDate)
  obtain ⟨_, h₈⟩ := get (h .ThreadCount)
  obtain ⟨_, h₉⟩ := get (h .PageFaults)
  obtain ⟨_, h₁₀⟩ := get (h .PageFileUsage)
  obtain ⟨_, h₁₁⟩ := get (h .PeakPageFileUsage)
  obtain ⟨_, h₁₂⟩ := get (h .WorkingSetSize)
  obtain ⟨_, h₁₃⟩ := get (h .PeakWorkingSetSize)
  obtain ⟨_, h₁₄⟩ := get (h .ReadTransferCount)
  obtain ⟨_, h₁₅⟩ := get (h .WriteTransferCount)
  simp only [property] at h₁ h₂ h₃ h₄ h₅ h₆ h₇ h₈ h₉ h₁₀ h₁₁ h₁₂ h₁₃ h₁₄ h₁₅
  simp only [makeWmiProcess, h₁, h₂, h₃, h₄, h₅, h₆, h₇, h₈, h₉, h₁₀, h₁₁, h₁₂, h₁₃, h₁₄, h₁₅,
    Outcome.ok_bind, Outcome.pure_eq]
  exact Outcome.returns_ok _

/-- A process is its items. -/
theorem item_ext (h : ∀ c, p.item c = p'.item c) : p = p' := by
  have integer : ∀ {x y : IntegerItem 32}, ColumnItem.integer 32 x = .integer 32 y → x = y :=
    fun h => eq_of_heq (ColumnItem.integer.inj h).2
  cases p
  cases p'
  rw [WmiProcess.mk.injEq]
  exact ⟨ColumnItem.string.inj (h .Name), ColumnItem.string.inj (h .CommandLine),
    integer (h .ProcessId), integer (h .ParentProcessId), integer (h .SessionId),
    ColumnItem.string.inj (h .Handle), ColumnItem.date.inj (h .CreationDate),
    integer (h .ThreadCount), integer (h .PageFaults), ColumnItem.memory.inj (h .PageFileUsage),
    ColumnItem.memory.inj (h .PeakPageFileUsage), ColumnItem.memory.inj (h .WorkingSetSize),
    ColumnItem.memory.inj (h .PeakWorkingSetSize), ColumnItem.memory.inj (h .ReadTransferCount),
    ColumnItem.memory.inj (h .WriteTransferCount)⟩

/-- What a record is decoded to. -/
theorem makeWmiProcess_eq_ok :
    makeWmiProcess P obj = .ok p ↔ ∀ c, decode P obj c = .ok (p.item c) := by
  refine ⟨decode_item, fun h => ?_⟩
  obtain ⟨p', hp'⟩ := makeWmiProcess_returns fun c => ⟨_, h c⟩
  have : p' = p := item_ext fun c => Outcome.ok.inj ((decode_item hp' c).symm.trans (h c))
  rw [hp', this]

end

/-! ## Properties and what they carry -/

/-- `Get` succeeds and gives the variant. -/
def Carries (obj : ClassObject) (c : ColumnNumber) (v : Variant) : Prop :=
  ∃ hr, failed hr = false ∧ obj.get (property c) = (hr, v)

/-- A record of the given properties. -/
def ofColumns (v : ColumnNumber → Variant) : ClassObject where
  get name :=
    match ColumnNumber.all.find? fun c => property c = name with
    | some c => (S_OK, v c)
    | none => (0x80041002, .VT_EMPTY)

theorem find_property (c : ColumnNumber) :
    ColumnNumber.all.find? (fun d => property d = property c) = some c := by
  cases c <;> decide

theorem get_ofColumns (v : ColumnNumber → Variant) (c : ColumnNumber) :
    (ofColumns v).get (property c) = (S_OK, v c) := by
  simp only [ofColumns, find_property]

theorem carries_ofColumns (v : ColumnNumber → Variant) (c : ColumnNumber) :
    Carries (ofColumns v) c (v c) :=
  ⟨S_OK, rfl, get_ofColumns v c⟩

section

variable {P : Platform} {obj : ClassObject} {p : WmiProcess} {c : ColumnNumber} {v : Variant}

theorem getProperty_of_carries (h : Carries obj c v) : getProperty obj (property c) = .ok v := by
  obtain ⟨hr, hf, h⟩ := h
  simp only [getProperty, h, hf, Bool.false_eq_true, ↓reduceIte]

theorem getInteger_of_carries (h : Carries obj c v) (w : Nat) :
    getInteger w obj (property c) = variantVisit v (integerVisitors w) := by
  rw [getInteger, getProperty_of_carries h, Outcome.ok_bind]

/-- Columns that decode for sure leave it to the others whether the record
does. -/
theorem makeWmiProcess_returns_iff {s : ColumnNumber → Prop}
    (h : ∀ c, s c → (decode P obj c).Returns) :
    (makeWmiProcess P obj).Returns ↔ ∀ c, ¬ s c → (decode P obj c).Returns := by
  constructor
  · rintro ⟨p, hp⟩ c -
    exact ⟨_, decode_item hp c⟩
  · intro h'
    refine makeWmiProcess_returns fun c => ?_
    by_cases hc : s c
    · exact h c hc
    · exact h' c hc

theorem item_of_decode {i : ColumnItem} (hp : makeWmiProcess P obj = .ok p)
    (h : decode P obj c = .ok i) : p.item c = i :=
  Outcome.ok.inj ((decode_item hp c).symm.trans h)

end

/-! ## Well-formed properties -/

/-- A well-formed value of a column's property: text, of any column; an
integer, of one of numbers; a `DATE` that is a time, of the creation date. -/
def WellFormed (P : Platform) (c : ColumnNumber) : Variant → Prop
  | .VT_BSTR str => str ≠ none
  | .VT_I2 _ | .VT_I4 _ | .VT_I1 _ | .VT_UI1 _ | .VT_UI2 _ | .VT_UI4 _ | .VT_I8 _ | .VT_UI8 _
  | .VT_INT _ | .VT_UINT _ => isText c = false ∧ c ≠ .CreationDate
  | .VT_DATE date => c = .CreationDate ∧ P.variantTimeToSystemTime date ≠ none
  | _ => False

section

variable {P : Platform} {obj : ClassObject} {c : ColumnNumber} {v : Variant}

/-- Text and null have a visitor in `get_wstring`. -/
theorem getWstring_returns (h : Carries obj c v) (ht : isText c = true)
    (hv : WellFormed P c v ∨ v = .VT_NULL) : (getWstring obj (property c)).Returns := by
  rw [getWstring, getProperty_of_carries h, Outcome.ok_bind]
  rcases hv with hv | rfl
  · cases v with
    | VT_BSTR str =>
      obtain ⟨s, rfl⟩ := Option.ne_none_iff_exists'.mp hv
      exact ⟨_, rfl⟩
    | VT_DATE date =>
      obtain ⟨rfl, -⟩ := hv
      cases ht
    | _ => simp_all [WellFormed]
  · exact ⟨_, rfl⟩

/-- Text, integers and null have a visitor in `get_integer`. -/
theorem getInteger_returns (w : Nat) (h : Carries obj c v) (hc : c ≠ .CreationDate)
    (hv : WellFormed P c v ∨ v = .VT_NULL) : (getInteger w obj (property c)).Returns := by
  rw [getInteger_of_carries h]
  rcases hv with hv | rfl
  · cases v with
    | VT_DATE date => exact absurd hv.1 hc
    | VT_BSTR str => exact ⟨_, rfl⟩
    | _ => first | exact ⟨_, rfl⟩ | exact hv.elim
  · exact ⟨_, rfl⟩

/-- Text and dates have a visitor in `get_datetime`. -/
theorem getDatetime_returns (h : Carries obj .CreationDate v) (hv : WellFormed P .CreationDate v) :
    (getDatetime P obj (property .CreationDate)).Returns := by
  rw [getDatetime, getProperty_of_carries h, Outcome.ok_bind]
  cases v with
  | VT_BSTR str => exact ⟨_, rfl⟩
  | VT_DATE date =>
    obtain ⟨st, hst⟩ := Option.ne_none_iff_exists'.mp hv.2
    show (fromVariantDate P date).Returns
    simp only [fromVariantDate, hst]
    exact Outcome.returns_ok _
  | _ => simp_all [WellFormed]

theorem returns_map {α β : Type} {x : Outcome Exn α} (f : α → β) (h : x.Returns) :
    (x >>= fun a => .ok (f a)).Returns := by
  obtain ⟨a, rfl⟩ := h
  exact ⟨_, rfl⟩

/-- A column decodes whose property is well-formed, or null and not a date. -/
theorem decode_returns (h : Carries obj c v)
    (hv : WellFormed P c v ∨ v = .VT_NULL ∧ c ≠ .CreationDate) : (decode P obj c).Returns := by
  have hv' : WellFormed P c v ∨ v = .VT_NULL := hv.imp_right And.left
  by_cases ht : isText c = true
  · have := getWstring_returns h ht hv'
    cases c <;> first | exact returns_map _ this | cases ht
  · by_cases hc : c = .CreationDate
    · subst hc
      exact returns_map _ (getDatetime_returns h (hv.resolve_right fun e => e.2 rfl))
    · have h32 := getInteger_returns 32 h hc hv'
      have h64 := getInteger_returns 64 h hc hv'
      cases c <;> first | exact returns_map _ h32 | exact returns_map _ h64 | exact absurd rfl ht | exact absurd rfl hc

/-- A null date has no visitor. -/
theorem decode_null_date (h : Carries obj .CreationDate .VT_NULL) :
    decode P obj .CreationDate = .threw .badVariantAccess := by
  rw [decode, getDatetime, getProperty_of_carries h]
  rfl

end

end RTM.Proof.Win32Process
