import RemoteTaskManager.Proof.WmiProcessTable

/-!
# What brings the program down

Sorting on a column returns, or there is no such column and at least two rows
(`sortTableOnColumn_returns_iff`). A table that has not been sorted yet records
the column −1, which is none: a refresh of it that fetches two processes or
more reaches `std::terminate`, and nothing else does (`table_safe_iff`).
-/

namespace RTM.Proof.TableSafety

open RTM.Impl RTM.Spec RTM.Proof.ColumnItems RTM.Proof.WmiProcessTable
open RTM.Impl.WmiProcessTable (sortColumn updateData changeHost getNumberCols getValue)

/-! ## Sorting on any column -/

section

variable {P : Platform} {col : BitVec 32} {c : ColumnNumber} {tbl : List WmiProcess} {o : SortOrder}

theorem exists_toInt {col : BitVec 32} (h : col.toNat < 15) : ∃ c, col = ColumnNumber.toInt c := by
  have all : ∀ n < 15, ∃ c ∈ ColumnNumber.all, ColumnNumber.toInt c = BitVec.ofNat 32 n := by decide
  obtain ⟨c, -, hc⟩ := all col.toNat h
  exact ⟨c, by rw [hc, BitVec.ofNat_toNat, BitVec.setWidth_eq]⟩

theorem compare_returns (P : Platform) (c : ColumnNumber) (x y : WmiProcess) :
    ((x.item c).compare P (y.item c)).Returns := by
  cases h : isText c with
  | false => exact ⟨_, compare_of_key h x y⟩
  | true => exact ⟨_, compare_of_text h x y⟩

theorem lessOn_returns (P : Platform) (c : ColumnNumber) (x y : WmiProcess) :
    (lessOn P c.toInt x y).Returns := by
  obtain ⟨i, hi⟩ := compare_returns P c x y
  refine ⟨decide (i < 0), ?_⟩
  simp only [lessOn, WmiProcess.indexInt_toInt, Outcome.ok_bind, ColumnItem.lt, hi, Outcome.pure_eq]

theorem greaterOn_returns (P : Platform) (c : ColumnNumber) (x y : WmiProcess) :
    (greaterOn P c.toInt x y).Returns := by
  obtain ⟨i, hi⟩ := compare_returns P c x y
  refine ⟨decide (i > 0), ?_⟩
  simp only [greaterOn, WmiProcess.indexInt_toInt, Outcome.ok_bind, ColumnItem.gt, hi,
    Outcome.pure_eq]

theorem sortTableOnColumn_returns (P : Platform) (c : ColumnNumber) (tbl : List WmiProcess)
    (o : SortOrder) : (sortTableOnColumn P tbl c.toInt o).Returns := by
  unfold sortTableOnColumn
  split
  · exact stableSort_returns fun x _ y _ => lessOn_returns P c x y
  · exact stableSort_returns fun x _ y _ => greaterOn_returns P c x y

/-- `operator[]` ends the program on a column that there is not. -/
theorem indexInt_of_none (h : ColumnNumber.ofInt col = none) (x : WmiProcess) :
    x.indexInt col = .terminated := by
  rw [WmiProcess.indexInt_eq, h]

theorem sortTableOnColumn_short (P : Platform) (h : tbl.length ≤ 1) (col : BitVec 32)
    (o : SortOrder) : sortTableOnColumn P tbl col o = .ok tbl := by
  unfold sortTableOnColumn
  split
  · exact stableSort_of_length_le_one _ h
  · exact stableSort_of_length_le_one _ h

theorem sortTableOnColumn_terminated (P : Platform) (h : ColumnNumber.ofInt col = none)
    (hl : 2 ≤ tbl.length) (o : SortOrder) : sortTableOnColumn P tbl col o = .terminated := by
  unfold sortTableOnColumn
  split
  · refine stableSort_of_terminated (fun x _ y _ => ?_) hl
    rw [lessOn, indexInt_of_none h x, Outcome.terminated_bind]
  · refine stableSort_of_terminated (fun x _ y _ => ?_) hl
    rw [greaterOn, indexInt_of_none h x, Outcome.terminated_bind]

/-- A sort does not throw. -/
theorem sortTableOnColumn_cases (P : Platform) (tbl : List WmiProcess) (col : BitVec 32)
    (o : SortOrder) :
    (sortTableOnColumn P tbl col o).Returns ∨ sortTableOnColumn P tbl col o = .terminated := by
  by_cases hl : tbl.length ≤ 1
  · exact .inl ⟨tbl, sortTableOnColumn_short P hl col o⟩
  cases h : ColumnNumber.ofInt col with
  | none => exact .inr (sortTableOnColumn_terminated P h (by omega) o)
  | some c =>
    have hlt : col.toNat < 15 := (List.getElem?_eq_some_iff.mp h).1
    obtain ⟨c, rfl⟩ := exists_toInt hlt
    exact .inl (sortTableOnColumn_returns P c tbl o)

end

/-! ## Operations -/

/-- A table as one of the constructors leaves it. -/
inductive Built : WmiProcessTable → Prop
  | ofHost {fetch : WString → Outcome Exn (List WmiProcess)} {host : WString}
      {t : WmiProcessTable} : WmiProcessTable.ofHost fetch host = .ok t → Built t
  | ofPtr (data : Option (List WmiProcess)) : Built (.ofPtr data)
  | ofData (data : List WmiProcess) : Built (.ofData data)

/-- A public operation. -/
inductive Op where
  | change (op : TableOp)
  | getNumberRows
  | getValue (row col : BitVec 32)

namespace Op

def exec (P : Platform) : Op → ExecM WmiProcessTable Exn Unit
  | change op => op.exec P
  | getNumberRows => do
    let t ← ExecM.get
    let _ ← ExecM.lift (.ok t.getNumberRows)
  | getValue row col => do
    let t ← ExecM.get
    let _ ← ExecM.lift (t.getValue row col)

/-- The table after an operation that returns. -/
def step (P : Platform) (t : WmiProcessTable) (op : Op) : Option WmiProcessTable :=
  match op.exec P t with
  | (.ok (), t') => some t'
  | _ => none

end Op

/-- A column of `[0, GetNumberCols())`. -/
def InCols (t : WmiProcessTable) (col : BitVec 32) : Prop :=
  0 ≤ col.toInt ∧ col.toInt < t.getNumberCols.toInt

/-- The columns passed are columns of the table. -/
def InRange (t : WmiProcessTable) : Op → Prop
  | .change (.sortColumn col _) => InCols t col
  | .getValue _ col => InCols t col
  | _ => True

/-- The operation neither ends the program nor dereferences a null pointer. -/
def Survives (P : Platform) (t : WmiProcessTable) (op : Op) : Prop :=
  (op.exec P t).1 ≠ .terminated ∧ (op.exec P t).1 ≠ .undefined

/-- A refresh with two processes or more finds a column recorded. -/
def Recorded (t : WmiProcessTable) : Op → Prop
  | .change (.updateData listing) | .change (.changeHost _ listing) =>
    t.sorted.column ≠ -1 ∨ listing.length ≤ 1
  | _ => True

instance (t : WmiProcessTable) (col : BitVec 32) : Decidable (InCols t col) :=
  inferInstanceAs (Decidable (_ ∧ _))

instance (t : WmiProcessTable) : ∀ op, Decidable (InRange t op)
  | .change (.sortColumn col _) => inferInstanceAs (Decidable (InCols t col))
  | .getValue _ col => inferInstanceAs (Decidable (InCols t col))
  | .change (.updateData _) | .change (.changeHost ..) | .getNumberRows => isTrue trivial

instance (P : Platform) (t : WmiProcessTable) (op : Op) : Decidable (Survives P t op) :=
  inferInstanceAs (Decidable (_ ∧ _))

instance (t : WmiProcessTable) : ∀ op, Decidable (Recorded t op)
  | .change (.updateData _) | .change (.changeHost ..) => inferInstanceAs (Decidable (_ ∨ _))
  | .change (.sortColumn ..) | .getNumberRows | .getValue .. => isTrue trivial

/-- What is recorded is a column, or that there is none. -/
def Recordable (t : WmiProcessTable) : Prop :=
  t.sorted.column = -1 ∨ ∃ c, t.sorted.column = ColumnNumber.toInt c

theorem recordable_of_built {t : WmiProcessTable} (h : Built t) : Recordable t := by
  cases h with
  | ofHost h =>
    obtain ⟨rows, -, h⟩ := Outcome.bind_eq_ok.mp h
    cases h
    exact .inl rfl
  | ofPtr data => exact .inl rfl
  | ofData data => exact .inl rfl

theorem ofInt_neg_one : ColumnNumber.ofInt (-1) = none := by decide

section

variable {P : Platform} {t t' : WmiProcessTable} {op : Op} {col : BitVec 32}

theorem getNumberCols_of_data {rows : List WmiProcess} (hd : t.mData = some rows) :
    t.getNumberCols = 14 := by
  rw [getNumberCols, hd]
  rfl

/-- A table that has columns has data. -/
theorem InCols.data (h : InCols t col) : ∃ rows, t.mData = some rows := by
  cases hd : t.mData with
  | some rows => exact ⟨rows, rfl⟩
  | none =>
    obtain ⟨h₀, h₁⟩ := h
    have hz : t.getNumberCols.toInt = 0 := by
      rw [getNumberCols, hd]
      rfl
    omega

theorem InCols.column (h : InCols t col) : ∃ c, col = ColumnNumber.toInt c := by
  obtain ⟨rows, hd⟩ := h.data
  have hn : t.getNumberCols.toInt = 14 := by
    rw [getNumberCols_of_data hd]
    rfl
  obtain ⟨h₀, h₁⟩ := h
  refine exists_toInt ?_
  have hlt := col.isLt
  rw [BitVec.toInt_eq_toNat_cond] at h₀ h₁
  split at h₀ <;> omega

/-- `sort_column` on a column of the table returns. -/
theorem exec_sortColumn (hc : InCols t col) (o : SortOrder) :
    ∃ rows so, sortColumn P col o t = (.ok (), { t with mData := some rows, sorted := so }) ∧
      (so = t.sorted ∨ so.column = col) := by
  obtain ⟨rows, hd⟩ := hc.data
  obtain ⟨c, rfl⟩ := hc.column
  by_cases ho : o = .Next
  · subst ho
    obtain ⟨rows', hr⟩ := sortTableOnColumn_returns P c rows t.sorted.sortOrder.next
    refine ⟨rows', ⟨c.toInt, t.sorted.sortOrder.next⟩, ?_, .inr rfl⟩
    rw [sortColumn_next_eq hd, hr]
  · refine ⟨rows, t.sorted, ?_, .inl rfl⟩
    rw [sortColumn_explicit c.toInt ho, ← hd]

/-- A refresh returns if a column is recorded or there is nothing to compare,
and else ends the program. -/
theorem exec_updateData (hi : Recordable t) (listing : List WmiProcess) :
    (t.sorted.column ≠ -1 ∨ listing.length ≤ 1) ∧
        (∃ rows, updateData P (fun _ => .ok listing) t = (.ok (), { t with mData := some rows })) ∨
      ¬ (t.sorted.column ≠ -1 ∨ listing.length ≤ 1) ∧
        updateData P (fun _ => .ok listing) t = (.terminated, t) := by
  rw [updateData_eq, Outcome.ok_bind]
  rcases hi with hn | ⟨c, hc⟩
  · by_cases hl : listing.length ≤ 1
    · refine .inl ⟨.inr hl, listing, ?_⟩
      rw [sortTableOnColumn_short P hl]
    · refine .inr ⟨fun h => h.elim (· hn) hl, ?_⟩
      rw [hn, sortTableOnColumn_terminated P ofInt_neg_one (by omega)]
  · have hne : t.sorted.column ≠ -1 := by
      rintro hn
      have := ColumnNumber.ofInt_toInt c
      rw [← hc, hn, ofInt_neg_one] at this
      cases this
    obtain ⟨rows, hr⟩ := sortTableOnColumn_returns P c listing t.sorted.sortOrder
    refine .inl ⟨.inl hne, rows, ?_⟩
    rw [hc, hr]

theorem getValue_returns (hc : InCols t col) (row : BitVec 32) : (t.getValue row col).Returns := by
  obtain ⟨rows, hd⟩ := hc.data
  obtain ⟨c, rfl⟩ := hc.column
  rw [getValue, hd]
  dsimp only
  split
  · rename_i r _
    refine ⟨(r.item c).toString, ?_⟩
    rw [WmiProcess.indexInt_toInt, Outcome.ok_bind, Outcome.pure_eq]
  · exact Outcome.returns_ok _

/-- How an operation within range ends. -/
theorem exec_cases (hi : Recordable t) (hr : InRange t op) :
    Recorded t op ∧ (∃ t', op.exec P t = (.ok (), t') ∧ Recordable t') ∨
      ¬ Recorded t op ∧ (op.exec P t).1 = .terminated := by
  cases op with
  | change op =>
    cases op with
    | sortColumn col o =>
      obtain ⟨rows, so, he, hso⟩ := exec_sortColumn (P := P) hr o
      refine .inl ⟨trivial, _, he, ?_⟩
      rcases hso with rfl | hso
      · exact hi
      · obtain ⟨c, rfl⟩ := InCols.column hr
        exact .inr ⟨c, hso⟩
    | updateData listing =>
      obtain ⟨hl, rows, he⟩ | ⟨hl, he⟩ := exec_updateData (P := P) hi listing
      · exact .inl ⟨hl, _, he, hi⟩
      · exact .inr ⟨hl, congrArg Prod.fst he⟩
    | changeHost host listing =>
      have hi' : Recordable { t with mRemoteHost := host } := hi
      have heq : (Op.change (.changeHost host listing)).exec P t =
          updateData P (fun _ => .ok listing) { t with mRemoteHost := host } := changeHost_eq ..
      rw [heq]
      obtain ⟨hl, rows, he⟩ | ⟨hl, he⟩ := exec_updateData (P := P) hi' listing
      · exact .inl ⟨hl, _, he, hi⟩
      · exact .inr ⟨hl, congrArg Prod.fst he⟩
  | getNumberRows => exact .inl ⟨trivial, t, rfl, hi⟩
  | getValue row col =>
    obtain ⟨v, hv⟩ := getValue_returns hr row
    refine .inl ⟨trivial, t, ?_, hi⟩
    simp only [Op.exec, ExecM.bind_apply, ExecM.get_apply, ExecM.lift_apply, hv, ExecM.pure_apply]

theorem survives_iff (hi : Recordable t) (hr : InRange t op) : Survives P t op ↔ Recorded t op := by
  unfold Survives
  obtain ⟨hl, t', he, -⟩ | ⟨hl, he⟩ := exec_cases (P := P) hi hr
  · rw [he]
    exact iff_of_true ⟨nofun, nofun⟩ hl
  · rw [he]
    exact iff_of_false (fun h => h.1 rfl) hl

theorem recordable_step (hi : Recordable t) (hr : InRange t op) (h : op.step P t = some t') :
    Recordable t' := by
  unfold Op.step at h
  obtain ⟨-, t₁, he, hi'⟩ | ⟨-, he⟩ := exec_cases (P := P) hi hr
  · rw [he] at h
    exact Option.some.inj h ▸ hi'
  · split at h
    · rename_i h'
      rw [h'] at he
      cases he
    · cases h

end

/-- A run of operations within range survives if and only if a column is
recorded at each of its refreshes that fetches two processes or more. -/
theorem table_safe_iff (P : Platform) {t : WmiProcessTable} (hb : Built t) {ops : List Op}
    (hr : AllSteps (Op.step P) InRange t ops) :
    AllSteps (Op.step P) (Survives P) t ops ↔ AllSteps (Op.step P) Recorded t ops :=
  allSteps_congr survives_iff recordable_step (recordable_of_built hb) hr

/-- The first refresh comes after a click on a header. -/
theorem table_safe_clicked :
    let click := TableOp.sortColumn ColumnNumber.Name.toInt .Next
    let refresh := TableOp.updateData [process 4 1, process 8 2]
    AllSteps (Op.step .ascii) (Survives .ascii) (.ofData [process 4 1])
      [.change click, .change refresh, .getValue (-1) ColumnNumber.ProcessId.toInt] :=
  (table_safe_iff .ascii (.ofData _) (by decide)).mpr (by decide)

/-- A new table, whose first refresh fetches two processes. -/
theorem table_unsafe :
    let t : WmiProcessTable := { mRemoteHost := wide ".", mData := some [process 4 1] }
    let refresh := Op.change (.updateData [process 4 1, process 8 2])
    WmiProcessTable.ofHost (fun _ => .ok [process 4 1]) (wide ".") = .ok t ∧ InRange t refresh ∧
      (refresh.exec .ascii t).1 = .terminated :=
  ⟨rfl, trivial, by decide⟩

end RTM.Proof.TableSafety
