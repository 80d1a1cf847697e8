import RemoteTaskManager.Proof.TableSafety

/-!
# What the grid can show

`column_names` has 14 elements and `column_number` 15 enumerators: the last,
`CommandLine`, is no column of the table, and its label is assigned past the
end of the array. Every other one is shown (`columns_shown_iff`), so two
processes look alike if and only if they differ in their command lines alone.
A row that is no row of the table is empty, as long as the rows can be counted
in an `int`.
-/

namespace RTM.Proof.Columns

open RTM.Impl RTM.Spec RTM.Proof.WmiProcessTable RTM.Proof.TableSafety

/-- A row of `[0, GetNumberRows())`. -/
def InRows (t : WmiProcessTable) (row : BitVec 32) : Prop :=
  0 ≤ row.toInt ∧ row.toInt < t.getNumberRows.toInt

/-- The initialiser assigns the label to an element of the array. -/
def Labelled (k : ColumnNumber) (label : WString) : Prop :=
  (k, label) ∈ WmiProcess.columnLabels ∧ k.toInt.toNat < WmiProcess.columnNames.length

instance (k : ColumnNumber) (label : WString) : Decidable (Labelled k label) :=
  inferInstanceAs (Decidable (_ ∧ _))

/-- An enumerator is a column, under the label assigned to it, and its cells
are the texts of the rows. -/
structure Shown (t : WmiProcessTable) (rows : List WmiProcess) (k : ColumnNumber) : Prop where
  inCols : InCols t k.toInt
  label : ∃ label, Labelled k label ∧ t.getColLabelValue k.toInt = .ok label
  cells : ∀ row, InRows t row →
    ∃ r, rows[row.toNat]? = some r ∧ t.getValue row k.toInt = .ok (text k r)

/-! ## Labels -/

/-- The label of a column. -/
def labelOf (k : ColumnNumber) : WString := WmiProcess.columnNames.getD k.toInt.toNat []

theorem labels (k : ColumnNumber) (h : k ≠ .CommandLine) :
    Labelled k (labelOf k) ∧ WmiProcess.columnNames[(k.toInt.signExtend 64).toNat]? = some (labelOf k) := by
  have all : ∀ k ∈ ColumnNumber.all, k ≠ .CommandLine → Labelled k (labelOf k) ∧
      WmiProcess.columnNames[(k.toInt.signExtend 64).toNat]? = some (labelOf k) := by decide
  exact all k (mem_all k) h

section

variable {t : WmiProcessTable} {rows : List WmiProcess} {row col : BitVec 32} {k : ColumnNumber}

/-! ## Columns -/

/-- The columns of a table with data are the enumerators but the last. -/
theorem inCols_iff (hd : t.mData = some rows) :
    InCols t col ↔ ∃ k, k ≠ .CommandLine ∧ col = ColumnNumber.toInt k := by
  have hn : t.getNumberCols.toInt = 14 := by
    rw [getNumberCols_of_data hd]
    rfl
  constructor
  · intro h
    obtain ⟨k, rfl⟩ := h.column
    refine ⟨k, ?_, rfl⟩
    rintro rfl
    have hlt := h.2
    rw [hn] at hlt
    exact absurd hlt (by decide)
  · rintro ⟨k, hk, rfl⟩
    have all : ∀ k ∈ ColumnNumber.all, k ≠ .CommandLine →
        0 ≤ (ColumnNumber.toInt k).toInt ∧ (ColumnNumber.toInt k).toInt < 14 := by decide
    rw [InCols, hn]
    exact all k (mem_all k) hk

theorem not_inCols_commandLine (hd : t.mData = some rows) :
    ¬ InCols t (ColumnNumber.toInt .CommandLine) := by
  intro h
  obtain ⟨k, hk, e⟩ := (inCols_iff hd).mp h
  exact hk (toInt_injective e).symm

theorem getColLabelValue_of_ne (hk : k ≠ .CommandLine) :
    t.getColLabelValue k.toInt = .ok (labelOf k) := by
  rw [WmiProcessTable.getColLabelValue, (labels k hk).2]

/-! ## Rows -/

/-- A row that is not negative stays what it is as a `size_t`. -/
theorem toNat_signExtend_of_nonneg (h : 0 ≤ row.toInt) : (row.signExtend 64).toNat = row.toNat := by
  have hm : row.msb = false := by
    rw [BitVec.msb_eq_toInt, decide_eq_false_iff_not]
    omega
  exact WmiProcess.toNat_signExtend_of_msb hm

/-- A negative row is past the end of anything an `int` can count. -/
theorem toNat_signExtend_of_neg (h : row.toInt < 0) : 2 ^ 31 ≤ (row.signExtend 64).toNat := by
  have hm : row.msb = true := by
    rw [BitVec.msb_eq_toInt, decide_eq_true_eq]
    exact h
  rw [BitVec.toNat_signExtend, hm, if_pos rfl]
  omega

theorem toNat_of_nonneg (h : 0 ≤ row.toInt) : (row.toNat : Int) = row.toInt := by
  have hlt := row.isLt
  rw [BitVec.toInt_eq_toNat_cond] at h ⊢
  split at h
  · rw [if_pos ‹_›]
  · omega

/-- No more rows are counted than there are. -/
theorem getNumberRows_le (hd : t.mData = some rows) : t.getNumberRows.toInt ≤ rows.length := by
  have hmod : rows.length % 2 ^ 32 ≤ rows.length := Nat.mod_le ..
  rw [WmiProcessTable.getNumberRows, hd, BitVec.toInt_eq_toNat_cond, BitVec.toNat_ofNat]
  split <;> omega

/-- All the rows are counted that an `int` can count. -/
theorem getNumberRows_eq (hd : t.mData = some rows) (hl : rows.length < 2 ^ 31) :
    t.getNumberRows.toInt = rows.length := by
  rw [WmiProcessTable.getNumberRows, hd, BitVec.toInt_eq_toNat_cond, BitVec.toNat_ofNat,
    Nat.mod_eq_of_lt (by omega), if_pos (by omega)]

theorem InRows.record (hd : t.mData = some rows) (h : InRows t row) :
    ∃ r, rows[row.toNat]? = some r ∧ rows[(row.signExtend 64).toNat]? = some r := by
  have hrow := toNat_of_nonneg h.1
  have hle := getNumberRows_le hd
  have hlt : row.toNat < rows.length := by
    have := h.2
    omega
  refine ⟨rows[row.toNat], List.getElem?_eq_getElem hlt, ?_⟩
  rw [toNat_signExtend_of_nonneg h.1, List.getElem?_eq_getElem hlt]

/-- The cell of a record. -/
theorem getValue_of_record {r : WmiProcess} (hd : t.mData = some rows)
    (hr : rows[(row.signExtend 64).toNat]? = some r) (k : ColumnNumber) :
    t.getValue row k.toInt = .ok (text k r) := by
  rw [WmiProcessTable.getValue, hd]
  simp only [hr, WmiProcess.indexInt_toInt, Outcome.ok_bind, Outcome.pure_eq]
  rfl

theorem getValue_of_none (hd : t.mData = some rows) (hr : rows[(row.signExtend 64).toNat]? = none)
    (col : BitVec 32) : t.getValue row col = .ok [] := by
  rw [WmiProcessTable.getValue, hd]
  simp only [hr]

/-- Where an `int` can count the rows, every other row is past their end. -/
theorem no_record_of_not_inRows (hd : t.mData = some rows) (hl : rows.length < 2 ^ 31)
    (h : ¬ InRows t row) : rows[(row.signExtend 64).toNat]? = none := by
  rw [List.getElem?_eq_none_iff]
  by_cases hn : row.toInt < 0
  · have := toNat_signExtend_of_neg hn
    omega
  · have h₀ : 0 ≤ row.toInt := by omega
    have hrow := toNat_of_nonneg h₀
    have hlt : ¬ row.toInt < t.getNumberRows.toInt := fun hlt => h ⟨h₀, hlt⟩
    rw [getNumberRows_eq hd hl] at hlt
    rw [toNat_signExtend_of_nonneg h₀]
    omega

/-! ## What is shown -/

theorem shown_iff (hd : t.mData = some rows) : Shown t rows k ↔ k ≠ .CommandLine := by
  constructor
  · rintro h rfl
    exact not_inCols_commandLine hd h.inCols
  · intro hk
    refine ⟨(inCols_iff hd).mpr ⟨k, hk, rfl⟩, ⟨labelOf k, (labels k hk).1, ?_⟩, fun row hrow => ?_⟩
    · exact getColLabelValue_of_ne hk
    · obtain ⟨r, hr, hr'⟩ := hrow.record hd
      exact ⟨r, hr, getValue_of_record hd hr' k⟩

/-- Two rows differ in a cell if and only if they differ in a text other than
the command line. -/
theorem differ_iff {i j : BitVec 32} {r r' : WmiProcess} (hd : t.mData = some rows)
    (hi : InRows t i) (hj : InRows t j) (hr : rows[i.toNat]? = some r)
    (hr' : rows[j.toNat]? = some r') :
    (∃ col, InCols t col ∧ t.getValue i col ≠ t.getValue j col) ↔
      ∃ k, k ≠ .CommandLine ∧ text k r ≠ text k r' := by
  have cell : ∀ {row r}, InRows t row → rows[row.toNat]? = some r → ∀ k,
      t.getValue row (ColumnNumber.toInt k) = .ok (text k r) := by
    intro row r hrow he k
    obtain ⟨r₁, h₁, h₂⟩ := hrow.record hd
    obtain rfl := Option.some.inj (he.symm.trans h₁)
    exact getValue_of_record hd h₂ k
  constructor
  · rintro ⟨col, hc, hne⟩
    obtain ⟨k, hk, rfl⟩ := (inCols_iff hd).mp hc
    rw [cell hi hr, cell hj hr'] at hne
    exact ⟨k, hk, fun e => hne (congrArg _ e)⟩
  · rintro ⟨k, hk, hne⟩
    refine ⟨k.toInt, (inCols_iff hd).mpr ⟨k, hk, rfl⟩, ?_⟩
    rw [cell hi hr, cell hj hr']
    exact fun e => hne (Outcome.ok.inj e)

/-- A row that is none of the table is empty if and only if the record found
there, if any, has no text. -/
theorem blank_iff (hd : t.mData = some rows) :
    (∀ k, t.getValue row (ColumnNumber.toInt k) = .ok []) ↔
      ∀ r, rows[(row.signExtend 64).toNat]? = some r → ∀ k, text k r = [] := by
  constructor
  · intro h r hr k
    have hk := h k
    rw [getValue_of_record hd hr] at hk
    exact Outcome.ok.inj hk
  · intro h k
    cases hr : rows[(row.signExtend 64).toNat]? with
    | none => exact getValue_of_none hd hr _
    | some r => rw [getValue_of_record hd hr, h r hr k]

end

/-- Every enumerator but `CommandLine` is shown; two processes differ in some
cell if and only if they differ in a text other than the command line; and a
row outside the table is empty if and only if no record with a text is found
there, as none is when an `int` can count the rows. -/
theorem columns_shown_iff {t : WmiProcessTable} {rows : List WmiProcess} (hd : t.mData = some rows) :
    (∀ k, Shown t rows k ↔ k ≠ .CommandLine) ∧
    (∀ i j r r', InRows t i → InRows t j → rows[i.toNat]? = some r → rows[j.toNat]? = some r' →
      ((∃ col, InCols t col ∧ t.getValue i col ≠ t.getValue j col) ↔
        ∃ k, k ≠ .CommandLine ∧ text k r ≠ text k r')) ∧
    (∀ row, ¬ InRows t row →
      ((∀ k, t.getValue row (ColumnNumber.toInt k) = .ok []) ↔
        ∀ r, rows[(row.signExtend 64).toNat]? = some r → ∀ k, text k r = [])) ∧
    (rows.length < 2 ^ 31 → ∀ row, ¬ InRows t row → ∀ col, t.getValue row col = .ok []) := by
  refine ⟨fun k => shown_iff hd, fun i j r r' hi hj hr hr' => differ_iff hd hi hj hr hr',
    fun row _ => blank_iff hd, fun hl row hrow col => ?_⟩
  exact getValue_of_none hd (no_record_of_not_inRows hd hl hrow) col

/-- Two processes of one executable, told apart by their command lines. -/
def twoHosts : List WmiProcess :=
  [{ name := ⟨wide "svchost.exe"⟩, commandLine := ⟨wide "svchost.exe -k netsvcs"⟩ },
    { name := ⟨wide "svchost.exe"⟩, commandLine := ⟨wide "svchost.exe -k rpcss"⟩ }]

theorem columns_shown_name :
    Shown (.ofData twoHosts) twoHosts .Name ∧
      WmiProcessTable.getValue (.ofData twoHosts) (-1) ColumnNumber.Name.toInt = .ok [] := by
  obtain ⟨shown, -, -, outside⟩ := columns_shown_iff (t := .ofData twoHosts) rfl
  exact ⟨(shown .Name).mpr nofun, outside (by decide) (-1) (fun h => absurd h.1 (by decide)) _⟩

/-- The cells of a row. -/
def cells (t : WmiProcessTable) (row : BitVec 32) : List (Outcome Exn WString) :=
  (List.range t.getNumberCols.toNat).map fun col => t.getValue row (BitVec.ofNat 32 col)

/-- They look alike, and the command line is no column. -/
theorem commandLine_not_shown :
    let t := WmiProcessTable.ofData twoHosts
    text .CommandLine twoHosts[0] ≠ text .CommandLine twoHosts[1] ∧ cells t 0 = cells t 1 ∧
      ¬ InCols t ColumnNumber.CommandLine.toInt ∧
      t.getColLabelValue ColumnNumber.CommandLine.toInt = .undefined := by
  exact ⟨by decide, by decide, by decide, by decide⟩

end RTM.Proof.Columns
