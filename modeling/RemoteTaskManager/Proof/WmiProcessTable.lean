import RemoteTaskManager.Framework.Run
import RemoteTaskManager.Proof.ColumnItems

/-!
# The table on its own

What each operation of a table does (`sortTableOnColumn_spec`,
`sortColumn_next`, `sortColumn_explicit`, `updateData_ok`, `changeHost_ok`),
and what a run of them keeps: once a column is sorted on, the rows are those
of the listing last fetched, in the order recorded (`Sorts`), and each
operation leaves the ties as it found them (`table_sorted`).
-/

namespace RTM.Proof.WmiProcessTable

open RTM.Impl RTM.Spec RTM.Proof.ColumnItems
open RTM.Impl.WmiProcessTable (sortColumn updateData changeHost)

/-! ## Sorting -/

theorem lessOn_toInt {P : Platform} {c : ColumnNumber} (h : isText c = false) (x y : WmiProcess) :
    lessOn P c.toInt x y = .ok (decide (key c x < key c y)) := by
  simp only [lessOn, WmiProcess.indexInt_toInt, Outcome.ok_bind, ColumnItem.lt, compare_of_key h,
    Outcome.pure_eq, compareValues_lt]

theorem greaterOn_toInt {P : Platform} {c : ColumnNumber} (h : isText c = false)
    (x y : WmiProcess) : greaterOn P c.toInt x y = .ok (decide (key c y < key c x)) := by
  simp only [greaterOn, WmiProcess.indexInt_toInt, Outcome.ok_bind, ColumnItem.gt, compare_of_key h,
    Outcome.pure_eq, compareValues_gt]

theorem sortTableOnColumn_stable (P : Platform) {c : ColumnNumber} (h : isText c = false)
    (o : SortOrder) (tbl : List WmiProcess) :
    ∃ rows, sortTableOnColumn P tbl c.toInt o = .ok rows ∧ IsStableSort (before c o) tbl rows := by
  have hw := before_weak c o (· ∈ tbl)
  unfold sortTableOnColumn
  split
  · rename_i ho
    refine stableSort_spec (fun x _ y _ => ?_) hw
    rw [lessOn_toInt h, before, if_pos ho]
  · rename_i ho
    refine stableSort_spec (fun x _ y _ => ?_) hw
    rw [greaterOn_toInt h, before, if_neg ho]

/-- Whatever `std::stable_sort` does, if it keeps its contract the rows are
these. -/
theorem sortTableOnColumn_unique (P : Platform) {c : ColumnNumber} (h : isText c = false)
    {o : SortOrder} {tbl rows : List WmiProcess} (hs : IsStableSort (before c o) tbl rows) :
    sortTableOnColumn P tbl c.toInt o = .ok rows := by
  obtain ⟨rows', he, hs'⟩ := sortTableOnColumn_stable P h o tbl
  have hirrefl : ∀ r ∈ tbl, before c o r r = false := fun r hr =>
    (before_weak c o (· ∈ tbl)).irrefl hr
  rw [he, hs'.unique hirrefl hs]

/-- A column that is not text is sorted on, whatever the rows. -/
theorem sortTableOnColumn_spec (P : Platform) {c : ColumnNumber} (h : isText c = false)
    (o : SortOrder) (tbl : List WmiProcess) :
    ∃ rows, sortTableOnColumn P tbl c.toInt o = .ok rows ∧ SortedFrom c o tbl rows := by
  obtain ⟨rows, he, hs⟩ := sortTableOnColumn_stable P h o tbl
  exact ⟨rows, he, .of_isStableSort hs⟩

/-- A sort that returns gives the same rows, whatever the column. -/
theorem sortTableOnColumn_perm {P : Platform} {tbl tbl' : List WmiProcess} {col : BitVec 32}
    {o : SortOrder} (h : sortTableOnColumn P tbl col o = .ok tbl') : tbl'.Perm tbl := by
  unfold sortTableOnColumn at h
  split at h
  · exact stableSort_perm h
  · exact stableSort_perm h

/-! ## Operations -/

section

variable {P : Platform} {t : WmiProcessTable} {rows : List WmiProcess} {c : ColumnNumber}

/-- `sort_column( col, Next )`, on any column. -/
theorem sortColumn_next_eq (ht : t.mData = some rows) (col : BitVec 32) :
    sortColumn P col .Next t =
      match sortTableOnColumn P rows col t.sorted.sortOrder.next with
      | .ok rows' =>
        (.ok (), { t with mData := some rows', sorted := ⟨col, t.sorted.sortOrder.next⟩ })
      | .threw e => (.threw e, t)
      | .terminated => (.terminated, t)
      | .undefined => (.undefined, t) := by
  rw [sortColumn, ExecM.bind_of_ok (ExecM.get_apply t), ht]
  simp only [↓reduceIte, ExecM.bind_apply, ExecM.lift_apply, ExecM.modify_apply]
  cases sortTableOnColumn P rows col t.sorted.sortOrder.next <;> rfl

/-- `sort_column( c, Next )`. -/
theorem sortColumn_next (ht : t.mData = some rows) (h : isText c = false) :
    ∃ rows', SortedFrom c t.sorted.sortOrder.next rows rows' ∧
      sortColumn P c.toInt .Next t =
        (.ok (), { t with mData := some rows', sorted := ⟨c.toInt, t.sorted.sortOrder.next⟩ }) := by
  obtain ⟨rows', he, hs⟩ := sortTableOnColumn_spec P h t.sorted.sortOrder.next rows
  refine ⟨rows', hs, ?_⟩
  rw [sortColumn_next_eq ht, he]

/-- `sort_column` with an explicit order does nothing. -/
theorem sortColumn_explicit (col : BitVec 32) {o : SortOrder} (ho : o ≠ .Next) :
    sortColumn P col o t = (.ok (), t) := by
  rw [sortColumn, ExecM.bind_of_ok (ExecM.get_apply t)]
  cases t.mData with
  | none => rfl
  | some tmpData => simp only [if_neg ho, ExecM.pure_apply]

/-- `update_data` does all that may fail before it assigns. -/
theorem updateData_eq (P : Platform) (fetch : WString → Outcome Exn (List WmiProcess))
    (t : WmiProcessTable) :
    updateData P fetch t =
      match fetch t.mRemoteHost >>= fun ptr =>
        sortTableOnColumn P ptr t.sorted.column t.sorted.sortOrder with
      | .ok rows' => (.ok (), { t with mData := some rows' })
      | .threw e => (.threw e, t)
      | .terminated => (.terminated, t)
      | .undefined => (.undefined, t) := by
  rw [updateData, ExecM.bind_of_ok (ExecM.get_apply t)]
  simp only [ExecM.bind_apply, ExecM.lift_apply, ExecM.modify_apply]
  cases fetch t.mRemoteHost with
  | ok ptr =>
    rw [Outcome.ok_bind]
    dsimp only
    cases sortTableOnColumn P ptr t.sorted.column t.sorted.sortOrder <;> rfl
  | _ => rfl

/-- `change_host` names the host, then updates. -/
theorem changeHost_eq (P : Platform) (fetch : WString → Outcome Exn (List WmiProcess))
    (host : WString) (t : WmiProcessTable) :
    changeHost P fetch host t = updateData P fetch { t with mRemoteHost := host } := by
  rw [changeHost, ExecM.bind_of_ok (ExecM.modify_apply _ t)]

/-- `update_data`, when the listing is fetched. -/
theorem updateData_ok {fetch : WString → Outcome Exn (List WmiProcess)} {listing : List WmiProcess}
    (hf : fetch t.mRemoteHost = .ok listing) (hc : t.sorted.column = c.toInt)
    (h : isText c = false) :
    ∃ rows', SortedFrom c t.sorted.sortOrder listing rows' ∧
      updateData P fetch t = (.ok (), { t with mData := some rows' }) := by
  obtain ⟨rows', he, hs⟩ := sortTableOnColumn_spec P h t.sorted.sortOrder listing
  refine ⟨rows', hs, ?_⟩
  rw [updateData_eq, hf, Outcome.ok_bind, hc, he]

/-- `change_host`, when the listing is fetched. -/
theorem changeHost_ok {fetch : WString → Outcome Exn (List WmiProcess)} {listing : List WmiProcess}
    {host : WString} (hf : fetch host = .ok listing) (hc : t.sorted.column = c.toInt)
    (h : isText c = false) :
    ∃ rows', SortedFrom c t.sorted.sortOrder listing rows' ∧
      changeHost P fetch host t = (.ok (), { t with mRemoteHost := host, mData := some rows' }) := by
  rw [changeHost_eq]
  exact updateData_ok (t := { t with mRemoteHost := host }) hf hc h

end

/-! ## Runs -/

/-- An operation, with the listing that the machine gives it. -/
inductive TableOp where
  | sortColumn (col : BitVec 32) (sortOrder : SortOrder)
  | updateData (listing : List WmiProcess)
  | changeHost (remoteHost : WString) (listing : List WmiProcess)

namespace TableOp

def exec (P : Platform) : TableOp → ExecM WmiProcessTable Exn Unit
  | sortColumn col sortOrder => WmiProcessTable.sortColumn P col sortOrder
  | updateData listing => WmiProcessTable.updateData P fun _ => .ok listing
  | changeHost remoteHost listing => WmiProcessTable.changeHost P (fun _ => .ok listing) remoteHost

/-- The table after an operation that returns. -/
def step (P : Platform) (t : WmiProcessTable) (op : TableOp) : Option WmiProcessTable :=
  match op.exec P t with
  | (.ok (), t') => some t'
  | _ => none

/-- The columns passed are not text. -/
def Sortable : TableOp → Prop
  | sortColumn col _ => Spec.Sortable col
  | _ => True

/-- The rows the operation sorts: those of the table, or those fetched. -/
def source (t : WmiProcessTable) : TableOp → List WmiProcess
  | sortColumn _ _ => t.mData.getD []
  | updateData listing => listing
  | changeHost _ listing => listing

/-- The listing last fetched, after the operation. -/
def fetched (last : List WmiProcess) : TableOp → List WmiProcess
  | sortColumn _ _ => last
  | updateData listing => listing
  | changeHost _ listing => listing

end TableOp

/-- A `sort_column( col, Next )` precedes the first refresh. -/
def NextFirst : List TableOp → Prop
  | [] => True
  | .sortColumn _ sortOrder :: ops => sortOrder = .Next ∨ NextFirst ops
  | _ :: _ => False

/-- Whether some operation is a `sort_column( col, Next )`. -/
def HasNext (ops : List TableOp) : Prop := ∃ col, .sortColumn col .Next ∈ ops

/-- The table shows `listing`, in the order it records. -/
def Sorts (t : WmiProcessTable) (listing : List WmiProcess) : Prop :=
  ∃ rows, t.mData = some rows ∧ rows.Perm listing ∧ Ordered t.sorted rows

/-- The rows of one key in the column recorded are in the order `source` has
them in. -/
def KeepsTies (t : WmiProcessTable) (source : List WmiProcess) : Prop :=
  ∀ c, t.sorted.column = c.toInt → ∀ k,
    (t.mData.getD []).filter (fun r => key c r = k) = source.filter fun r => key c r = k

section

variable {P : Platform} {t : WmiProcessTable} {listing : List WmiProcess} {op : TableOp}

theorem toInt_injective {c d : ColumnNumber} (h : c.toInt = d.toInt) : c = d := by
  have := ColumnNumber.ofInt_toInt d
  rw [← h, ColumnNumber.ofInt_toInt] at this
  exact Option.some.inj this

/-- A table whose rows are sorted from `source` as it records. -/
theorem sorts_of_sortedFrom {c : ColumnNumber} {source rows : List WmiProcess}
    (hd : t.mData = some rows) (h : isText c = false) (hc : t.sorted.column = c.toInt)
    (hs : SortedFrom c t.sorted.sortOrder source rows) (hp : source.Perm listing) :
    Sorts t listing ∧ KeepsTies t source := by
  refine ⟨⟨rows, hd, hs.perm.trans hp, c, h, hc, hs.order⟩, fun d hd' k => ?_⟩
  obtain rfl := toInt_injective (hc.symm.trans hd')
  rw [hd]
  exact hs.ties k

/-- Sorting for `Next` puts a table with rows in order. -/
theorem step_next {rows : List WmiProcess} {col : BitVec 32} (hd : t.mData = some rows)
    (ho : (TableOp.sortColumn col .Next).Sortable) (hp : rows.Perm listing) :
    ∃ t', TableOp.step P t (.sortColumn col .Next) = some t' ∧ Sorts t' listing ∧
      KeepsTies t' rows := by
  obtain ⟨c, h, rfl⟩ := ho
  obtain ⟨rows', hs, he⟩ := sortColumn_next (P := P) hd h
  refine ⟨{ t with mData := some rows', sorted := ⟨c.toInt, t.sorted.sortOrder.next⟩ }, ?_, ?_⟩
  · rw [TableOp.step, TableOp.exec, he]
  · exact sorts_of_sortedFrom rfl h rfl hs hp

/-- One step of a table in order: it stays in order, and keeps the ties. -/
theorem step_sorts (hi : Sorts t listing) (ho : op.Sortable) :
    ∃ t', TableOp.step P t op = some t' ∧ Sorts t' (op.fetched listing) ∧
      KeepsTies t' (op.source t) := by
  obtain ⟨rows, hd, hp, c, h, hc, hord⟩ := hi
  cases op with
  | sortColumn col o =>
    by_cases hn : o = .Next
    · subst hn
      simpa only [TableOp.source, TableOp.fetched, hd, Option.getD_some] using step_next hd ho hp
    · refine ⟨t, ?_, ⟨rows, hd, hp, c, h, hc, hord⟩, fun _ _ _ => rfl⟩
      rw [TableOp.step, TableOp.exec, sortColumn_explicit col hn]
  | updateData l =>
    obtain ⟨rows', hs, he⟩ := @updateData_ok P t c (fun _ => .ok l) l rfl hc h
    refine ⟨{ t with mData := some rows' }, ?_, sorts_of_sortedFrom rfl h hc hs (.refl l)⟩
    rw [TableOp.step, TableOp.exec, he]
  | changeHost host l =>
    obtain ⟨rows', hs, he⟩ := @changeHost_ok P t c (fun _ => .ok l) l host rfl hc h
    refine ⟨{ t with mRemoteHost := host, mData := some rows' }, ?_,
      sorts_of_sortedFrom rfl h hc hs (.refl l)⟩
    rw [TableOp.step, TableOp.exec, he]

/-- A run of a table in order. -/
theorem run_sorts (ops : List TableOp) (hi : Sorts t listing) (ho : ∀ op ∈ ops, op.Sortable) :
    ∃ t', run (TableOp.step P) t ops = some t' ∧ Sorts t' (ops.foldl TableOp.fetched listing) := by
  induction ops generalizing t listing with
  | nil => exact ⟨t, rfl, hi⟩
  | cons op ops ih =>
    obtain ⟨t₁, h₁, hi₁, -⟩ := step_sorts (P := P) hi (ho op List.mem_cons_self)
    obtain ⟨t', h', hi'⟩ := ih hi₁ fun op hop => ho op (List.mem_cons_of_mem _ hop)
    exact ⟨t', run_cons_eq_some.mpr ⟨t₁, h₁, h'⟩, hi'⟩

end

/-- From the first `sort_column( col, Next )` on, if no refresh comes before
it, every operation returns and leaves the rows of the listing last fetched
(at first, the rows the table was built with), in the order recorded, those
of one key in the order of the rows it sorted. -/
theorem table_sorted (P : Platform) {t : WmiProcessTable} {rows : List WmiProcess}
    (hd : t.mData = some rows) (ops : List TableOp) (op : TableOp)
    (ho : ∀ o ∈ ops ++ [op], o.Sortable) (hf : NextFirst (ops ++ [op]))
    (hn : HasNext (ops ++ [op])) :
    ∃ t₁ t₂, run (TableOp.step P) t ops = some t₁ ∧ TableOp.step P t₁ op = some t₂ ∧
      Sorts t₂ ((ops ++ [op]).foldl TableOp.fetched rows) ∧ KeepsTies t₂ (op.source t₁) := by
  induction ops generalizing t with
  | nil =>
    obtain ⟨col, hcol⟩ := hn
    obtain rfl := (List.mem_singleton.mp hcol).symm
    obtain ⟨t', h', hs, hk⟩ := step_next (P := P) hd (ho _ List.mem_cons_self) (.refl rows)
    refine ⟨t, t', rfl, h', hs, ?_⟩
    simpa only [TableOp.source, hd, Option.getD_some] using hk
  | cons o ops ih =>
    have ho' : ∀ o ∈ ops ++ [op], o.Sortable := fun o h => ho o (List.mem_cons_of_mem _ h)
    cases o with
    | sortColumn col so =>
      by_cases hso : so = .Next
      · -- The first sort: from here on the table is in order.
        subst hso
        obtain ⟨s, hs, hi, -⟩ := step_next (P := P) hd (ho _ List.mem_cons_self) (.refl rows)
        obtain ⟨t₁, h₁, hi₁⟩ := run_sorts (P := P) ops hi fun o h => ho' o (List.mem_append_left _ h)
        obtain ⟨t₂, h₂, hi₂, hk⟩ := step_sorts (P := P) hi₁ (ho' op (by simp))
        refine ⟨t₁, t₂, run_cons_eq_some.mpr ⟨s, hs, h₁⟩, h₂, ?_, hk⟩
        rw [List.cons_append, List.foldl_cons, List.foldl_append]
        exact hi₂
      · -- A sort with an explicit order changes nothing.
        have hstep : TableOp.step P t (.sortColumn col so) = some t := by
          rw [TableOp.step, TableOp.exec, sortColumn_explicit col hso]
        obtain ⟨col', hcol'⟩ := hn
        have hn' : HasNext (ops ++ [op]) := by
          refine ⟨col', (List.mem_cons.mp hcol').resolve_left fun e => hso ?_⟩
          cases e
          rfl
        obtain ⟨t₁, t₂, h₁, h₂, hi, hk⟩ := ih hd ho' (hf.resolve_left hso) hn'
        exact ⟨t₁, t₂, run_cons_eq_some.mpr ⟨t, hstep, h₁⟩, h₂, hi, hk⟩
    | updateData l => exact hf.elim
    | changeHost host l => exact hf.elim

/-- A process of the given pid and number of threads. -/
def process (pid threads : BitVec 64) : WmiProcess where
  processId := .ofUInt64 pid
  threadCount := .ofUInt64 threads

/-- Two processes sorted on their threads, then listed anew from another host. -/
theorem table_sorted_two :
    let t := WmiProcessTable.ofData [process 4 100, process 8 20]
    let sort := TableOp.sortColumn ColumnNumber.ThreadCount.toInt .Next
    let host := TableOp.changeHost (wide "host") [process 8 20, process 4 90]
    ∃ t₁ t₂, run (TableOp.step .ascii) t [sort] = some t₁ ∧
      TableOp.step .ascii t₁ host = some t₂ ∧ Sorts t₂ [process 8 20, process 4 90] ∧
      KeepsTies t₂ [process 8 20, process 4 90] := by
  refine table_sorted .ascii rfl [_] _ (fun o h => ?_) (.inl rfl) ⟨_, List.mem_cons_self⟩
  rcases List.mem_cons.mp h with rfl | h
  · exact ⟨.ThreadCount, rfl, rfl⟩
  · rw [List.mem_singleton.mp h]
    trivial

end RTM.Proof.WmiProcessTable
