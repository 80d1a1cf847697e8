import RemoteTaskManager.Proof.WmiProcessTable

/-!
# Sorting, and what a refresh makes of it

`sort_column` sorts for `SortOrder::Next` only: an explicit order is honoured
by a table that is in it and records it already, and by no other
(`explicit_sort_iff`). What a history of sorts leaves is sorted by all of its
columns, the last one first (`clicks_sorted`), while a refresh sorts the listing
by the last one alone: it brings the same keys in every row, and the same rows
if the listing had those of one key in the order of the earlier sorts
(`refresh_moves_nothing_iff`).
-/

namespace RTM.Proof.SortColumn

open RTM.Impl RTM.Spec RTM.Proof.WmiProcessTable
open RTM.Impl.WmiProcessTable (sortColumn updateData)

/-! ## An explicit order -/

/-- `sort_column( c, o )` takes `t` to `t'`: the rows are sorted, the order is
recorded, a refresh keeps it, and a second call changes nothing. -/
structure Honoured (P : Platform) (rows : List WmiProcess) (t t' : WmiProcessTable)
    (c : ColumnNumber) (o : SortOrder) : Prop where
  returns : sortColumn P c.toInt o t = (.ok (), t')
  rows : ∃ rows', t'.mData = some rows' ∧ SortedFrom c o rows rows'
  recorded : t'.sorted = ⟨c.toInt, o⟩
  kept : ∀ listing, ∃ rows', SortedFrom c o listing rows' ∧
    updateData P (fun _ => .ok listing) t' = (.ok (), { t' with mData := some rows' })
  repeated : sortColumn P c.toInt o t' = (.ok (), t')

/-- Rows in order are sorted. -/
theorem sortedFrom_self {c : ColumnNumber} {o : SortOrder} {rows : List WmiProcess}
    (h : InOrder c o rows) : SortedFrom c o rows rows :=
  ⟨.refl rows, h, fun _ => rfl⟩

/-- An explicit order is honoured if and only if the table is in it and
records it. -/
theorem explicit_sort_iff (P : Platform) {t : WmiProcessTable} {rows : List WmiProcess}
    {c : ColumnNumber} {o : SortOrder} (hd : t.mData = some rows) (hk : isText c = false)
    (ho : o ≠ .Next) :
    (∃ t', Honoured P rows t t' c o) ↔ t.sorted = ⟨c.toInt, o⟩ ∧ InOrder c o rows := by
  have he : sortColumn P c.toInt o t = (.ok (), t) := sortColumn_explicit c.toInt ho
  constructor
  · rintro ⟨t', h⟩
    obtain rfl : t = t' := (Prod.mk.inj (he.symm.trans h.returns)).2
    obtain ⟨rows', hd', hs⟩ := h.rows
    obtain rfl : rows = rows' := Option.some.inj (hd.symm.trans hd')
    exact ⟨h.recorded, hs.order⟩
  · rintro ⟨hr, hio⟩
    refine ⟨t, he, ⟨rows, hd, sortedFrom_self hio⟩, hr, fun listing => ?_, he⟩
    have hc : t.sorted.column = c.toInt := by rw [hr]
    obtain ⟨rows', hs, hu⟩ := @updateData_ok P t c (fun _ => .ok listing) listing rfl hc hk
    rw [hr] at hs
    exact ⟨rows', hs, hu⟩

theorem explicit_sort_recorded :
    let t : WmiProcessTable :=
      { mData := some [process 4 1, process 8 2]
        sorted := ⟨ColumnNumber.ProcessId.toInt, .Ascending⟩ }
    ∃ t', Honoured .ascii [process 4 1, process 8 2] t t' .ProcessId .Ascending :=
  (explicit_sort_iff (c := .ProcessId) (o := .Ascending) .ascii rfl rfl nofun).mpr
    ⟨rfl, by decide⟩

/-- A new table, asked for an order: nothing happens. -/
theorem explicit_sort_ignored :
    let t := WmiProcessTable.ofData [process 8 2, process 4 1]
    sortColumn .ascii ColumnNumber.ProcessId.toInt .Ascending t = (.ok (), t) ∧
      ¬ InOrder .ProcessId .Ascending [process 8 2, process 4 1] ∧
      t.sorted ≠ ⟨ColumnNumber.ProcessId.toInt, .Ascending⟩ := by
  exact ⟨rfl, by decide, by decide⟩

/-! ## A history of sorts -/

/-- What `sort_column( c, Next )` records. -/
def record (so : Sorted) (c : ColumnNumber) : Sorted := ⟨c.toInt, so.sortOrder.next⟩

/-- The sorts of the clicks, from a table that records `so`. -/
def sorts (so : Sorted) : List ColumnNumber → List (ColumnNumber × SortOrder)
  | [] => []
  | c :: cs => (c, so.sortOrder.next) :: sorts (record so c) cs

/-- By `r`, and before it by the sorts, the last one first. -/
def byLast (r : WmiProcess → WmiProcess → Bool) (ks : List (ColumnNumber × SortOrder)) :
    WmiProcess → WmiProcess → Bool :=
  ks.foldl (fun r k => thenBy (before k.1 k.2) r) r

/-- The last sort that tells the records apart puts `a` before `b`. -/
def putBefore (ks : List (ColumnNumber × SortOrder)) (a b : WmiProcess) : Bool :=
  byLast (fun _ _ => false) ks a b

/-- `sort_column( c, Next )` for each column. -/
def clicks (cs : List ColumnNumber) : List TableOp :=
  cs.map fun c => .sortColumn c.toInt .Next

theorem sorts_append (so : Sorted) (cs : List ColumnNumber) (c : ColumnNumber) :
    sorts so (cs ++ [c]) = sorts so cs ++ [(c, (cs.foldl record so).sortOrder.next)] := by
  induction cs generalizing so with
  | nil => rfl
  | cons d cs ih =>
    show _ :: sorts (record so d) (cs ++ [c]) = _
    rw [ih (record so d)]
    rfl

/-- A sort does not put a record before itself. -/
theorem byLast_irrefl {r : WmiProcess → WmiProcess → Bool} {x : WmiProcess} (hr : r x x = false)
    (ks : List (ColumnNumber × SortOrder)) : byLast r ks x x = false := by
  induction ks generalizing r with
  | nil => exact hr
  | cons k ks ih =>
    refine ih (r := thenBy (before k.1 k.2) r) (thenBy_eq_false.mpr ⟨?_, fun _ => hr⟩)
    exact (before_weak k.1 k.2 fun _ => True).irrefl trivial

section

variable {P : Platform} {t : WmiProcessTable} {listing rows : List WmiProcess}

/-- One click sorts the rows that the clicks before it left. -/
theorem click_sorted {r : WmiProcess → WmiProcess → Bool} {c : ColumnNumber}
    (hd : t.mData = some rows) (hs : IsStableSort r listing rows) (hk : isText c = false) :
    ∃ rows', IsStableSort (thenBy (before c t.sorted.sortOrder.next) r) listing rows' ∧
      TableOp.step P t (.sortColumn c.toInt .Next) =
        some { t with mData := some rows', sorted := record t.sorted c } := by
  obtain ⟨rows', he, hs'⟩ := sortTableOnColumn_stable P hk t.sorted.sortOrder.next rows
  refine ⟨rows', hs.thenBy (before_weak c _ _) hs', ?_⟩
  rw [TableOp.step, TableOp.exec, sortColumn_next_eq hd, he]
  rfl

/-- The rows after the clicks. -/
theorem clicks_sorted {r : WmiProcess → WmiProcess → Bool} (cs : List ColumnNumber)
    (hd : t.mData = some rows) (hs : IsStableSort r listing rows) (hk : ∀ c ∈ cs, isText c = false) :
    ∃ rows', IsStableSort (byLast r (sorts t.sorted cs)) listing rows' ∧
      run (TableOp.step P) t (clicks cs) =
        some { t with mData := some rows', sorted := cs.foldl record t.sorted } := by
  induction cs generalizing t rows r with
  | nil =>
    refine ⟨rows, hs, ?_⟩
    show some t = _
    rw [← hd]
    rfl
  | cons c cs ih =>
    obtain ⟨rows₁, hs₁, h₁⟩ := click_sorted (P := P) hd hs (hk c List.mem_cons_self)
    obtain ⟨rows', hs', h'⟩ :=
      ih (t := { t with mData := some rows₁, sorted := record t.sorted c }) rfl hs₁
        fun d hd => hk d (List.mem_cons_of_mem _ hd)
    exact ⟨rows', hs', run_cons_eq_some.mpr ⟨_, h₁, h'⟩⟩

/-- Rows in order of a column have its keys in the same places. -/
theorem keys_eq {c : ColumnNumber} {o : SortOrder} {rows' : List WmiProcess}
    (hp : rows'.Perm rows) (h : InOrder c o rows) (h' : InOrder c o rows') :
    rows'.map (key c) = rows.map (key c) := by
  have hperm : (rows'.map (key c)).Perm (rows.map (key c)) := hp.map _
  have keys : ∀ {l}, InOrder c o l →
      (l.map (key c)).Pairwise fun i j => if o = .Ascending then i ≤ j else j ≤ i := fun h =>
    List.pairwise_map.mpr h
  refine hperm.eq_of_pairwise (fun i j _ _ hij hji => ?_) (keys h') (keys h)
  by_cases ho : o = .Ascending
  · rw [if_pos ho] at hij hji
    omega
  · rw [if_neg ho] at hij hji
    omega

end

/-- After any clicks, a refresh that fetches the listing the table was built
from brings the same keys in the column of the last click, and the same rows if
and only if each two processes of one key come in the listing in the order that
the last of the earlier sorts that tells them apart put them in. -/
theorem refresh_moves_nothing_iff (P : Platform) {t : WmiProcessTable} {listing : List WmiProcess}
    {fetch : WString → Outcome Exn (List WmiProcess)} (hd : t.mData = some listing)
    (hf : fetch t.mRemoteHost = .ok listing) (cs : List ColumnNumber) (c : ColumnNumber)
    (hk : ∀ d ∈ cs ++ [c], isText d = false) :
    ∃ t' rows rows', run (TableOp.step P) t (clicks (cs ++ [c])) = some t' ∧
      t'.mData = some rows ∧
      updateData P fetch t' = (.ok (), { t' with mData := some rows' }) ∧
      rows'.map (key c) = rows.map (key c) ∧
      (rows' = rows ↔
        listing.Pairwise fun x y => key c x = key c y → putBefore (sorts t.sorted cs) y x = false) := by
  have hkc : isText c = false := hk c (by simp)
  obtain ⟨rows, hs, hrun⟩ := clicks_sorted (P := P) (cs ++ [c]) hd (.refl listing) hk
  rw [sorts_append, byLast, List.foldl_append] at hs
  rw [List.foldl_append] at hrun
  have hs : IsStableSort (thenBy (before c (cs.foldl record t.sorted).sortOrder.next)
      (putBefore (sorts t.sorted cs))) listing rows := hs
  generalize ho : (cs.foldl record t.sorted).sortOrder.next = o at hs
  have hso : [c].foldl record (cs.foldl record t.sorted) = ⟨c.toInt, o⟩ := by
    rw [← ho]
    rfl
  rw [hso] at hrun
  obtain ⟨rows', he, hs'⟩ := sortTableOnColumn_stable P hkc o listing
  refine ⟨_, rows, rows', hrun, rfl, ?_, ?_, ?_⟩
  · rw [updateData_eq, hf, Outcome.ok_bind, he]
  · have horder : InOrder c o rows :=
      inOrder_iff.mpr (hs.sorted.imp fun h => (thenBy_eq_false.mp h).1)
    exact keys_eq (hs'.perm.trans hs.perm.symm) horder (inOrder_iff.mpr hs'.sorted)
  · have hw := before_weak c o (· ∈ listing)
    have hirrefl : ∀ a ∈ listing, putBefore (sorts t.sorted cs) a a = false := fun a _ =>
      byLast_irrefl rfl _
    have hiff := hs.of_thenBy_iff hw hirrefl
    have htied : ∀ x y, tied (before c o) x y = true ↔ key c x = key c y := by
      intro x y
      rw [tied_before, decide_eq_true_eq, eq_comm]
    simp only [htied] at hiff
    rw [← hiff]
    constructor
    · rintro rfl
      exact hs'
    · intro h
      exact hs'.unique (fun a ha => hw.irrefl ha) h

/-- Two processes of one number of threads. -/
def alike : List WmiProcess := [process 8 1, process 4 1]

/-- One column, clicked twice. -/
theorem refresh_moves_nothing_twice :
    ∃ t' rows,
      run (TableOp.step .ascii) (.ofData alike) (clicks [.ThreadCount, .ThreadCount]) = some t' ∧
      t'.mData = some rows ∧ updateData .ascii (fun _ => .ok alike) t' = (.ok (), t') := by
  obtain ⟨t', rows, rows', hrun, hd, hu, -, hiff⟩ :=
    @refresh_moves_nothing_iff .ascii (.ofData alike) alike (fun _ => .ok alike) rfl rfl
      [.ThreadCount] .ThreadCount (by decide)
  obtain rfl : rows' = rows := hiff.mpr (by decide)
  refine ⟨t', rows', hrun, hd, ?_⟩
  rw [hu, ← hd]

/-- Two columns: the second click finds no difference and keeps the order of
the first, the refresh does not. -/
theorem refresh_moves_alike :
    let sorted := clicks [.ProcessId, .ThreadCount]
    (run (TableOp.step .ascii) (.ofData alike) sorted).map WmiProcessTable.mData =
        some (some [process 4 1, process 8 1]) ∧
      (run (TableOp.step .ascii) (.ofData alike) (sorted ++ [.updateData alike])).map
        WmiProcessTable.mData = some (some [process 8 1, process 4 1]) := by
  exact ⟨by decide, by decide⟩

end RTM.Proof.SortColumn
