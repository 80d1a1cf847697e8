import RemoteTaskManager.Proof.Pages
import RemoteTaskManager.Proof.Serial
import RemoteTaskManager.Proof.TextSort

/-!
# The rows of a history

What a table shows is told by the operations done on it: the listing fetched
last, sorted by every column sorted on since then, the last one first, and before
these by the column of that fetch (`tells_run`). It is so on every column, as long
as no ascending sort meets two texts one of which begins the other. A page whose
clicks and refreshes keep apart shows what its operations tell (`page_history`).
-/

namespace RTM.Proof.Histories

open RTM.Impl RTM.Spec RTM.Proof.Page RTM.Proof.WmiProcessTable RTM.Proof.Serial
open RTM.Proof.ColumnItems (named)
open RTM.Proof.TextSort (Distinct precedes_weak sortTableOnColumn_precedes)
open RTM.Impl.RemoteTaskManagementFrame (makePage)
open RTM.Impl.WmiProcessTable (updateData)
open RTM.Impl.Page (step)

/-- A listing, and what it was sorted on since it was fetched. -/
structure History where
  listing : List WmiProcess
  sorts : List (ColumnNumber × SortOrder)
  /-- The sort done last. -/
  last : ColumnNumber × SortOrder

namespace History

/-- The listing is sorted once more, or another one is fetched and sorted as the
last one was at last. -/
def next (h : History) : TableOp → History
  | .sortColumn col .Next =>
    match ColumnNumber.ofInt col with
    | some c =>
      { h with sorts := h.sorts ++ [(c, h.last.2.next)], last := (c, h.last.2.next) }
    | none => h
  | .sortColumn _ _ => h
  | .updateData listing => { h with listing, sorts := [h.last] }
  | .changeHost _ listing => { h with listing, sorts := [h.last] }

/-- The operation sorts on a column of the grid, which tells the rows apart. -/
def Allows (P : Platform) (h : History) : TableOp → Prop
  | .sortColumn col .Next =>
    ∃ c, col = ColumnNumber.toInt c ∧ Distinct P c h.last.2.next (· ∈ h.listing)
  | .sortColumn _ _ => True
  | .updateData listing => Distinct P h.last.1 h.last.2 (· ∈ listing)
  | .changeHost _ listing => Distinct P h.last.1 h.last.2 (· ∈ listing)

/-- Every operation is one that the history before it allows. -/
def AllowsAll (P : Platform) : History → List TableOp → Prop :=
  AllSteps (fun h op => some (h.next op)) (Allows P)

/-- The history of a page that `add_page` makes of a listing. -/
def ofListing (listing : List WmiProcess) : History where
  listing
  sorts := [(.CreationDate, .Ascending)]
  last := (.CreationDate, .Ascending)

end History

/-- The rows are the listing in the order of the sorts, the last one first. -/
structure Tells (P : Platform) (h : History) (t : WmiProcessTable) : Prop where
  sorted : t.sorted = ⟨h.last.1.toInt, h.last.2⟩
  rows : ∃ rows, t.mData = some rows ∧ IsStableSort (inTurn P h.sorts) h.listing rows

section

variable {P : Platform} {h : History} {t : WmiProcessTable} {op : TableOp} {c : ColumnNumber}
  {o : SortOrder} {listing rows : List WmiProcess}

theorem inTurn_append (ks : List (ColumnNumber × SortOrder)) (k : ColumnNumber × SortOrder) :
    inTurn P (ks ++ [k]) = thenBy (precedes P k.1 k.2) (inTurn P ks) := by
  rw [inTurn, List.foldl_append]
  rfl

/-- Rows sorted on one column. -/
theorem isStableSort_one (h : IsStableSort (precedes P c o) listing rows) :
    IsStableSort (inTurn P [(c, o)]) listing rows := by
  have hone : inTurn P [(c, o)] = thenBy (precedes P c o) fun _ _ => false := rfl
  rw [hone]
  exact (IsStableSort.refl listing).thenBy (precedes_weak P c o _) h

/-- A sort with an explicit order changes nothing. -/
theorem step_explicit (col : BitVec 32) (ho : o ≠ .Next) :
    TableOp.step P t (.sortColumn col o) = some t := by
  rw [TableOp.step, TableOp.exec, sortColumn_explicit col ho]

/-- A sort for `Next` is one more. -/
theorem tells_next (hi : Tells P h t) (hd : Distinct P c h.last.2.next (· ∈ h.listing)) :
    ∃ t', TableOp.step P t (.sortColumn c.toInt .Next) = some t' ∧
      Tells P (h.next (.sortColumn c.toInt .Next)) t' := by
  obtain ⟨rows, hr, hs⟩ := hi.rows
  have mem : ∀ {x}, x ∈ rows → x ∈ h.listing := fun hx => hs.perm.mem_iff.mp hx
  have hd' : Distinct P c h.last.2.next (· ∈ rows) := fun ht ho x y hx hy =>
    hd ht ho x y (mem hx) (mem hy)
  obtain ⟨rows', he, hs'⟩ := sortTableOnColumn_precedes hd'
  refine ⟨{ t with mData := some rows', sorted := ⟨c.toInt, h.last.2.next⟩ }, ?_, ?_⟩
  · rw [TableOp.step, TableOp.exec, sortColumn_next_eq hr, hi.sorted, he]
  · rw [History.next, ColumnNumber.ofInt_toInt]
    refine ⟨rfl, rows', rfl, ?_⟩
    rw [inTurn_append]
    exact hs.thenBy (precedes_weak P _ _ _) hs'

/-- A listing is fetched and sorted. -/
theorem tells_fetched (hi : Tells P h t) (hd : Distinct P h.last.1 h.last.2 (· ∈ listing))
    (host : WString) :
    ∃ t', updateData P (fun _ => .ok listing) { t with mRemoteHost := host } = (.ok (), t') ∧
      Tells P { h with listing, sorts := [h.last] } t' := by
  obtain ⟨rows', he, hs⟩ := sortTableOnColumn_precedes hd
  refine ⟨{ t with mRemoteHost := host, mData := some rows' }, ?_, hi.sorted, rows', rfl,
    isStableSort_one hs⟩
  rw [updateData_eq, Outcome.ok_bind, hi.sorted, he]

theorem tells_step (hi : Tells P h t) (ho : h.Allows P op) :
    ∃ t', TableOp.step P t op = some t' ∧ Tells P (h.next op) t' := by
  cases op with
  | sortColumn col so =>
    cases so with
    | Next =>
      obtain ⟨c, rfl, hd⟩ := ho
      exact tells_next hi hd
    | Ascending => exact ⟨t, step_explicit col (by decide), hi⟩
    | Descending => exact ⟨t, step_explicit col (by decide), hi⟩
  | updateData listing =>
    obtain ⟨t', he, ht⟩ := tells_fetched hi ho t.mRemoteHost
    exact ⟨t', by rw [TableOp.step, TableOp.exec, he], ht⟩
  | changeHost host listing =>
    obtain ⟨t', he, ht⟩ := tells_fetched hi ho host
    exact ⟨t', by rw [TableOp.step, TableOp.exec, changeHost_eq, he], ht⟩

/-- Operations that the history allows return, with the rows that it tells. -/
theorem tells_run {ops : List TableOp} (hi : Tells P h t) (ho : h.AllowsAll P ops) :
    ∃ t', run (TableOp.step P) t ops = some t' ∧ Tells P (ops.foldl History.next h) t' := by
  induction ops generalizing t h with
  | nil => exact ⟨t, rfl, hi⟩
  | cons op ops ih =>
    obtain ⟨hop, ho⟩ := (allSteps_cons rfl).mp ho
    obtain ⟨u, hu, hi⟩ := tells_step hi hop
    obtain ⟨t', ht', hi'⟩ := ih hi ho
    exact ⟨t', run_cons_eq_some.mpr ⟨u, hu, ht'⟩, hi'⟩

end

/-- In every run of a page that `add_page` made, if its steps keep apart and its
operations sort on columns that tell the rows apart, the rows are the listing
published last, or the first one, in the order of the columns clicked since then,
the last one first, and before these of the column it was sorted on when it was
fetched. -/
theorem page_history {P : Platform} {fetch : Fetch} {host : WString} {listing : List WmiProcess}
    (hf : fetch host = .ok listing) {acts : List Act}
    (ho : (History.ofListing listing).AllowsAll P (serial acts)) :
    ∃ p, makePage P fetch host = .ok p ∧ (AllSteps (step P) Apart p.page acts →
      ∀ s, run (step P) p.page acts = some s →
        Tells P ((serial acts).foldl History.next (.ofListing listing)) (effect s)) := by
  obtain ⟨rows, hs, hp⟩ := Pages.makePage_ok (P := P) hf
  refine ⟨_, hp, fun hg s hrun => ?_⟩
  have hi : Tells P (.ofListing listing)
      ⟨host, some rows, ⟨ColumnNumber.CreationDate.toInt, .Ascending⟩⟩ :=
    ⟨rfl, rows, rfl, isStableSort_one hs.isStableSort⟩
  obtain ⟨t', ht', hi'⟩ := tells_run hi ho
  obtain ⟨hserial, -⟩ := page_serial P _ hg hrun
  rw [hserial] at ht'
  exact Option.some.inj ht' ▸ hi'

/-- Three processes, the name of one of which begins another's. -/
def services : List WmiProcess := [named "svc", named "svchost", named "smss"]

/-- A click on the names while they are listed anew. -/
def namesClicked : List Act :=
  [.tick .async, .fetch services, .takeData ColumnNumber.Name.toInt, .sortData, .writeColumn,
    .readColumn, .writeSortOrder, .sortNew, .publish]

/-- The first click sorts downwards, on any names. -/
theorem page_history_names :
    let page := Page.ofTable
      ⟨wide "host", some services, ⟨ColumnNumber.CreationDate.toInt, .Ascending⟩⟩
    ∃ s ∈ run (step .ascii) page namesClicked,
      Tells .ascii ⟨services, [(.Name, .Descending)], (.Name, .Descending)⟩ (effect s) := by
  intro page
  have hallows : (History.ofListing services).AllowsAll .ascii (serial namesClicked) := by
    refine ⟨⟨.Name, rfl, nofun⟩, fun h hh => ?_⟩
    cases hh
    exact ⟨nofun, fun _ _ => trivial⟩
  obtain ⟨p, hp, h⟩ := @page_history .ascii (fun _ => .ok services) (wide "host") services rfl _ hallows
  have hmake : makePage .ascii (fun _ => .ok services) (wide "host") =
      .ok ⟨wide "host", wide "host", page⟩ := rfl
  obtain rfl := Outcome.ok.inj (hp.symm.trans hmake)
  obtain ⟨s, hs⟩ := Option.isSome_iff_exists.mp
    (show (run (step .ascii) page namesClicked).isSome by decide)
  exact ⟨s, hs, h (by decide) s hs⟩

end RTM.Proof.Histories
