import RemoteTaskManager.Proof.Refresh

/-!
# A page as a table on its own

A click on a header and a refresh are several steps each, and a page runs them
at the same time. In every run in which neither reads or writes `sorted` while
the other is in the middle of it (`Apart`), the page is what the operations
make of its table one after the other, a click where it sorts and a refresh
where it publishes (`page_serial`).
-/

namespace RTM.Proof.Serial

open RTM.Impl RTM.Spec RTM.Proof.Page RTM.Proof.WmiProcessTable
open RTM.Proof.Refresh (clicking)
open RTM.Impl.Page (step)

/-! ## The order of the operations -/

/-- The operations done, and what those under way were begun with. -/
structure Order where
  /-- The column clicked last, at first the one that `add_page` sorts on. -/
  col : BitVec 32 := ColumnNumber.CreationDate.toInt
  /-- The listing fetched last. -/
  listing : List WmiProcess := []
  ops : List TableOp := []

/-- A click is done where it sorts, a refresh where it publishes. -/
def Order.next (g : Order) : Act → Order
  | .takeData col => { g with col := col }
  | .fetch listing => { g with listing := listing }
  | .sortData => { g with ops := g.ops ++ [.sortColumn g.col .Next] }
  | .publish => { g with ops := g.ops ++ [.updateData g.listing] }
  | _ => g

/-- The operations of a run, one after the other. -/
def serial (acts : List Act) : List TableOp := (acts.foldl Order.next {}).ops

/-! ## Steps that keep apart -/

/-- Whether the task has read what to sort on, and has not published. -/
def hasRead : Update → Bool
  | .readColumn .. | .sorted .. => true
  | _ => false

/-- Whether a click has taken the rows, and has not sorted them. -/
def taking : Handler → Bool
  | .tookData .. => true
  | _ => false

/-- Whether a click has yet to record the column. -/
def sortedRows : Handler → Bool
  | .sortedData .. => true
  | _ => false

/-- Whether a click has sorted the rows, and has yet to record all of it. -/
def recording : Handler → Bool
  | .sortedData .. | .wroteColumn .. => true
  | _ => false

/-- Neither the task nor a click goes on while the other is in the middle of
what it would read or replace. -/
def Apart (s : Page) : Act → Prop
  | .sortData => hasRead s.update = false
  | .readColumn => sortedRows s.handler = false
  | .sortNew => recording s.handler = false
  | .publish => taking s.handler = false
  | _ => True

instance (s : Page) : ∀ a, Decidable (Apart s a)
  | .sortData => inferInstanceAs (Decidable (_ = _))
  | .readColumn => inferInstanceAs (Decidable (_ = _))
  | .sortNew => inferInstanceAs (Decidable (_ = _))
  | .publish => inferInstanceAs (Decidable (_ = _))
  | .tick _ | .fetch _ | .fetchThrows _ | .takeData _ | .writeColumn | .writeSortOrder
  | .rightClick _ | .readName | .selectClose | .dismiss => isTrue trivial

/-- `sorted` once the click under way, if it has sorted, has recorded it. -/
def settled (s : Page) : Sorted :=
  match s.handler with
  | .sortedData col o | .wroteColumn col o => ⟨col, o⟩
  | _ => s.sorted

/-- The table that the operations done so far make. -/
def effect (s : Page) : WmiProcessTable := ⟨s.mRemoteHost, s.rows, settled s⟩

theorem settled_of_recording {s : Page} (h : recording s.handler = false) :
    settled s = s.sorted := by
  unfold settled
  split <;> simp_all [recording]

theorem effect_of_not_clicking {s : Page} (h : clicking s.handler = false) :
    effect s = s.table := by
  have hr : recording s.handler = false := by
    cases hh : s.handler <;> simp_all [clicking, recording]
  rw [effect, settled_of_recording hr, Page.table]

/-- The operations done make the table of the page; those under way go on with
what they were begun with. -/
structure Done (P : Platform) (t : WmiProcessTable) (g : Order) (s : Page) : Prop where
  run : run (TableOp.step P) t g.ops = some (effect s)
  took : ∀ col p, s.handler = .tookData col p → g.col = col ∧ s.mData = some p
  wrote : ∀ col o, s.handler = .wroteColumn col o → s.sorted.column = col
  fetched : ∀ ptr, s.update = .fetched ptr → g.listing = ptr
  read : ∀ ptr col, s.update = .readColumn ptr col → g.listing = ptr ∧ (settled s).column = col
  sorted : ∀ ptr col o, s.update = .sorted ptr col o →
    sortTableOnColumn P g.listing (settled s).column (settled s).sortOrder = .ok ptr

theorem done_ofTable (P : Platform) (t : WmiProcessTable) : Done P t {} (Page.ofTable t) where
  run := by
    obtain ⟨host, data, so⟩ := t
    cases data <;> rfl
  took := nofun
  wrote := nofun
  fetched := nofun
  read := nofun
  sorted := nofun

section

variable {P : Platform} {t₀ : WmiProcessTable} {g : Order} {s t : Page} {a : Act}

theorem tick_mRemoteHost (l : Launch) (s : Page) : (s.tick l).mRemoteHost = s.mRemoteHost := by
  unfold Page.tick; split <;> rfl

/-- A step that leaves the table alone, and what the task holds. -/
theorem Done.congr (hi : Done P t₀ g s) (hh : t.mRemoteHost = s.mRemoteHost)
    (hr : t.rows = s.rows) (hset : settled t = settled s)
    (hu : t.update = s.update ∨ holdsListing t.update = false)
    (took : ∀ col p, t.handler = .tookData col p → g.col = col ∧ t.mData = some p)
    (wrote : ∀ col o, t.handler = .wroteColumn col o → t.sorted.column = col) :
    Done P t₀ g t := by
  have heff : effect t = effect s := by rw [effect, effect, hh, hr, hset]
  have hold {u : Update} (h : holdsListing u = true) (ht : t.update = u) : s.update = u := by
    rcases hu with hu | hu
    · exact hu.symm.trans ht
    · rw [ht, h] at hu
      cases hu
  refine ⟨heff ▸ hi.run, took, wrote, fun ptr h => ?_, fun ptr col h => ?_, fun ptr col o h => ?_⟩
  · exact hi.fetched ptr (hold rfl h)
  · rw [hset]
    exact hi.read ptr col (hold rfl h)
  · rw [hset]
    exact hi.sorted ptr col o (hold rfl h)

/-- A click begins while none has the rows. -/
theorem Done.click (hi : Done P t₀ g s) (h : taking s.handler = false) (col : BitVec 32) :
    Done P t₀ { g with col := col } s := by
  refine ⟨hi.run, fun c p e => ?_, hi.wrote, hi.fetched, hi.read, hi.sorted⟩
  rw [e] at h
  cases h

/-- A click has sorted: the table has done `sort_column`. -/
theorem done_sortData (hi : Done P t₀ g s) (ha : Apart s .sortData)
    (h : step P s .sortData = some t) : Done P t₀ (g.next .sortData) t := by
  obtain ⟨col, p, tbl, tbl', hh, hv, hs, rfl⟩ := step_sortData h
  obtain ⟨hcol, hd⟩ := hi.took col p hh
  have hp : p < s.vectors.length := (List.getElem?_eq_some_iff.mp hv).1
  have heff : effect s = ⟨s.mRemoteHost, some tbl, s.sorted⟩ := by
    rw [effect, settled_of_recording (by rw [hh]; rfl), Page.rows, hd, Option.bind_some, hv]
  have hop : TableOp.step P (effect s) (.sortColumn g.col .Next) =
      some ⟨s.mRemoteHost, some tbl', ⟨col, s.sorted.sortOrder.next⟩⟩ := by
    rw [heff, TableOp.step, TableOp.exec, sortColumn_next_eq rfl, hcol, hs]
  have hread : hasRead s.update = false := ha
  have hrun : run (TableOp.step P) t₀ (g.ops ++ [.sortColumn g.col .Next]) =
      some ⟨s.mRemoteHost, some tbl', ⟨col, s.sorted.sortOrder.next⟩⟩ := by
    rw [run_append hi.run, run, hop, Option.bind_some, run_nil]
  refine ⟨?_, fun _ _ e => (by cases e), fun _ _ e => (by cases e), hi.fetched, fun ptr c e => ?_,
    fun ptr c o e => ?_⟩
  · refine hrun.trans (congrArg some ?_)
    simp [effect, settled, Page.rows, hd, hp]
  · rw [show s.update = .readColumn ptr c from e] at hread
    cases hread
  · rw [show s.update = .sorted ptr c o from e] at hread
    cases hread

/-- A refresh has published: the table has done `update_data`. -/
theorem done_publish (hi : Done P t₀ g s) (ha : Apart s .publish)
    (h : step P s .publish = some t) : Done P t₀ (g.next .publish) t := by
  obtain ⟨ptr, col, o, hu, rfl⟩ := step_publish h
  have hs := hi.sorted ptr col o hu
  have hop : TableOp.step P (effect s) (.updateData g.listing) =
      some { effect s with mData := some ptr } := by
    rw [TableOp.step, TableOp.exec, updateData_eq, Outcome.ok_bind, effect, hs]
  have htaking : taking s.handler = false := ha
  have hrun : run (TableOp.step P) t₀ (g.ops ++ [.updateData g.listing]) =
      some { effect s with mData := some ptr } := by
    rw [run_append hi.run, run, hop, Option.bind_some, run_nil]
  refine ⟨?_, fun c p e => ?_, hi.wrote, fun _ e => (by cases e), fun _ _ e => (by cases e),
    fun _ _ _ e => by cases e⟩
  · refine hrun.trans (congrArg some ?_)
    simp [effect, settled, Page.rows]
  · rw [show s.handler = .tookData c p from e] at htaking
    cases htaking

theorem done_readColumn (hi : Done P t₀ g s) (ha : Apart s .readColumn)
    (h : step P s .readColumn = some t) : Done P t₀ g t := by
  obtain ⟨ptr, hu, rfl⟩ := step_readColumn h
  have hcol : (settled s).column = s.sorted.column := by
    unfold settled
    split
    · rename_i col o hh
      have ha : sortedRows s.handler = false := ha
      rw [hh] at ha
      cases ha
    · -- A click that has recorded its column is about to record the rest.
      rename_i col o hh
      exact (hi.wrote col o hh).symm
    · rfl
  refine ⟨hi.run, hi.took, hi.wrote, fun _ e => (by cases e), fun ptr' col e => ?_,
    fun _ _ _ e => by cases e⟩
  cases e
  exact ⟨hi.fetched ptr hu, hcol⟩

theorem done_sortNew (hi : Done P t₀ g s) (ha : Apart s .sortNew)
    (h : step P s .sortNew = some t) : Done P t₀ g t := by
  obtain ⟨ptr, col, ptr', hu, hs, rfl⟩ := step_sortNew h
  obtain ⟨hl, hc⟩ := hi.read ptr col hu
  have hset : settled s = s.sorted := settled_of_recording ha
  refine ⟨hi.run, hi.took, hi.wrote, fun _ e => (by cases e), fun _ _ e => (by cases e), fun _ _ _ e => ?_⟩
  cases e
  rw [← hl, ← hc, ← hset] at hs
  exact hs

theorem done_step (hi : Done P t₀ g s) (ha : Apart s a) (h : step P s a = some t) :
    Done P t₀ (g.next a) t := by
  cases a with
  | tick l =>
    obtain ⟨-, hh, rfl⟩ := step_tick h
    have hr : (s.tick l).rows = s.rows := by rw [Page.rows, Page.rows, tick_mData, tick_vectors]
    have hset : settled (s.tick l) = settled s := by
      rw [settled, settled, tick_handler, tick_sorted]
    refine hi.congr (tick_mRemoteHost l s) hr hset (tick_update l s) ?_ ?_
    · rw [tick_handler, hh]
      exact fun _ _ e => by cases e
    · rw [tick_handler, hh]
      exact fun _ _ e => by cases e
  | fetch listing =>
    obtain ⟨-, rfl⟩ := step_fetch h
    refine ⟨hi.run, hi.took, hi.wrote, fun ptr e => ?_, fun _ _ e => (by cases e), fun _ _ _ e => by cases e⟩
    cases e
    rfl
  | fetchThrows e =>
    obtain ⟨-, rfl⟩ := step_fetchThrows h
    exact hi.congr rfl rfl rfl (.inr rfl) hi.took hi.wrote
  | readColumn => exact done_readColumn hi ha h
  | sortNew => exact done_sortNew hi ha h
  | publish => exact done_publish hi ha h
  | takeData col =>
    obtain ⟨hh, -, h⟩ := step_takeData h
    have hi' : Done P t₀ (g.next (.takeData col)) s := hi.click (by rw [hh]; rfl) col
    obtain ⟨-, rfl⟩ | ⟨p, hp, rfl⟩ := h
    · exact hi'
    · have hset : settled s = s.sorted := settled_of_recording (by rw [hh]; rfl)
      refine hi'.congr rfl rfl hset.symm (.inl rfl) (fun c q e => ?_) fun _ _ e => by cases e
      cases e
      exact ⟨rfl, hp⟩
  | sortData => exact done_sortData hi ha h
  | writeColumn =>
    obtain ⟨col, o, hh, rfl⟩ := step_writeColumn h
    have hset : settled s = ⟨col, o⟩ := by rw [settled, hh]
    refine hi.congr rfl rfl hset.symm (.inl rfl) (fun _ _ e => by cases e) fun c o' e => ?_
    cases e
    rfl
  | writeSortOrder =>
    obtain ⟨col, o, hh, rfl⟩ := step_writeSortOrder h
    have hset : settled s = ⟨s.sorted.column, o⟩ := by rw [settled, hh, hi.wrote col o hh]
    exact hi.congr rfl rfl hset.symm (.inl rfl) (fun _ _ e => by cases e) fun _ _ e => by cases e
  | rightClick row =>
    obtain ⟨hh, -, -, shown, pid, -, -, rfl⟩ := step_rightClick h
    have hset : settled s = s.sorted := settled_of_recording (by rw [hh]; rfl)
    exact hi.congr rfl rfl hset.symm (.inl rfl) (fun _ _ e => by cases e) fun _ _ e => by cases e
  | readName =>
    obtain ⟨row, shown, pid, name, hh, -, rfl⟩ := step_readName h
    have hset : settled s = s.sorted := settled_of_recording (by rw [hh]; rfl)
    exact hi.congr rfl rfl hset.symm (.inl rfl) (fun _ _ e => by cases e) fun _ _ e => by cases e
  | selectClose =>
    obtain ⟨p, -, rfl⟩ := step_selectClose h
    exact hi.congr rfl rfl rfl (.inl rfl) hi.took hi.wrote
  | dismiss =>
    obtain rfl := step_dismiss h
    exact hi.congr rfl rfl rfl (.inl rfl) hi.took hi.wrote

theorem done_run {acts : List Act} (hi : Done P t₀ g s) (hg : AllSteps (step P) Apart s acts)
    (h : run (step P) s acts = some t) : Done P t₀ (acts.foldl Order.next g) t :=
  run_inv_foldl_of_allSteps (G := Apart) (fun hi ha h => done_step hi ha h) hi hg h

end

/-- In every run whose steps keep apart, the operations, one after the other,
take the table the page was made of to the table of the page, as it is once the
click under way has recorded what it sorted on. -/
theorem page_serial (P : Platform) (t : WmiProcessTable) {acts : List Act} {s : Page}
    (hg : AllSteps (step P) Apart (Page.ofTable t) acts)
    (h : run (step P) (Page.ofTable t) acts = some s) :
    run (TableOp.step P) t (serial acts) = some (effect s) ∧
      (clicking s.handler = false → effect s = s.table) :=
  ⟨(done_run (done_ofTable P t) hg h).run, effect_of_not_clicking⟩

/-- Three processes, sorted on their pids. -/
def threeByPid : WmiProcessTable where
  mData := some [process 4 2, process 8 1, process 12 3]
  sorted := ⟨ColumnNumber.ProcessId.toInt, .Ascending⟩

/-- A refresh that fetches the same three. -/
def refetched : List Act := [.tick .async, .fetch [process 4 2, process 8 1, process 12 3]]

/-- A click on the threads while a refresh is under way: it is done before it. -/
def threadsClicked : List Act :=
  refetched ++ [.takeData ColumnNumber.ThreadCount.toInt, .sortData, .writeColumn, .readColumn,
    .writeSortOrder, .sortNew, .publish]

theorem page_serial_clicked :
    ∃ s ∈ run (step .ascii) (Page.ofTable threeByPid) threadsClicked,
      run (TableOp.step .ascii) threeByPid (serial threadsClicked) = some s.table := by
  obtain ⟨s, hs⟩ := Option.isSome_iff_exists.mp
    (show (run (step .ascii) (Page.ofTable threeByPid) threadsClicked).isSome by decide)
  obtain ⟨hrun, heff⟩ := page_serial .ascii threeByPid (by decide) hs
  have hidle : ∀ s ∈ run (step .ascii) (Page.ofTable threeByPid) threadsClicked,
      clicking s.handler = false := by decide
  exact ⟨s, hs, heff (hidle s hs) ▸ hrun⟩

/-- A click on the threads, in the middle of a refresh or around its middle. -/
def overlaps : List (List Act) :=
  let take := Act.takeData ColumnNumber.ThreadCount.toInt
  [[.readColumn, take, .sortData, .writeColumn, .writeSortOrder, .sortNew, .publish],
    [take, .sortData, .readColumn, .writeColumn, .writeSortOrder, .sortNew, .publish],
    [take, .sortData, .writeColumn, .readColumn, .sortNew, .writeSortOrder, .publish],
    [.readColumn, .sortNew, take, .publish, .sortData, .writeColumn, .writeSortOrder]]

/-- None of the four conditions can go: these runs break one each, and neither
order of the two operations makes their table. -/
theorem page_overlaps : ∀ acts ∈ overlaps, ∃ s ∈ run (step .ascii) (Page.ofTable threeByPid)
    (refetched ++ acts), s.handler = .idle ∧ s.update = .returned ∧
      ∀ ops ∈ [serial (refetched ++ acts), (serial (refetched ++ acts)).reverse],
        run (TableOp.step .ascii) threeByPid ops ≠ some s.table := by
  decide +kernel

end RTM.Proof.Serial
