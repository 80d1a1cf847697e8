import RemoteTaskManager.Framework.Run
import RemoteTaskManager.Impl.Frame

/-!
# What a step of a page can do

One lemma for each step: the state it can happen in, and the state after it;
and one for each kind of step, of what it leaves alone (`step_prepares`,
`step_marks`, `step_asks`). The steps of a click and of a refresh, when nothing
comes between them, are `sort_column` and `update_data` of the table
(`run_click`, `run_refresh`).
-/

namespace RTM.Proof.Page

open RTM.Impl
open RTM.Impl.Page (step)

variable {P : Platform} {s t : Page}

/-! ## The timer -/

@[simp] theorem tick_vectors (l : Launch) (s : Page) : (s.tick l).vectors = s.vectors := by
  unfold Page.tick; split <;> rfl

@[simp] theorem tick_mData (l : Launch) (s : Page) : (s.tick l).mData = s.mData := by
  unfold Page.tick; split <;> rfl

@[simp] theorem tick_sorted (l : Launch) (s : Page) : (s.tick l).sorted = s.sorted := by
  unfold Page.tick; split <;> rfl

@[simp] theorem tick_handler (l : Launch) (s : Page) : (s.tick l).handler = s.handler := by
  unfold Page.tick; split <;> rfl

@[simp] theorem tick_popup (l : Launch) (s : Page) : (s.tick l).popup = s.popup := by
  unfold Page.tick; split <;> rfl

@[simp] theorem tick_closed (l : Launch) (s : Page) : (s.tick l).closed = s.closed := by
  unfold Page.tick; split <;> rfl

/-- Whether the task holds a listing. -/
def holdsListing : Update → Bool
  | .fetched _ | .readColumn .. | .sorted .. => true
  | _ => false

/-- The timer leaves the task alone, or one that holds nothing begins or ends. -/
theorem tick_update (l : Launch) (s : Page) :
    (s.tick l).update = s.update ∨ holdsListing (s.tick l).update = false := by
  unfold Page.tick
  split
  · refine .inr ?_
    dsimp only
    split <;> rfl
  · exact .inr rfl
  · exact .inr rfl
  · exact .inl rfl

theorem step_tick {l : Launch} (h : step P s (.tick l) = some t) :
    s.timer = true ∧ s.handler = .idle ∧ t = s.tick l := by
  simp only [step, Option.ite_none_right_eq_some, Option.some.injEq] at h
  exact ⟨h.1.1, h.1.2, h.2.symm⟩

/-! ## The task -/

theorem step_fetch {listing : List WmiProcess} (h : step P s (.fetch listing) = some t) :
    s.update = .started ∧ t = { s with update := .fetched listing } := by
  simp only [step] at h
  split at h <;> cases h
  exact ⟨‹_›, rfl⟩

theorem step_fetchThrows {e : Exn} (h : step P s (.fetchThrows e) = some t) :
    s.update = .started ∧ t = { s with update := .threw e } := by
  simp only [step] at h
  split at h <;> cases h
  exact ⟨‹_›, rfl⟩

theorem step_readColumn (h : step P s .readColumn = some t) :
    ∃ ptr, s.update = .fetched ptr ∧ t = { s with update := .readColumn ptr s.sorted.column } := by
  simp only [step] at h
  split at h <;> cases h
  exact ⟨_, ‹_›, rfl⟩

theorem step_sortNew (h : step P s .sortNew = some t) :
    ∃ ptr col ptr', s.update = .readColumn ptr col ∧
      sortTableOnColumn P ptr col s.sorted.sortOrder = .ok ptr' ∧
      t = { s with update := .sorted ptr' col s.sorted.sortOrder } := by
  simp only [step] at h
  split at h
  · split at h <;> cases h
    exact ⟨_, _, _, ‹_›, ‹_›, rfl⟩
  · cases h

theorem step_publish (h : step P s .publish = some t) :
    ∃ ptr col o, s.update = .sorted ptr col o ∧ t = { s with
      vectors := s.vectors ++ [ptr], mData := some s.vectors.length, update := .returned } := by
  simp only [step] at h
  split at h <;> cases h
  exact ⟨_, _, _, ‹_›, rfl⟩

/-! ## A click on a header -/

theorem step_takeData {col : BitVec 32} (h : step P s (.takeData col) = some t) :
    s.handler = .idle ∧ s.attached = true ∧
      ((s.mData = none ∧ t = s) ∨
        ∃ p, s.mData = some p ∧ t = { s with handler := .tookData col p }) := by
  simp only [step] at h
  split at h
  · rename_i hi
    refine ⟨hi.1, hi.2, ?_⟩
    split at h <;> cases h
    · exact .inl ⟨‹_›, rfl⟩
    · exact .inr ⟨_, ‹_›, rfl⟩
  · cases h

theorem step_sortData (h : step P s .sortData = some t) :
    ∃ col p tbl tbl', s.handler = .tookData col p ∧ s.vectors[p]? = some tbl ∧
      sortTableOnColumn P tbl col s.sorted.sortOrder.next = .ok tbl' ∧ t = { s with
        vectors := s.vectors.set p tbl', handler := .sortedData col s.sorted.sortOrder.next } := by
  simp only [step] at h
  split at h
  · split at h
    · split at h <;> cases h
      exact ⟨_, _, _, _, ‹_›, ‹_›, ‹_›, rfl⟩
    · cases h
  · cases h

theorem step_writeColumn (h : step P s .writeColumn = some t) :
    ∃ col o, s.handler = .sortedData col o ∧ t = { s with
      sorted := { s.sorted with column := col }, handler := .wroteColumn col o } := by
  simp only [step] at h
  split at h <;> cases h
  exact ⟨_, _, ‹_›, rfl⟩

theorem step_writeSortOrder (h : step P s .writeSortOrder = some t) :
    ∃ col o, s.handler = .wroteColumn col o ∧ t = { s with
      sorted := { s.sorted with sortOrder := o }, handler := .idle } := by
  simp only [step] at h
  split at h <;> cases h
  exact ⟨_, _, ‹_›, rfl⟩

/-! ## A click on a row -/

theorem step_rightClick {row : BitVec 32} (h : step P s (.rightClick row) = some t) :
    s.handler = .idle ∧ s.attached = true ∧ row.toNat < s.gridRows ∧
      ∃ shown pid, s.painted[row.toNat]? = some shown ∧
        s.table.getValue row ColumnNumber.ProcessId.toInt = .ok pid ∧
        t = { s with handler := .readPid row shown pid } := by
  simp only [step] at h
  split at h
  · rename_i hi
    refine ⟨hi.1, hi.2.1, hi.2.2, ?_⟩
    split at h <;> cases h
    exact ⟨_, _, ‹_›, ‹_›, rfl⟩
  · cases h

theorem step_readName (h : step P s .readName = some t) :
    ∃ row shown pid name, s.handler = .readPid row shown pid ∧
      s.table.getValue row ColumnNumber.Name.toInt = .ok name ∧
      t = { s with popup := some ⟨toUInt32 P pid, name, shown⟩, handler := .idle } := by
  simp only [step] at h
  split at h
  · split at h <;> cases h
    exact ⟨_, _, _, _, ‹_›, ‹_›, rfl⟩
  · cases h

theorem step_selectClose (h : step P s .selectClose = some t) :
    ∃ p, s.popup = some p ∧ t = { s with popup := none, closed := p :: s.closed } := by
  simp only [step] at h
  split at h <;> cases h
  exact ⟨_, ‹_›, rfl⟩

theorem step_dismiss (h : step P s .dismiss = some t) : t = { s with popup := none } := by
  simp only [step, Option.some.injEq] at h
  exact h.symm

/-! ## What steps leave alone -/

section

variable {a : Act}

/-- The steps of the task before it publishes. -/
def prepares : Act → Bool
  | .fetch _ | .fetchThrows _ | .readColumn | .sortNew => true
  | _ => false

/-- The steps of a click on a header but for the sort. -/
def marks : Act → Bool
  | .takeData _ | .writeColumn | .writeSortOrder => true
  | _ => false

/-- The steps of a click on a row. -/
def asks : Act → Bool
  | .rightClick _ | .readName | .selectClose | .dismiss => true
  | _ => false

/-- Until it publishes, the task writes nothing of the page. -/
theorem step_prepares (ha : prepares a = true) (h : step P s a = some t) :
    ∃ u, t = { s with update := u } := by
  cases a with
  | fetch l => exact ⟨_, (step_fetch h).2⟩
  | fetchThrows e => exact ⟨_, (step_fetchThrows h).2⟩
  | readColumn =>
    obtain ⟨ptr, -, ht⟩ := step_readColumn h
    exact ⟨_, ht⟩
  | sortNew =>
    obtain ⟨ptr, col, ptr', -, -, ht⟩ := step_sortNew h
    exact ⟨_, ht⟩
  | _ => cases ha

/-- Besides sorting, a click on a header writes `sorted`. -/
theorem step_marks (ha : marks a = true) (h : step P s a = some t) :
    ∃ so hd, t = { s with sorted := so, handler := hd } := by
  cases a with
  | takeData col =>
    obtain ⟨-, -, ⟨-, ht⟩ | ⟨p, -, ht⟩⟩ := step_takeData h
    · exact ⟨s.sorted, s.handler, ht⟩
    · exact ⟨s.sorted, _, ht⟩
  | writeColumn =>
    obtain ⟨col, o, -, ht⟩ := step_writeColumn h
    exact ⟨_, _, ht⟩
  | writeSortOrder =>
    obtain ⟨col, o, -, ht⟩ := step_writeSortOrder h
    exact ⟨_, _, ht⟩
  | _ => cases ha

/-- A click on a row reads the table, and writes popups. -/
theorem step_asks (ha : asks a = true) (h : step P s a = some t) :
    ∃ hd p c, t = { s with handler := hd, popup := p, closed := c } := by
  cases a with
  | rightClick row =>
    obtain ⟨-, -, -, shown, pid, -, -, ht⟩ := step_rightClick h
    exact ⟨_, s.popup, s.closed, ht⟩
  | readName =>
    obtain ⟨row, shown, pid, name, -, -, ht⟩ := step_readName h
    exact ⟨_, _, s.closed, ht⟩
  | selectClose =>
    obtain ⟨p, -, ht⟩ := step_selectClose h
    exact ⟨s.handler, _, _, ht⟩
  | dismiss => exact ⟨s.handler, _, s.closed, step_dismiss h⟩
  | _ => cases ha

end

/-! ## Steps that nothing interrupts -/

section

variable {rows rows' : List WmiProcess} {col : BitVec 32}

theorem run_click (hi : s.handler = .idle) (ha : s.attached = true) (hr : s.rows = some rows)
    (hs : sortTableOnColumn P rows col s.sorted.sortOrder.next = .ok rows') :
    ∃ t, run (step P) s [.takeData col, .sortData, .writeColumn, .writeSortOrder] = some t ∧
      t.handler = .idle ∧ t.update = s.update ∧
      WmiProcessTable.sortColumn P col .Next s.table = (.ok (), t.table) := by
  obtain ⟨p, hp, hv⟩ := Option.bind_eq_some_iff.mp hr
  have hset : (s.vectors.set p rows')[p]? = some rows' :=
    List.getElem?_set_self (List.getElem?_eq_some_iff.mp hv).1
  refine ⟨{ s with
    vectors := s.vectors.set p rows', sorted := ⟨col, s.sorted.sortOrder.next⟩ }, ?_, hi, rfl, ?_⟩
  · simp only [run, step, hi, ha, hp, hv, hs, and_self, ↓reduceIte, Option.bind_some]
  · rw [WmiProcessTable.sortColumn, ExecM.bind_of_ok (ExecM.get_apply _)]
    simp only [Page.table, Page.rows, hp, Option.bind_some, hv, hset, ↓reduceIte, ExecM.bind_apply,
      ExecM.lift_apply, hs, ExecM.modify_apply]

theorem run_refresh {fetch : WString → Outcome Exn (List WmiProcess)} (hu : s.update = .started)
    (hf : fetch s.mRemoteHost = .ok rows)
    (hs : sortTableOnColumn P rows s.sorted.column s.sorted.sortOrder = .ok rows') :
    ∃ t, run (step P) s [.fetch rows, .readColumn, .sortNew, .publish] = some t ∧
      t.update = .returned ∧ WmiProcessTable.updateData P fetch s.table = (.ok (), t.table) := by
  refine ⟨{ s with
    vectors := s.vectors ++ [rows'], mData := some s.vectors.length, update := .returned }, ?_, rfl, ?_⟩
  · simp only [run, step, hu, hs, Option.bind_some]
  · rw [WmiProcessTable.updateData, ExecM.bind_of_ok (ExecM.get_apply _)]
    simp [Page.table, ExecM.bind_apply, hf, hs, Page.rows]

end

end RTM.Proof.Page
