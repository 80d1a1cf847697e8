import RemoteTaskManager.Proof.Page
import RemoteTaskManager.Proof.WmiProcessTable

/-!
# The popup menu of a row

A right click looks a row number up in `m_data` twice, for the pid and for the
name. The popup is that of the record painted in the row in every run in which
both look-ups find the record painted there (`Unmoved`, `popup_shown`). They do
while the grid shows the rows of `m_data` (`allSteps_unmoved`), that is from a
repaint on as long as nothing is published and nothing sorted (`current_repaint`,
`current_step`). A publish in between offers to close another process, or under
another's name (`popup_other`).
-/

namespace RTM.Proof.RightClick

open RTM.Impl RTM.Proof.Page
open RTM.Proof.WmiProcessTable (sortTableOnColumn_perm)
open RTM.Impl.Page (step)

/-! ## The records a page holds -/

section

variable {P : Platform} {s t : Page} {a : Act} {Q : WmiProcess → Prop}

/-- The listing the task holds. -/
def listing : Update → List WmiProcess
  | .fetched ptr | .readColumn ptr _ | .sorted ptr _ _ => ptr
  | _ => []

/-- The listings fetched in a run. -/
def listings (acts : List Act) : List (List WmiProcess) :=
  acts.filterMap fun
    | .fetch l => some l
    | _ => none

/-- Every record a page holds is one of `Q`. -/
structure Holds (Q : WmiProcess → Prop) (s : Page) : Prop where
  vectors : ∀ v ∈ s.vectors, ∀ r ∈ v, Q r
  painted : ∀ r ∈ s.painted, Q r
  update : ∀ r ∈ listing s.update, Q r

theorem listing_of_holdsListing {u : Update} (h : holdsListing u = false) : listing u = [] := by
  cases u with
  | fetched | readColumn | sorted => cases h
  | _ => rfl

theorem not_held {r : WmiProcess} (h : r ∈ ([] : List WmiProcess)) : Q r := by cases h

theorem holds_rows (hi : Holds Q s) : ∀ r ∈ s.rows.getD [], Q r := by
  intro r hr
  cases hd : s.rows with
  | none => simp [hd] at hr
  | some rows =>
    obtain ⟨p, -, hp⟩ := Option.bind_eq_some_iff.mp hd
    rw [hd] at hr
    exact hi.vectors rows (List.mem_of_getElem? hp) r hr

theorem holds_tick (hi : Holds Q s) (l : Launch) : Holds Q (s.tick l) := by
  have hv : (s.tick l).vectors = s.vectors := tick_vectors l s
  refine ⟨hv ▸ hi.vectors, ?_, ?_⟩
  · unfold Page.tick
    split
    · exact hi.painted
    · exact holds_rows hi
    · exact fun _ => not_held
    · exact hi.painted
  · rcases tick_update l s with hu | hu
    · rw [hu]
      exact hi.update
    · rw [listing_of_holdsListing hu]
      exact fun _ => not_held

theorem holds_step (hi : Holds Q s) (hl : ∀ l ∈ listings [a], ∀ r ∈ l, Q r)
    (h : step P s a = some t) : Holds Q t := by
  cases a with
  | tick l =>
    obtain ⟨-, -, rfl⟩ := step_tick h
    exact holds_tick hi l
  | fetch l =>
    obtain ⟨-, rfl⟩ := step_fetch h
    exact ⟨hi.vectors, hi.painted, hl l List.mem_cons_self⟩
  | fetchThrows e =>
    obtain ⟨-, rfl⟩ := step_fetchThrows h
    exact ⟨hi.vectors, hi.painted, fun _ => not_held⟩
  | readColumn =>
    obtain ⟨ptr, hu, rfl⟩ := step_readColumn h
    exact ⟨hi.vectors, hi.painted, by simpa [listing, hu] using hi.update⟩
  | sortNew =>
    obtain ⟨ptr, col, ptr', hu, hs, rfl⟩ := step_sortNew h
    refine ⟨hi.vectors, hi.painted, fun r hr => hi.update r ?_⟩
    rw [hu]
    exact (sortTableOnColumn_perm hs).mem_iff.mp hr
  | publish =>
    obtain ⟨ptr, col, o, hu, rfl⟩ := step_publish h
    refine ⟨fun v hv => ?_, hi.painted, fun _ => not_held⟩
    rcases List.mem_append.mp hv with hv | hv
    · exact hi.vectors v hv
    · rw [List.mem_singleton.mp hv]
      simpa [listing, hu] using hi.update
  | takeData | writeColumn | writeSortOrder =>
    obtain ⟨so, hd, rfl⟩ := step_marks rfl h
    exact ⟨hi.vectors, hi.painted, hi.update⟩
  | sortData =>
    obtain ⟨col, p, tbl, tbl', -, hv, hs, rfl⟩ := step_sortData h
    refine ⟨fun v hv' => ?_, hi.painted, hi.update⟩
    rcases List.mem_or_eq_of_mem_set hv' with hv' | rfl
    · exact hi.vectors v hv'
    · have hperm := sortTableOnColumn_perm hs
      have htbl : tbl ∈ s.vectors := List.mem_of_getElem? hv
      exact fun r hr => hi.vectors tbl htbl r (hperm.mem_iff.mp hr)
  | rightClick | readName | selectClose | dismiss =>
    obtain ⟨hd, p, c, rfl⟩ := step_asks rfl h
    exact ⟨hi.vectors, hi.painted, hi.update⟩

theorem holds_ofTable {t : WmiProcessTable} (h : ∀ r ∈ t.mData.getD [], Q r) :
    Holds Q (Page.ofTable t) := by
  refine ⟨fun v hv r hr => h r ?_, h, fun _ => not_held⟩
  cases hd : t.mData with
  | none => simp [Page.ofTable, hd] at hv
  | some rows =>
    simp only [Page.ofTable, hd, Option.toList_some, List.mem_singleton] at hv
    rw [← hv]
    exact hr

end

/-! ## The row of a click -/

/-- The record that `GetValue` finds in a row. -/
def recordAt (s : Page) (row : BitVec 32) : Option WmiProcess :=
  s.rows.bind fun rows => rows[(row.signExtend 64).toNat]?

/-- The row that a click whose name is yet to be looked up is on, and the record
that was painted there. -/
def clickedRow : Handler → Option (BitVec 32 × Option WmiProcess)
  | .readPid row shown _ => some (row, some shown)
  | _ => none

/-- The row that a step looks up for the popup, and the record painted there. -/
def lookUp (s : Page) : Act → Option (BitVec 32 × Option WmiProcess)
  | .rightClick row => some (row, s.painted[row.toNat]?)
  | .readName => clickedRow s.handler
  | _ => none

/-- A look-up for the popup finds the record painted in the row clicked. -/
def Unmoved (s : Page) (a : Act) : Prop := ∀ x ∈ lookUp s a, recordAt s x.1 = x.2

instance (s : Page) (a : Act) : Decidable (Unmoved s a) := Option.decidableForallMem (lookUp s a)

theorem ne_readPid {hd : Handler} (h : clickedRow hd = none) {row : BitVec 32} {shown : WmiProcess}
    {pid : WString} : hd ≠ .readPid row shown pid := by
  rintro rfl
  exact Option.some_ne_none _ h

theorem lookUp_readName {s : Page} {row : BitVec 32} {shown : WmiProcess} {pid : WString}
    (h : s.handler = .readPid row shown pid) : lookUp s .readName = some (row, some shown) := by
  show clickedRow s.handler = _
  rw [h]
  rfl

section

variable {P : Platform} {s t : Page} {a : Act} {row : BitVec 32}

theorem getValue_of_recordAt {r : WmiProcess} (h : recordAt s row = some r) (c : ColumnNumber) :
    s.table.getValue row c.toInt = .ok (r.item c).toString := by
  obtain ⟨rows, hr, h⟩ := Option.bind_eq_some_iff.mp h
  simp only [WmiProcessTable.getValue, Page.table, hr, h, WmiProcess.indexInt_toInt,
    Outcome.ok_bind, Outcome.pure_eq]

/-- The grid shows the rows of `m_data`. -/
def Current (s : Page) : Prop := s.attached = true → s.painted = s.rows.getD []

/-- While the grid shows the rows of `m_data`, a look-up finds the record
painted. -/
theorem recordAt_of_current (hc : Current s) (ha : s.attached = true) (hrow : row.msb = false) :
    recordAt s row = s.painted[row.toNat]? := by
  rw [hc ha, recordAt, WmiProcess.toNat_signExtend_of_msb hrow]
  cases s.rows with
  | none => rfl
  | some rows => rfl

/-- Only a publish and a sort leave the grid behind. -/
theorem current_step (hc : Current s) (hp : a ≠ .publish) (hs : a ≠ .sortData)
    (h : step P s a = some t) : Current t := by
  cases a with
  | tick l =>
    obtain ⟨-, -, rfl⟩ := step_tick h
    unfold Page.tick
    split
    · exact hc
    · exact fun _ => rfl
    · exact nofun
    · exact hc
  | fetch | fetchThrows | readColumn | sortNew =>
    obtain ⟨u, rfl⟩ := step_prepares rfl h
    exact hc
  | publish => exact absurd rfl hp
  | takeData | writeColumn | writeSortOrder =>
    obtain ⟨so, hd, rfl⟩ := step_marks rfl h
    exact hc
  | sortData => exact absurd rfl hs
  | rightClick | readName | selectClose | dismiss =>
    obtain ⟨hd, p, c, rfl⟩ := step_asks rfl h
    exact hc

/-- The repaint brings the grid up to date. -/
theorem current_repaint (l : Launch) (h : s.update = .returned) : Current (s.tick l) := by
  intro _
  rw [Page.tick, h]
  rfl

/-- A click whose name is yet to be looked up is on a row of the grid, which
shows what it showed. -/
structure Pinned (s : Page) : Prop where
  rows : s.gridRows ≤ 2 ^ 31
  readPid : ∀ row shown pid, s.handler = .readPid row shown pid →
    s.attached = true ∧ row.msb = false ∧ s.painted[row.toNat]? = some shown

/-- A row of the grid is no negative `int`. -/
theorem Pinned.msb_eq_false (hi : Pinned s) (h : row.toNat < s.gridRows) : row.msb = false := by
  have := hi.rows
  rw [BitVec.msb_eq_decide, decide_eq_false_iff_not]
  omega

theorem pinned_step (hi : Pinned s) (h : step P s a = some t) : Pinned t := by
  cases a with
  | tick l =>
    obtain ⟨-, hh, rfl⟩ := step_tick h
    have hrows : (s.tick l).gridRows = s.gridRows := by
      unfold Page.tick
      split <;> rfl
    refine ⟨hrows ▸ hi.rows, fun row shown pid e => ?_⟩
    rw [tick_handler, hh] at e
    exact (ne_readPid rfl e).elim
  | fetch | fetchThrows | readColumn | sortNew =>
    obtain ⟨u, rfl⟩ := step_prepares rfl h
    exact ⟨hi.rows, hi.readPid⟩
  | publish =>
    obtain ⟨ptr, col, o, -, rfl⟩ := step_publish h
    exact ⟨hi.rows, hi.readPid⟩
  | takeData col =>
    obtain ⟨-, -, ⟨-, rfl⟩ | ⟨p, -, rfl⟩⟩ := step_takeData h
    · exact hi
    · exact ⟨hi.rows, fun _ _ _ e => (ne_readPid rfl e).elim⟩
  | sortData =>
    obtain ⟨col, p, tbl, tbl', -, -, -, rfl⟩ := step_sortData h
    exact ⟨hi.rows, fun _ _ _ e => (ne_readPid rfl e).elim⟩
  | writeColumn =>
    obtain ⟨col, o, -, rfl⟩ := step_writeColumn h
    exact ⟨hi.rows, fun _ _ _ e => (ne_readPid rfl e).elim⟩
  | writeSortOrder =>
    obtain ⟨col, o, -, rfl⟩ := step_writeSortOrder h
    exact ⟨hi.rows, fun _ _ _ e => (ne_readPid rfl e).elim⟩
  | rightClick row =>
    obtain ⟨-, ha, hlt, shown, pid, hs, -, rfl⟩ := step_rightClick h
    have hmsb : row.msb = false := hi.msb_eq_false hlt
    refine ⟨hi.rows, fun _ _ _ e => ?_⟩
    cases e
    exact ⟨ha, hmsb, hs⟩
  | readName =>
    obtain ⟨row, shown, pid, name, -, -, rfl⟩ := step_readName h
    exact ⟨hi.rows, fun _ _ _ e => (ne_readPid rfl e).elim⟩
  | selectClose =>
    obtain ⟨p, -, rfl⟩ := step_selectClose h
    exact ⟨hi.rows, hi.readPid⟩
  | dismiss =>
    obtain rfl := step_dismiss h
    exact ⟨hi.rows, hi.readPid⟩

/-- A look-up is made while the grid shows the rows of `m_data`. -/
def Timely (s : Page) (a : Act) : Prop := lookUp s a ≠ none → Current s

theorem unmoved_of_timely (hi : Pinned s) (ht : Timely s a) (h : step P s a = some t) :
    Unmoved s a := by
  intro x hx
  have hc : Current s := ht fun e => Option.some_ne_none x (hx.symm.trans e)
  cases a with
  | rightClick row =>
    obtain ⟨-, ha, hlt, -⟩ := step_rightClick h
    have hmsb : row.msb = false := hi.msb_eq_false hlt
    obtain rfl := (Option.some.inj hx).symm
    exact recordAt_of_current hc ha hmsb
  | readName =>
    obtain ⟨row, shown, pid, name, hh, -⟩ := step_readName h
    obtain ⟨ha, hmsb, hs⟩ := hi.readPid row shown pid hh
    rw [lookUp_readName hh] at hx
    obtain rfl := (Option.some.inj hx).symm
    exact (recordAt_of_current hc ha hmsb).trans hs
  | _ => cases hx

/-- In a run whose look-ups are all timely, each finds the record painted. -/
theorem allSteps_unmoved {t : WmiProcessTable} (hn : (Page.ofTable t).gridRows ≤ 2 ^ 31)
    {acts : List Act} (ht : AllSteps (step P) Timely (Page.ofTable t) acts)
    (h : run (step P) (Page.ofTable t) acts = some s) :
    AllSteps (step P) Unmoved (Page.ofTable t) acts := by
  have hi : Pinned (Page.ofTable t) := ⟨hn, fun _ _ _ e => (ne_readPid rfl e).elim⟩
  exact allSteps_of_inv unmoved_of_timely (fun hi _ h => pinned_step hi h) hi ht h

end

/-! ## The popup -/

/-- The text of a record's pid is its pid. -/
def PidText (r : WmiProcess) : Prop := r.processId.strValue = decimal r.processId.value.toNat

/-- The popup is of the record that was painted. -/
def OfShown (p : Popup) : Prop := p.pid = p.shown.processId.value ∧ p.name = p.shown.name.value

/-- The popups, and the click whose name is yet to be looked up. -/
structure Popups (s : Page) : Prop where
  popup : ∀ p, s.popup = some p → OfShown p
  closed : ∀ p ∈ s.closed, OfShown p
  readPid : ∀ row shown pid, s.handler = .readPid row shown pid →
    pid = shown.processId.strValue ∧ PidText shown

section

variable {P : Platform} {s t : Page} {a : Act}

/-- A step that leaves the popups and the handler alone. -/
theorem Popups.congr (hi : Popups s) (hp : t.popup = s.popup) (hc : t.closed = s.closed)
    (hh : t.handler = s.handler) : Popups t :=
  ⟨hp ▸ hi.popup, hc ▸ hi.closed, hh ▸ hi.readPid⟩

theorem popups_step (hP : ∀ n : BitVec 32, P.toULong (decimal n.toNat) = some n) (hi : Popups s)
    (hr : Holds PidText s) (hu : Unmoved s a) (h : step P s a = some t) : Popups t := by
  cases a with
  | tick l =>
    obtain ⟨-, -, rfl⟩ := step_tick h
    exact hi.congr (tick_popup l s) (tick_closed l s) (tick_handler l s)
  | fetch | fetchThrows | readColumn | sortNew =>
    obtain ⟨u, rfl⟩ := step_prepares rfl h
    exact hi.congr rfl rfl rfl
  | publish =>
    obtain ⟨ptr, col, o, -, rfl⟩ := step_publish h
    exact hi.congr rfl rfl rfl
  | takeData col =>
    obtain ⟨-, -, ⟨-, rfl⟩ | ⟨p, -, rfl⟩⟩ := step_takeData h
    · exact hi
    · exact ⟨hi.popup, hi.closed, fun _ _ _ e => (ne_readPid rfl e).elim⟩
  | sortData =>
    obtain ⟨col, p, tbl, tbl', -, -, -, rfl⟩ := step_sortData h
    exact ⟨hi.popup, hi.closed, fun _ _ _ e => (ne_readPid rfl e).elim⟩
  | writeColumn =>
    obtain ⟨col, o, -, rfl⟩ := step_writeColumn h
    exact ⟨hi.popup, hi.closed, fun _ _ _ e => (ne_readPid rfl e).elim⟩
  | writeSortOrder =>
    obtain ⟨col, o, -, rfl⟩ := step_writeSortOrder h
    exact ⟨hi.popup, hi.closed, fun _ _ _ e => (ne_readPid rfl e).elim⟩
  | rightClick row =>
    obtain ⟨-, -, -, shown, pid, hs, hpid, rfl⟩ := step_rightClick h
    have htext := hr.painted shown (List.mem_of_getElem? hs)
    have hu : recordAt s row = s.painted[row.toNat]? := hu (row, s.painted[row.toNat]?) rfl
    rw [getValue_of_recordAt (hu.trans hs) .ProcessId, Outcome.ok.injEq] at hpid
    refine ⟨hi.popup, hi.closed, fun _ _ _ e => ?_⟩
    cases e
    exact ⟨hpid.symm, htext⟩
  | readName =>
    obtain ⟨row, shown, pid, name, hh, hname, rfl⟩ := step_readName h
    obtain ⟨hpid, htext⟩ := hi.readPid row shown pid hh
    have hu : recordAt s row = some shown := hu (row, some shown) (lookUp_readName hh)
    rw [getValue_of_recordAt hu .Name, Outcome.ok.injEq] at hname
    have hread : toUInt32 P pid = shown.processId.value := by
      rw [hpid, htext, toUInt32, hP, Option.getD_some]
    refine ⟨fun p e => ?_, hi.closed, fun _ _ _ e => (ne_readPid rfl e).elim⟩
    rw [← Option.some.inj e]
    exact ⟨hread, hname.symm⟩
  | selectClose =>
    obtain ⟨p, hp, rfl⟩ := step_selectClose h
    refine ⟨fun q hq => (Option.some_ne_none q hq.symm).elim, fun q hq => ?_, hi.readPid⟩
    rcases List.mem_cons.mp hq with rfl | hq
    · exact hi.popup q hp
    · exact hi.closed q hq
  | dismiss =>
    obtain rfl := step_dismiss h
    exact ⟨fun q hq => (Option.some_ne_none q hq.symm).elim, hi.closed, hi.readPid⟩

theorem popups_ofTable (t : WmiProcessTable) : Popups (Page.ofTable t) where
  popup p h := (Option.some_ne_none p h.symm).elim
  closed _ h := (List.not_mem_nil h).elim
  readPid _ _ _ h := (ne_readPid rfl h).elim

theorem popups_run (hP : ∀ n : BitVec 32, P.toULong (decimal n.toNat) = some n)
    {acts : List Act} (hi : Popups s) (hr : Holds PidText s)
    (hl : ∀ l ∈ listings acts, ∀ r ∈ l, PidText r) (hg : AllSteps (step P) Unmoved s acts)
    (h : run (step P) s acts = some t) : Popups t := by
  induction acts generalizing s with
  | nil =>
    cases h
    exact hi
  | cons a acts ih =>
    obtain ⟨u, hu, h⟩ := run_cons_eq_some.mp h
    obtain ⟨hga, hg⟩ := (allSteps_cons hu).mp hg
    have e : listings (a :: acts) = listings [a] ++ listings acts :=
      List.filterMap_append (l := [a])
    rw [e] at hl
    exact ih (popups_step hP hi hr hga hu)
      (holds_step hr (fun l hm => hl l (List.mem_append_left _ hm)) hu)
      (fun l hm => hl l (List.mem_append_right _ hm)) hg h

/-- In every run whose look-ups find the record painted in the row clicked, the
popup and what is closed by it are of that record. -/
theorem popup_shown (hP : ∀ n : BitVec 32, P.toULong (decimal n.toNat) = some n)
    {t : WmiProcessTable} (ht : ∀ r ∈ t.mData.getD [], PidText r) {acts : List Act}
    (hl : ∀ l ∈ listings acts, ∀ r ∈ l, PidText r)
    (hg : AllSteps (step P) Unmoved (Page.ofTable t) acts)
    (h : run (step P) (Page.ofTable t) acts = some s) :
    (∀ p, s.popup = some p → OfShown p) ∧ ∀ p ∈ s.closed, OfShown p := by
  have hi := popups_run hP (popups_ofTable t) (holds_ofTable ht) hl hg h
  exact ⟨hi.popup, hi.closed⟩

end

/-! ## On two processes -/

instance (r : WmiProcess) : Decidable (PidText r) := inferInstanceAs (Decidable (_ = _))

instance (p : Popup) : Decidable (OfShown p) := inferInstanceAs (Decidable (_ ∧ _))

theorem ascii_toULong (n : BitVec 32) : Platform.ascii.toULong (decimal n.toNat) = some n := by
  rw [show Platform.ascii.toULong = readULong from rfl, readULong, decimalValue_decimal, if_pos,
    BitVec.ofNat_toNat, BitVec.setWidth_eq]
  exact ⟨decimal_ne_nil _, List.all_eq_true.mpr fun _ => isDigit_of_mem_decimal, n.isLt⟩

/-- A process of the given pid and name. -/
def known (pid : BitVec 64) (name : String) : WmiProcess where
  name := ⟨wide name⟩
  processId := .ofUInt64 pid

/-- Two processes, sorted on their pids. -/
def shells : WmiProcessTable where
  mData := some [known 4 "cmd.exe", known 8 "powershell.exe"]
  sorted := ⟨ColumnNumber.ProcessId.toInt, .Ascending⟩

/-- A refresh that finds that the first of them has ended. -/
def refreshed : List Act := [.tick .async, .fetch [known 8 "powershell.exe"], .readColumn, .sortNew]

/-- A right click on the first row, and `Close pid`. -/
def closeFirst : List Act := [.rightClick 0, .readName, .selectClose]

/-- The grid is repainted before the click. -/
theorem popup_shown_repainted :
    ∃ s ∈ run (step .ascii) (Page.ofTable shells) (refreshed ++ .publish :: .tick .async :: closeFirst),
      ∀ p ∈ s.closed, OfShown p := by
  obtain ⟨s, hs⟩ := Option.isSome_iff_exists.mp (show (run (step .ascii) (Page.ofTable shells)
    (refreshed ++ .publish :: .tick .async :: closeFirst)).isSome by decide)
  exact ⟨s, hs, (popup_shown ascii_toULong (by decide) (by decide) (by decide) hs).2⟩

/-- The publish comes before the repaint: what is closed is another process.
It comes between the look-ups: the name is another process's. -/
theorem popup_other :
    (∃ s ∈ run (step .ascii) (Page.ofTable shells) (refreshed ++ .publish :: closeFirst),
      ∃ p ∈ s.closed, p.pid = 8 ∧ p.shown.processId.value = 4) ∧
    (∃ s ∈ run (step .ascii) (Page.ofTable shells) (refreshed ++ [.rightClick 0, .publish, .readName]),
      ∃ p ∈ s.popup, p.pid = 4 ∧ p.name = wide "powershell.exe") ∧
    ¬ ∀ acts, (∀ l ∈ listings acts, ∀ r ∈ l, PidText r) →
      ∀ s ∈ run (step .ascii) (Page.ofTable shells) acts, ∀ p ∈ s.closed, OfShown p := by
  refine ⟨by decide +kernel, by decide +kernel, fun h => ?_⟩
  have := h (refreshed ++ .publish :: closeFirst) (by decide)
  revert this
  decide

end RTM.Proof.RightClick
