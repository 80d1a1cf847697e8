import RemoteTaskManager.Proof.Page
import RemoteTaskManager.Proof.WmiProcessTable

/-!
# Refreshes and clicks on headers

A refresh reads the column and the direction to sort on, then sorts, then
publishes; a click made in between records others. From the first publish on,
the rows of a page are in the order recorded in every run whose publishes are
`Fresh`: the pair the refresh read is still the one recorded, or the one that
a click under way is about to record (`refresh_in_order`). A run with a
publish that is not leaves the rows in an order that is not recorded
(`refresh_stale`).
-/

namespace RTM.Proof.Refresh

open RTM.Impl RTM.Spec RTM.Proof.Page RTM.Proof.WmiProcessTable
open RTM.Impl.Page (step)

/-! ## The order recorded -/

/-- `sorted` after a click on the column. -/
def clicked (so : Sorted) (col : BitVec 32) : Sorted := ⟨col, so.sortOrder.next⟩

/-- The columns clicked in a run. -/
def clicks (acts : List Act) : List (BitVec 32) :=
  acts.filterMap fun
    | .takeData col => some col
    | _ => none

/-- What is recorded, or what a click under way is about to record. -/
def recorded (s : Page) : Sorted :=
  match s.handler with
  | .tookData col _ => clicked s.sorted col
  | .sortedData col o | .wroteColumn col o => ⟨col, o⟩
  | _ => s.sorted

/-- Whether a click is under way. -/
def clicking : Handler → Bool
  | .tookData .. | .sortedData .. | .wroteColumn .. => true
  | _ => false

theorem recorded_of_not_clicking {s : Page} (h : clicking s.handler = false) :
    recorded s = s.sorted := by
  unfold recorded
  split <;> simp_all [clicking]

/-- The column a step means to sort on. -/
def sortsOn (s : Page) : Act → Option (BitVec 32)
  | .readColumn => some s.sorted.column
  | .takeData col => some col
  | _ => none

/-- The columns sorted on are those of a key. -/
def Keyed (s : Page) (a : Act) : Prop := ∀ col ∈ sortsOn s a, Sortable col

/-- What the task has sorted its listing on. -/
def sortedOn : Update → Option Sorted
  | .sorted _ col o => some ⟨col, o⟩
  | _ => none

/-- What is published was sorted as is recorded. -/
def Fresh (s : Page) (a : Act) : Prop := a = .publish → ∀ so ∈ sortedOn s.update, so = recorded s

/-- The rows are in that order. -/
def Shows (s : Page) (so : Sorted) : Prop := ∃ rows, s.rows = some rows ∧ Ordered so rows

instance (s : Page) (a : Act) : Decidable (Keyed s a) := Option.decidableForallMem (sortsOn s a)

instance (s : Page) (a : Act) : Decidable (Fresh s a) :=
  inferInstanceAs (Decidable (a = .publish → ∀ so ∈ sortedOn s.update, so = recorded s))

instance (s : Page) (so : Sorted) : Decidable (Shows s so) :=
  decidable_of_iff (∃ rows ∈ s.rows, Ordered so rows) (by simp [Shows])

/-! ## What every run keeps -/

/-- What the task and a click hold between their steps. -/
structure Held (s : Page) : Prop where
  read : ∀ ptr col, s.update = .readColumn ptr col → Sortable col
  sorted : ∀ ptr col o, s.update = .sorted ptr col o → Ordered ⟨col, o⟩ ptr
  taken : ∀ col p, s.handler = .tookData col p → Sortable col
  written : ∀ col o, s.handler = .wroteColumn col o → s.sorted.column = col

theorem ordered_of_sort {P : Platform} {tbl tbl' : List WmiProcess} {col : BitVec 32}
    {o : SortOrder} (hc : Sortable col) (h : sortTableOnColumn P tbl col o = .ok tbl') :
    Ordered ⟨col, o⟩ tbl' := by
  obtain ⟨c, hk, rfl⟩ := hc
  obtain ⟨rows, hr, hs⟩ := sortTableOnColumn_spec P hk o tbl
  rw [hr] at h
  cases h
  exact ⟨c, hk, rfl, hs.order⟩

section

variable {P : Platform} {s t : Page} {a : Act}

theorem held_tick (hi : Held s) (l : Launch) : Held (s.tick l) := by
  have hu := tick_update l s
  refine ⟨fun ptr col h => ?_, fun ptr col o h => ?_, fun col p h => ?_, fun col o h => ?_⟩
  · rcases hu with hu | hu
    · exact hi.read ptr col (hu ▸ h)
    · rw [h] at hu
      cases hu
  · rcases hu with hu | hu
    · exact hi.sorted ptr col o (hu ▸ h)
    · rw [h] at hu
      cases hu
  · rw [tick_handler] at h
    exact hi.taken col p h
  · rw [tick_handler] at h
    rw [tick_sorted]
    exact hi.written col o h

theorem held_step (hi : Held s) (hk : Keyed s a) (h : step P s a = some t) : Held t := by
  cases a with
  | tick l =>
    obtain ⟨-, -, rfl⟩ := step_tick h
    exact held_tick hi l
  | fetch listing =>
    obtain ⟨-, rfl⟩ := step_fetch h
    exact ⟨nofun, nofun, hi.taken, hi.written⟩
  | fetchThrows e =>
    obtain ⟨-, rfl⟩ := step_fetchThrows h
    exact ⟨nofun, nofun, hi.taken, hi.written⟩
  | readColumn =>
    obtain ⟨ptr, -, rfl⟩ := step_readColumn h
    refine ⟨fun _ _ e => ?_, nofun, hi.taken, hi.written⟩
    cases e
    exact hk _ rfl
  | sortNew =>
    obtain ⟨ptr, col, ptr', hu, hs, rfl⟩ := step_sortNew h
    refine ⟨nofun, fun _ _ _ e => ?_, hi.taken, hi.written⟩
    cases e
    exact ordered_of_sort (hi.read ptr col hu) hs
  | publish =>
    obtain ⟨ptr, col, o, -, rfl⟩ := step_publish h
    exact ⟨nofun, nofun, hi.taken, hi.written⟩
  | takeData col =>
    obtain ⟨-, -, ⟨-, rfl⟩ | ⟨p, -, rfl⟩⟩ := step_takeData h
    · exact hi
    · refine ⟨hi.read, hi.sorted, fun _ _ e => ?_, nofun⟩
      cases e
      exact hk _ rfl
  | sortData =>
    obtain ⟨col, p, tbl, tbl', -, -, -, rfl⟩ := step_sortData h
    exact ⟨hi.read, hi.sorted, nofun, nofun⟩
  | writeColumn =>
    obtain ⟨col, o, -, rfl⟩ := step_writeColumn h
    refine ⟨hi.read, hi.sorted, nofun, fun _ _ e => ?_⟩
    cases e
    rfl
  | writeSortOrder =>
    obtain ⟨col, o, -, rfl⟩ := step_writeSortOrder h
    exact ⟨hi.read, hi.sorted, nofun, nofun⟩
  | rightClick row =>
    obtain ⟨-, -, -, shown, pid, -, -, rfl⟩ := step_rightClick h
    exact ⟨hi.read, hi.sorted, nofun, nofun⟩
  | readName =>
    obtain ⟨row, shown, pid, name, -, -, rfl⟩ := step_readName h
    exact ⟨hi.read, hi.sorted, nofun, nofun⟩
  | selectClose =>
    obtain ⟨p, -, rfl⟩ := step_selectClose h
    exact ⟨hi.read, hi.sorted, hi.taken, hi.written⟩
  | dismiss =>
    obtain rfl := step_dismiss h
    exact ⟨hi.read, hi.sorted, hi.taken, hi.written⟩

/-- A click is recorded when it takes the rows; no other step changes what is
recorded, or about to be. -/
theorem recorded_step (hi : Held s) (hd : s.mData ≠ none) (h : step P s a = some t) :
    t.mData ≠ none ∧ recorded t = (clicks [a]).foldl clicked (recorded s) := by
  cases a with
  | tick l =>
    obtain ⟨-, -, rfl⟩ := step_tick h
    exact ⟨by rwa [tick_mData], by simp [recorded, clicks]⟩
  | fetch | fetchThrows | readColumn | sortNew =>
    obtain ⟨u, rfl⟩ := step_prepares rfl h
    exact ⟨hd, rfl⟩
  | publish =>
    obtain ⟨ptr, col, o, -, rfl⟩ := step_publish h
    exact ⟨nofun, rfl⟩
  | takeData col =>
    obtain ⟨hh, -, ⟨hn, rfl⟩ | ⟨p, -, rfl⟩⟩ := step_takeData h
    · exact absurd hn hd
    · exact ⟨hd, by simp [recorded, clicks, hh]⟩
  | sortData =>
    obtain ⟨col, p, tbl, tbl', hh, -, -, rfl⟩ := step_sortData h
    exact ⟨hd, by simp [recorded, clicks, clicked, hh]⟩
  | writeColumn =>
    obtain ⟨col, o, hh, rfl⟩ := step_writeColumn h
    exact ⟨hd, by simp [recorded, clicks, hh]⟩
  | writeSortOrder =>
    obtain ⟨col, o, hh, rfl⟩ := step_writeSortOrder h
    exact ⟨hd, by simp [recorded, clicks, hh, hi.written col o hh]⟩
  | rightClick row =>
    obtain ⟨hh, -, -, shown, pid, -, -, rfl⟩ := step_rightClick h
    exact ⟨hd, by simp [recorded, clicks, hh]⟩
  | readName =>
    obtain ⟨row, shown, pid, name, hh, -, rfl⟩ := step_readName h
    exact ⟨hd, by simp [recorded, clicks, hh]⟩
  | selectClose =>
    obtain ⟨p, -, rfl⟩ := step_selectClose h
    exact ⟨hd, rfl⟩
  | dismiss =>
    obtain rfl := step_dismiss h
    exact ⟨hd, rfl⟩

/-! ## What a run keeps whose publishes are fresh -/

/-- The rows are in the order recorded, or about to be; a click that has taken
the rows of `m_data` has yet to sort them. -/
def InStep (s : Page) : Prop :=
  match s.handler with
  | .tookData _ p => s.mData = some p ∨ Shows s (recorded s)
  | _ => Shows s (recorded s)

theorem InStep.of_shows (h : Shows s (recorded s)) : InStep s := by
  unfold InStep
  split
  · exact .inr h
  · exact h

/-- A step that leaves the rows and the click alone. -/
theorem InStep.congr (hr : t.rows = s.rows) (hd : t.mData = s.mData) (hs : t.sorted = s.sorted)
    (hh : t.handler = s.handler) (h : InStep s) : InStep t := by
  unfold InStep Shows recorded at *
  rw [hr, hd, hs, hh]
  exact h

/-- A fresh publish puts the page in step. -/
theorem inStep_publish (hi : Held s) (hf : Fresh s .publish) (h : step P s .publish = some t) :
    InStep t := by
  obtain ⟨ptr, col, o, hu, rfl⟩ := step_publish h
  have he : ⟨col, o⟩ = recorded s := hf rfl _ (by rw [hu]; rfl)
  have ho : Ordered (recorded s) ptr := he ▸ hi.sorted ptr col o hu
  exact .of_shows ⟨ptr, by simp [Page.rows], ho⟩

/-- Sorting the rows that a click took, wherever `m_data` points by now. -/
theorem inStep_sortData (hi : Held s) (hs : InStep s) (h : step P s .sortData = some t) :
    InStep t := by
  obtain ⟨col, p, tbl, tbl', hh, hv, hso, rfl⟩ := step_sortData h
  have hp := (List.getElem?_eq_some_iff.mp hv).1
  have htbl : Ordered (clicked s.sorted col) tbl' := ordered_of_sort (hi.taken col p hh) hso
  simp only [InStep, hh] at hs
  refine InStep.of_shows ?_
  by_cases hd : s.mData = some p
  · exact ⟨tbl', by simp [Page.rows, hd, hp], htbl⟩
  · -- A publish came in between: the rows are those published.
    obtain ⟨rows, hr, ho⟩ := hs.resolve_left hd
    refine ⟨rows, ?_, by simpa [recorded, clicked, hh] using ho⟩
    obtain ⟨q, hq, hrq⟩ := Option.bind_eq_some_iff.mp hr
    have hpq : p ≠ q := fun e => hd (e ▸ hq)
    simp [Page.rows, hq, List.getElem?_set_ne hpq, hrq]

theorem inStep_step (hi : Held s) (hs : InStep s) (hf : Fresh s a) (h : step P s a = some t) :
    InStep t := by
  cases a with
  | tick l =>
    obtain ⟨-, -, rfl⟩ := step_tick h
    have hr : (s.tick l).rows = s.rows := by rw [Page.rows, Page.rows, tick_mData, tick_vectors]
    exact hs.congr hr (tick_mData l s) (tick_sorted l s) (tick_handler l s)
  | fetch | fetchThrows | readColumn | sortNew =>
    obtain ⟨u, rfl⟩ := step_prepares rfl h
    exact hs.congr rfl rfl rfl rfl
  | publish => exact inStep_publish hi hf h
  | takeData col =>
    obtain ⟨-, -, ⟨-, rfl⟩ | ⟨p, hp, rfl⟩⟩ := step_takeData h
    · exact hs
    · exact .inl hp
  | sortData => exact inStep_sortData hi hs h
  | writeColumn =>
    obtain ⟨col, o, hh, rfl⟩ := step_writeColumn h
    simp only [InStep, recorded, hh] at hs
    exact hs
  | writeSortOrder =>
    obtain ⟨col, o, hh, rfl⟩ := step_writeSortOrder h
    have hw := hi.written col o hh
    simp only [InStep, recorded, hh, ← hw] at hs
    exact hs
  | rightClick row =>
    obtain ⟨hh, -, -, shown, pid, -, -, rfl⟩ := step_rightClick h
    simp only [InStep, recorded, hh] at hs
    exact hs
  | readName =>
    obtain ⟨row, shown, pid, name, hh, -, rfl⟩ := step_readName h
    simp only [InStep, recorded, hh] at hs
    exact hs
  | selectClose =>
    obtain ⟨p, -, rfl⟩ := step_selectClose h
    exact hs.congr rfl rfl rfl rfl
  | dismiss =>
    obtain rfl := step_dismiss h
    exact hs.congr rfl rfl rfl rfl

end

/-! ## Runs -/

section

variable {P : Platform} {s s' : Page} {acts : List Act}

/-- The condition on every step. -/
def Good (s : Page) (a : Act) : Prop := Keyed s a ∧ Fresh s a

instance (s : Page) (a : Act) : Decidable (Good s a) := inferInstanceAs (Decidable (_ ∧ _))

theorem inStep_run (hi : Held s) (hs : InStep s) (hg : AllSteps (step P) Good s acts)
    (h : run (step P) s acts = some s') : Held s' ∧ InStep s' :=
  run_inv_of_allSteps (I := fun s => Held s ∧ InStep s) (G := Good)
    (fun hi hg h => ⟨held_step hi.1 hg.1 h, inStep_step hi.1 hi.2 hg.2 h⟩) ⟨hi, hs⟩ hg h

/-- From the first publish on, the page is in step. -/
theorem inStep_of_publish (hi : Held s) (hp : .publish ∈ acts)
    (hg : AllSteps (step P) Good s acts) (h : run (step P) s acts = some s') : InStep s' := by
  induction acts generalizing s with
  | nil => cases hp
  | cons a acts ih =>
    obtain ⟨t, ht, h'⟩ := run_cons_eq_some.mp h
    obtain ⟨⟨hk, hf⟩, hg'⟩ := (allSteps_cons ht).mp hg
    have hi' := held_step hi hk ht
    rcases List.mem_cons.mp hp with rfl | hp
    · exact (inStep_run hi' (inStep_publish hi hf ht) hg' h').2
    · exact ih hi' hp hg' h'

/-- No click is lost to what is recorded. -/
theorem recorded_run (hi : Held s) (hd : s.mData ≠ none) (hg : AllSteps (step P) Good s acts)
    (h : run (step P) s acts = some s') :
    recorded s' = (clicks acts).foldl clicked (recorded s) := by
  induction acts generalizing s with
  | nil => cases h; rfl
  | cons a acts ih =>
    obtain ⟨t, ht, h⟩ := run_cons_eq_some.mp h
    obtain ⟨⟨hk, -⟩, hg⟩ := (allSteps_cons ht).mp hg
    obtain ⟨hd', hr⟩ := recorded_step hi hd ht
    rw [ih (held_step hi hk ht) hd' hg h, hr, ← List.foldl_append]
    exact congrArg _ (List.filterMap_append (l := [a])).symm

/-- A page whose task and handler hold nothing. -/
theorem held_ofTable (t : WmiProcessTable) : Held (Page.ofTable t) := ⟨nofun, nofun, nofun, nofun⟩

/-- In every run whose publishes are fresh and whose columns have a key, once
there was a publish and while no click is under way, the rows are in the order
recorded, which is that of the clicks made. -/
theorem refresh_in_order (P : Platform) (t : WmiProcessTable) {acts : List Act} {s : Page}
    (hg : AllSteps (step P) Good (Page.ofTable t) acts)
    (h : run (step P) (Page.ofTable t) acts = some s) (hp : .publish ∈ acts)
    (hc : clicking s.handler = false) :
    Shows s s.sorted ∧ (t.mData ≠ none → s.sorted = (clicks acts).foldl clicked t.sorted) := by
  have hi := held_ofTable t
  have hs := inStep_of_publish hi hp hg h
  have hr := recorded_of_not_clicking hc
  refine ⟨?_, fun hd => ?_⟩
  · unfold InStep at hs
    split at hs
    · simp_all [clicking]
    · rwa [hr] at hs
  · have hd' : (Page.ofTable t).mData ≠ none := by simpa [Page.ofTable] using hd
    rw [← hr, recorded_run hi hd' hg h]
    rfl

end

/-- Two processes, sorted on their pids. -/
def twoByPid : WmiProcessTable where
  mData := some [process 4 1, process 8 2]
  sorted := ⟨ColumnNumber.ProcessId.toInt, .Ascending⟩

/-- A refresh that has sorted its listing. -/
def refreshing : List Act :=
  [.tick .async, .fetch [process 8 2, process 4 1], .readColumn, .sortNew]

def click (c : ColumnNumber) : List Act :=
  [.takeData c.toInt, .sortData, .writeColumn, .writeSortOrder]

/-- The pids are clicked on twice, the second time while the refresh publishes. -/
def clickedTwice : List Act :=
  refreshing ++ click .ProcessId ++
    [.takeData ColumnNumber.ProcessId.toInt, .publish, .sortData, .writeColumn, .writeSortOrder]

theorem refresh_in_order_twice :
    ∃ s ∈ run (step .ascii) (Page.ofTable twoByPid) clickedTwice,
      Shows s s.sorted ∧ s.sorted = (clicks clickedTwice).foldl clicked twoByPid.sorted := by
  obtain ⟨s, hs⟩ := Option.isSome_iff_exists.mp
    (show (run (step .ascii) (Page.ofTable twoByPid) clickedTwice).isSome by decide)
  have hc : ∀ s ∈ run (step .ascii) (Page.ofTable twoByPid) clickedTwice,
      clicking s.handler = false := by decide
  obtain ⟨h, hr⟩ := refresh_in_order .ascii twoByPid (by decide) hs (by decide) (hc s hs)
  exact ⟨s, hs, h, hr nofun⟩

/-- The threads are clicked on before the refresh publishes: it puts the rows
back in the order of the pids. -/
theorem refresh_stale :
    let acts := refreshing ++ click .ThreadCount ++ [.publish]
    AllSteps (step .ascii) Keyed (Page.ofTable twoByPid) acts ∧
      ∃ s ∈ run (step .ascii) (Page.ofTable twoByPid) acts,
        s.update.inFlight = false ∧ s.handler = .idle ∧ ¬ Shows s s.sorted := by
  exact ⟨by decide, by decide⟩

end RTM.Proof.Refresh
