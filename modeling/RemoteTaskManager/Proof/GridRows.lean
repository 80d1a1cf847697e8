import RemoteTaskManager.Proof.RightClick

/-!
# The rows of the grid

The grid counts the rows of a table once, when it is given the table. No step
of a page changes that count (`step_gridRows`), while every refresh brings the
rows of its own listing (`follows_step`). So after a refresh the grid has as
many rows as the table if and only if the listing is as long as the one the
page was made of (`grid_rows_iff`).
-/

namespace RTM.Proof.GridRows

open RTM.Impl RTM.Proof.Page RTM.Proof.RightClick
open RTM.Proof.WmiProcessTable (process sortTableOnColumn_perm)
open RTM.Impl.Page (step)

/-- The listing last fetched, after a step. -/
def fetchedLast (last : List WmiProcess) : Act → List WmiProcess
  | .fetch listing => listing
  | _ => last

/-- The listing last fetched in a run; at first, the rows of the table. -/
def latest (t : WmiProcessTable) (acts : List Act) : List WmiProcess :=
  acts.foldl fetchedLast (t.mData.getD [])

/-- What the task holds, and what it has published and not yet been asked for,
are the rows of `last`. -/
structure Follows (last : List WmiProcess) (s : Page) : Prop where
  held : holdsListing s.update = true → (listing s.update).Perm last
  returned : s.update = .returned → ∃ rows, s.rows = some rows ∧ rows.Perm last

section

variable {P : Platform} {s t : Page} {a : Act} {last : List WmiProcess}

/-- No step changes how many rows the grid displays. -/
theorem step_gridRows (h : step P s a = some t) : t.gridRows = s.gridRows := by
  cases a with
  | tick l =>
    obtain ⟨-, -, rfl⟩ := step_tick h
    unfold Page.tick
    split <;> rfl
  | fetch | fetchThrows | readColumn | sortNew =>
    obtain ⟨u, rfl⟩ := step_prepares rfl h
    rfl
  | publish =>
    obtain ⟨ptr, col, o, -, rfl⟩ := step_publish h
    rfl
  | takeData | writeColumn | writeSortOrder =>
    obtain ⟨so, hd, rfl⟩ := step_marks rfl h
    rfl
  | sortData =>
    obtain ⟨col, p, tbl, tbl', -, -, -, rfl⟩ := step_sortData h
    rfl
  | rightClick | readName | selectClose | dismiss =>
    obtain ⟨hd, p, c, rfl⟩ := step_asks rfl h
    rfl

/-- A click sorts the rows, or rows that `m_data` no longer points to. -/
theorem sortData_rows {rows : List WmiProcess} (hr : s.rows = some rows)
    (h : step P s .sortData = some t) : ∃ rows', t.rows = some rows' ∧ rows'.Perm rows := by
  obtain ⟨col, p, tbl, tbl', -, hv, hs, rfl⟩ := step_sortData h
  obtain ⟨q, hq, hrq⟩ := Option.bind_eq_some_iff.mp hr
  have hp : p < s.vectors.length := (List.getElem?_eq_some_iff.mp hv).1
  by_cases hpq : p = q
  · subst hpq
    obtain rfl := Option.some.inj (hv.symm.trans hrq)
    exact ⟨tbl', by simp [Page.rows, hq, hp], sortTableOnColumn_perm hs⟩
  · exact ⟨rows, by simp [Page.rows, hq, List.getElem?_set_ne hpq, hrq], .refl rows⟩

/-- The handler of the timer takes what is returned. -/
theorem follows_tick (hi : Follows last s) (l : Launch) : Follows last (s.tick l) := by
  have hne : (s.tick l).update ≠ .returned := by
    unfold Page.tick
    split
    · dsimp only
      split <;> nofun
    · nofun
    · nofun
    · assumption
  refine ⟨fun hh => ?_, fun hr => absurd hr hne⟩
  rcases tick_update l s with hu | hu
  · rw [hu] at hh ⊢
    exact hi.held hh
  · rw [hu] at hh
    cases hh

theorem follows_step (hi : Follows last s) (h : step P s a = some t) :
    Follows (fetchedLast last a) t := by
  cases a with
  | tick l =>
    obtain ⟨-, -, rfl⟩ := step_tick h
    exact follows_tick hi l
  | fetch l =>
    obtain ⟨-, rfl⟩ := step_fetch h
    exact ⟨fun _ => .refl l, nofun⟩
  | fetchThrows e =>
    obtain ⟨-, rfl⟩ := step_fetchThrows h
    exact ⟨nofun, nofun⟩
  | readColumn =>
    obtain ⟨ptr, hu, rfl⟩ := step_readColumn h
    have hp : (listing s.update).Perm last := hi.held (by rw [hu]; rfl)
    rw [hu] at hp
    exact ⟨fun _ => hp, nofun⟩
  | sortNew =>
    obtain ⟨ptr, col, ptr', hu, hs, rfl⟩ := step_sortNew h
    have hp : (listing s.update).Perm last := hi.held (by rw [hu]; rfl)
    rw [hu] at hp
    exact ⟨fun _ => (sortTableOnColumn_perm hs).trans hp, nofun⟩
  | publish =>
    obtain ⟨ptr, col, o, hu, rfl⟩ := step_publish h
    have hp : (listing s.update).Perm last := hi.held (by rw [hu]; rfl)
    rw [hu] at hp
    exact ⟨nofun, fun _ => ⟨ptr, by simp [Page.rows], hp⟩⟩
  | takeData | writeColumn | writeSortOrder =>
    obtain ⟨so, hd, rfl⟩ := step_marks rfl h
    exact ⟨hi.held, hi.returned⟩
  | sortData =>
    have hu : t.update = s.update := by
      obtain ⟨col, p, tbl, tbl', -, -, -, rfl⟩ := step_sortData h
      rfl
    refine ⟨fun hh => ?_, fun hr => ?_⟩
    · rw [hu] at hh ⊢
      exact hi.held hh
    · rw [hu] at hr
      obtain ⟨rows, hrows, hp⟩ := hi.returned hr
      obtain ⟨rows', hrows', hp'⟩ := sortData_rows hrows h
      exact ⟨rows', hrows', hp'.trans hp⟩
  | rightClick | readName | selectClose | dismiss =>
    obtain ⟨hd, p, c, rfl⟩ := step_asks rfl h
    exact ⟨hi.held, hi.returned⟩

end

/-- After a refresh has completed, in any run of a page, the grid has the rows
of the table if and only if the listing fetched is as long, as an `int`, as the
rows that the page was made of. -/
theorem grid_rows_iff (P : Platform) (t : WmiProcessTable) {acts : List Act} {s s' : Page}
    {launch : Launch} (h : run (step P) (Page.ofTable t) acts = some s) (hu : s.update = .returned)
    (ht : step P s (.tick launch) = some s') :
    (s'.gridRows = s'.table.getNumberRows.toNat ↔
        BitVec.ofNat 32 (latest t acts).length = t.getNumberRows) ∧
      s'.gridRows = t.getNumberRows.toNat ∧
      ∃ rows, s'.table.mData = some rows ∧ s'.painted = rows ∧ rows.Perm (latest t acts) := by
  have hi : Follows (t.mData.getD []) (Page.ofTable t) := ⟨nofun, nofun⟩
  have hstep : ∀ {last u a v}, Follows last u → step P u a = some v →
      Follows (fetchedLast last a) v := follows_step
  have hf : Follows (latest t acts) s := run_inv_foldl hstep hi h
  have hg : s.gridRows = t.getNumberRows.toNat :=
    run_inv (I := fun s => s.gridRows = t.getNumberRows.toNat)
      (fun hg h => (step_gridRows h).trans hg) rfl h
  obtain ⟨rows, hr, hp⟩ := hf.returned hu
  obtain ⟨-, -, rfl⟩ := step_tick ht
  have hrows : (s.tick launch).rows = some rows := by
    rw [Page.rows, tick_mData, tick_vectors]
    exact hr
  have hgrid : (s.tick launch).gridRows = t.getNumberRows.toNat := (step_gridRows ht).trans hg
  have hpainted : (s.tick launch).painted = rows := by
    simp only [Page.tick, hu, hr, Option.getD_some]
  have hcount : (s.tick launch).table.getNumberRows = BitVec.ofNat 32 (latest t acts).length := by
    show WmiProcessTable.getNumberRows ⟨_, (s.tick launch).rows, _⟩ = _
    rw [WmiProcessTable.getNumberRows, hrows]
    exact congrArg (BitVec.ofNat 32) hp.length_eq
  refine ⟨?_, hgrid, rows, hrows, hpainted, hp⟩
  rw [hgrid, hcount, ← BitVec.toNat_inj, eq_comm]

/-- A table of one process, sorted as a page sorts it. -/
def one : WmiProcessTable where
  mData := some [process 4 1]
  sorted := ⟨ColumnNumber.CreationDate.toInt, .Ascending⟩

/-- A refresh that is done but for the timer. -/
def refresh (listing : List WmiProcess) : List Act :=
  [.tick .async, .fetch listing, .readColumn, .sortNew, .publish]

theorem grid_rows_other_process :
    ∃ s', run (step .ascii) (Page.ofTable one) (refresh [process 8 2] ++ [.tick .async]) = some s' ∧
      s'.gridRows = s'.table.getNumberRows.toNat := by
  have hrun : run (step .ascii) (Page.ofTable one) (refresh [process 8 2]) = some _ := rfl
  refine ⟨_, rfl, (@grid_rows_iff .ascii one _ _ _ .async hrun rfl rfl).1.mpr rfl⟩

/-- A second process has come up: it has no row. -/
theorem grid_rows_second_process :
    let acts := refresh [process 4 1, process 8 2] ++ [.tick .async]
    ∃ s' ∈ run (step .ascii) (Page.ofTable one) acts,
      s'.update = .none ∧ s'.attached = true ∧ s'.gridRows = 1 ∧ s'.table.getNumberRows = 2 := by
  decide

end RTM.Proof.GridRows
