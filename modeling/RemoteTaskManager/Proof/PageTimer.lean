import RemoteTaskManager.Proof.GridUpdateTimer
import RemoteTaskManager.Proof.Page

/-!
# The timer of a page

A page with its table, its clicks and the steps of its updates does what the
handler of the timer does with its futures: each step of the page is a step of
the timer, or one that the timer does not see (`refines_step`). So what holds
of the timer holds of every page (`page_run`, `page_detached`).
-/

namespace RTM.Proof.PageTimer

open RTM.Impl RTM.Proof.GridUpdateTimer
open RTM.Impl.GridUpdateTimer (step)

/-- Where the task of a page is. -/
def progress : Update → Option Progress
  | .none => none
  | .deferred => some .deferred
  | .started | .fetched _ | .readColumn .. | .sorted .. => some .running
  | .returned => some .returned
  | .threw _ => some .threw

/-- The task whose outcome the handler is yet to take. -/
def pending (s : GridUpdateTimer) : Option AsyncTask := s.hasData.bind fun n => s.tasks[n]?

/-- A page whose timer, grid and task are those of `s`. -/
structure Refines (p : Page) (s : GridUpdateTimer) : Prop where
  armed : s.armed = p.timer
  attached : s.attached = p.attached
  update : (pending s).map AsyncTask.progress = progress p.update

section

variable {P : Platform} {launch : Nat → Launch} {p p' : Page} {s : GridUpdateTimer}

theorem pending_of_progress {r : Progress} (h : (pending s).map AsyncTask.progress = some r) :
    ∃ n task, s.hasData = some n ∧ s.tasks[n]? = some task ∧ task.progress = r := by
  obtain ⟨task, ht, hr⟩ := Option.map_eq_some_iff.mp h
  obtain ⟨n, hd, ht⟩ := Option.bind_eq_some_iff.mp ht
  exact ⟨n, task, hd, ht, hr⟩

theorem hasData_of_progress (hi : Inv launch s) (h : (pending s).map AsyncTask.progress = none) :
    s.hasData = none := by
  cases hd : s.hasData with
  | none => rfl
  | some n =>
    obtain ⟨-, task, ht, -⟩ := hi.pending n hd
    rw [pending, hd, Option.bind_some, ht] at h
    cases h

/-- A step that the timer does not see. -/
theorem Refines.congr (hr : Refines p s) (ht : p'.timer = p.timer) (ha : p'.attached = p.attached)
    (hu : progress p'.update = progress p.update) : Refines p' s := by
  refine ⟨hr.armed.trans ht.symm, hr.attached.trans ha.symm, ?_⟩
  rw [hu]
  exact hr.update

theorem refines_tick (hi : Inv launch s) (hr : Refines p s) (ht : p.timer = true) :
    ∃ s', step launch s (.tick true) = some s' ∧
      Refines (p.tick (launch s.tasks.length)) s' := by
  have ha : s.armed = true := hr.armed.trans ht
  have hu := hr.update
  unfold Page.tick
  split
  · rename_i hp
    rw [hp] at hu
    refine ⟨_, tick_begins ha (hasData_of_progress hi hu), rfl, hr.attached, ?_⟩
    have hlast : (s.tasks ++ [AsyncTask.async (launch s.tasks.length)])[s.tasks.length]? =
        some (AsyncTask.async (launch s.tasks.length)) := List.getElem?_concat_length
    simp only [pending, Option.bind_some, hlast, Option.map_some]
    cases launch s.tasks.length <;> rfl
  · rename_i hp
    rw [hp] at hu
    obtain ⟨n, task, hd, htask, hprog⟩ := pending_of_progress hu
    exact ⟨_, tick_takes ha hd htask hprog, ha, hr.attached, rfl⟩
  · rename_i e hp
    rw [hp] at hu
    obtain ⟨n, task, hd, htask, hprog⟩ := pending_of_progress hu
    exact ⟨_, tick_fails ha hd htask hprog, rfl, rfl, rfl⟩
  · rename_i h₁ h₂ h₃
    -- The task is running or deferred, and only polled.
    have hbusy : ∃ r, progress p.update = some r ∧ r ≠ .returned ∧ r ≠ .threw := by
      cases hp : p.update with
      | none => exact absurd hp h₁
      | returned => exact absurd hp h₂
      | threw e => exact absurd hp (h₃ e)
      | deferred => exact ⟨_, rfl, nofun, nofun⟩
      | _ => exact ⟨_, rfl, nofun, nofun⟩
    obtain ⟨r, hprog, hne, hne'⟩ := hbusy
    rw [hprog] at hu
    obtain ⟨n, task, hd, htask, rfl⟩ := pending_of_progress hu
    have hnot : task.isReady = false := by
      rw [Bool.eq_false_iff, Ne, isReady_iff]
      exact fun h => h.elim hne hne'
    exact ⟨s, tick_polls ha hd htask hnot, hr.congr ht.symm rfl rfl⟩

/-- Each step of a page is a step of its timer, or none. -/
theorem refines_step {a : Act} (hi : Inv launch s) (hr : Refines p s)
    (hl : ∀ l, a = .tick l → launch s.tasks.length = l) (h : Page.step P p a = some p') :
    ∃ events s', run (step launch) s events = some s' ∧ Refines p' s' := by
  have stutter : ∀ {q : Page}, q.timer = p.timer → q.attached = p.attached →
      progress q.update = progress p.update →
      ∃ events s', run (step launch) s events = some s' ∧ Refines q s' := fun ht ha hu =>
    ⟨[], s, rfl, hr.congr ht ha hu⟩
  have hu := hr.update
  cases a with
  | tick l =>
    obtain ⟨ht, -, rfl⟩ := Page.step_tick h
    obtain ⟨s', hs, hr'⟩ := refines_tick hi hr ht
    rw [hl l rfl] at hr'
    exact ⟨[.tick true], s', run_cons_eq_some.mpr ⟨s', hs, rfl⟩, hr'⟩
  | fetch listing =>
    obtain ⟨hp, rfl⟩ := Page.step_fetch h
    exact stutter rfl rfl (by rw [hp]; rfl)
  | fetchThrows e =>
    obtain ⟨hp, rfl⟩ := Page.step_fetchThrows h
    rw [hp] at hu
    obtain ⟨n, task, hd, ht, hprog⟩ := pending_of_progress hu
    refine ⟨[.throws n], _, run_cons_eq_some.mpr ⟨_, finish_eq_some.mpr ⟨task, ht, hprog, rfl⟩, rfl⟩,
      hr.armed, hr.attached, ?_⟩
    rw [pending, hd, Option.bind_some, List.getElem?_set_self (List.getElem?_eq_some_iff.mp ht).1]
    rfl
  | readColumn =>
    obtain ⟨ptr, hp, rfl⟩ := Page.step_readColumn h
    exact stutter rfl rfl (by rw [hp]; rfl)
  | sortNew =>
    obtain ⟨ptr, col, ptr', hp, -, rfl⟩ := Page.step_sortNew h
    exact stutter rfl rfl (by rw [hp]; rfl)
  | publish =>
    obtain ⟨ptr, col, o, hp, rfl⟩ := Page.step_publish h
    rw [hp] at hu
    obtain ⟨n, task, hd, ht, hprog⟩ := pending_of_progress hu
    refine ⟨[.returns n], _, run_cons_eq_some.mpr ⟨_, finish_eq_some.mpr ⟨task, ht, hprog, rfl⟩, rfl⟩,
      hr.armed, hr.attached, ?_⟩
    rw [pending, hd, Option.bind_some, List.getElem?_set_self (List.getElem?_eq_some_iff.mp ht).1]
    rfl
  | takeData | writeColumn | writeSortOrder =>
    obtain ⟨so, hd, rfl⟩ := Page.step_marks rfl h
    exact stutter rfl rfl rfl
  | sortData =>
    obtain ⟨col, q, tbl, tbl', -, -, -, rfl⟩ := Page.step_sortData h
    exact stutter rfl rfl rfl
  | rightClick | readName | selectClose | dismiss =>
    obtain ⟨hd, q, c, rfl⟩ := Page.step_asks rfl h
    exact stutter rfl rfl rfl

end

/-- Every run of a page whose updates are all launched alike is a run of its
timer. -/
theorem page_run {P : Platform} {l : Launch} {t : WmiProcessTable} {acts : List Act} {p : Page}
    (hl : ∀ l', .tick l' ∈ acts → l' = l) (h : run (Page.step P) (Page.ofTable t) acts = some p) :
    ∃ events s, run (step fun _ => l) {} events = some s ∧ Refines p s := by
  have hstart : Inv (fun _ => l) {} ∧ Refines (Page.ofTable t) {} := ⟨inv_start _, rfl, rfl, rfl⟩
  have hg : ∀ a ∈ acts, ∀ l', a = .tick l' → l' = l := fun a ha l' e => hl l' (e ▸ ha)
  obtain ⟨events, s, hs, -, hr⟩ :=
    run_simulates (R := fun q s => Inv (fun _ => l) s ∧ Refines q s)
      (fun ⟨hi, hr⟩ ha hq => by
        obtain ⟨events, s', hs, hr'⟩ := refines_step hi hr (fun l' e => (ha l' e).symm) hq
        exact ⟨events, s', hs, inv_run hi hs, hr'⟩) hstart hg h
  exact ⟨events, s, hs, hr⟩

/-- So a page's table is attached while its timer is armed, and once it is
detached there is no update. -/
theorem page_detached {P : Platform} {l : Launch} {t : WmiProcessTable} {acts : List Act} {p : Page}
    (hl : ∀ l', .tick l' ∈ acts → l' = l) (h : run (Page.step P) (Page.ofTable t) acts = some p) :
    p.timer = p.attached ∧ (p.attached = false → p.update = .none) := by
  obtain ⟨events, s, hs, hr⟩ := page_run hl h
  have hi := inv_run (inv_start _) hs
  refine ⟨by rw [← hr.armed, ← hr.attached, hi.armed], fun hd => ?_⟩
  have hnone : s.hasData = none := hi.detached (hr.attached.trans hd)
  have hu := hr.update
  rw [pending, hnone] at hu
  cases hp : p.update with
  | none => rfl
  | _ =>
    rw [hp] at hu
    cases hu

end RTM.Proof.PageTimer
