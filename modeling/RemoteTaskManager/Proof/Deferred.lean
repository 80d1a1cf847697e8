import RemoteTaskManager.Proof.GridUpdateTimer

/-!
# Updates that are deferred

A task that the library defers is never run: the handler polls it with
`wait_for( 0 )`, which does not run it, and asks for its outcome only when it is
ready (`stuck_step`). Any other update can be run to its end and its outcome
taken (`canTake_of_async`). So the refresh goes on from every state if and only
if the library defers no task (`never_stuck_iff`).
-/

namespace RTM.Proof.Deferred

open RTM.Impl RTM.Proof.GridUpdateTimer
open RTM.Impl.GridUpdateTimer (step)

/-- The update that the handler holds, or else the next one. -/
def outstanding (s : GridUpdateTimer) : Nat := s.hasData.getD s.tasks.length

/-- Some ticks and ends of tasks run the update that is outstanding, and take
its outcome. -/
def CanTake (launch : Nat → Launch) (s : GridUpdateTimer) : Prop :=
  ∃ events s', run (step launch) s events = some s' ∧
    ∃ task, s'.tasks[outstanding s]? = some task ∧ Taken task

section

variable {launch : Nat → Launch} {s t : GridUpdateTimer} {n : Nat} {task : AsyncTask}

/-- A running update can return and its outcome be taken, which leaves the
timer armed and the handler with nothing. -/
theorem running_taken (ha : s.armed = true) (hd : s.hasData = some n)
    (ht : s.tasks[n]? = some task) (hp : task.progress = .running) :
    run (step launch) s [.returns n, .tick true] = some { s with
      tasks := s.tasks.set n { progress := .returned, gets := task.gets + 1 }, hasData := none } := by
  have hn : n < s.tasks.length := (List.getElem?_eq_some_iff.mp ht).1
  have hret : step launch s (.returns n) =
      some { s with tasks := s.tasks.set n { task with progress := .returned } } :=
    finish_eq_some.mpr ⟨task, ht, hp, rfl⟩
  have ht' : (s.tasks.set n { task with progress := .returned })[n]? =
      some { task with progress := .returned } := List.getElem?_set_self hn
  have htake : step launch { s with tasks := s.tasks.set n { task with progress := .returned } }
      (.tick true) = _ := tick_takes ha hd ht' rfl
  rw [run, hret, Option.bind_some, run, htake, Option.bind_some, run_nil, List.set_set]
  rfl

/-- The update that the handler holds, if it is not deferred. -/
theorem pending_taken (hi : Inv launch s) (ha : s.armed = true) (hd : s.hasData = some n)
    (hl : launch n = .async) :
    ∃ events t, run (step launch) s events = some t ∧
      ∃ task, t.tasks[n]? = some task ∧ Taken task := by
  obtain ⟨-, task, ht, hg⟩ := hi.pending n hd
  have hn : n < s.tasks.length := (List.getElem?_eq_some_iff.mp ht).1
  cases hp : task.progress with
  | running =>
    refine ⟨_, _, running_taken ha hd ht hp, _, List.getElem?_set_self hn, ?_, .inl rfl⟩
    exact congrArg (· + 1) hg
  | deferred =>
    have := (hi.launched n task ht).mp hp
    rw [hl] at this
    cases this
  | returned =>
    refine ⟨[.tick true], _, run_cons_eq_some.mpr ⟨_, tick_takes ha hd ht hp, rfl⟩, task.get,
      List.getElem?_set_self hn, ?_, .inl hp⟩
    exact congrArg (· + 1) hg
  | threw =>
    refine ⟨[.tick true], _, run_cons_eq_some.mpr ⟨_, tick_fails ha hd ht hp, rfl⟩, task.get,
      List.getElem?_set_self hn, ?_, .inr hp⟩
    exact congrArg (· + 1) hg

/-- A whole refresh, from a timer that waits to start one. -/
theorem cycle (ha : s.armed = true) (hd : s.hasData = none) (hl : launch s.tasks.length = .async) :
    run (step launch) s [.tick true, .returns s.tasks.length, .tick true] =
      some { s with tasks := s.tasks ++ [⟨.returned, 1⟩], hasData := none } := by
  have hlast : (s.tasks ++ [AsyncTask.async (launch s.tasks.length)])[s.tasks.length]? =
      some { progress := .running } := by
    rw [hl]
    exact List.getElem?_concat_length
  rw [run, tick_begins ha hd, Option.bind_some, running_taken rfl rfl hlast rfl]
  have hset : (s.tasks ++ [AsyncTask.async (launch s.tasks.length)]).set s.tasks.length
      ⟨.returned, 1⟩ = s.tasks ++ [⟨.returned, 1⟩] := by
    rw [List.set_append_right _ _ (Nat.le_refl _), Nat.sub_self]
    rfl
  rw [← ha]
  exact congrArg (fun tasks => some { s with tasks, hasData := none }) hset

theorem canTake_of_async (hi : Inv launch s) (ha : s.armed = true)
    (hl : launch (outstanding s) = .async) : CanTake launch s := by
  unfold CanTake outstanding at *
  cases hd : s.hasData with
  | some n =>
    rw [hd] at hl
    exact pending_taken hi ha hd hl
  | none =>
    rw [hd] at hl
    exact ⟨_, _, cycle ha hd hl, _, List.getElem?_concat_length, rfl, .inl rfl⟩

/-- Where as many refreshes as are wanted are not deferred, they can be made. -/
theorem reach (launch : Nat → Launch) (n : Nat) (hl : ∀ m < n, launch m = .async) :
    ∃ events s, run (step launch) {} events = some s ∧ s.tasks.length = n ∧ s.hasData = none ∧
      s.armed = true := by
  induction n with
  | zero => exact ⟨[], {}, rfl, rfl, rfl, rfl⟩
  | succ n ih =>
    obtain ⟨events, s, hrun, hlen, hd, ha⟩ := ih fun m hm => hl m (by omega)
    have hlast : launch s.tasks.length = .async := hl _ (by omega)
    refine ⟨_, _, (run_append hrun _).trans (cycle ha hd hlast), ?_, rfl, ha⟩
    rw [List.length_append, List.length_singleton, hlen]

/-- The update outstanding is the n-th, which is or will be deferred. -/
structure Stuck (launch : Nat → Launch) (n : Nat) (s : GridUpdateTimer) : Prop where
  inv : Inv launch s
  next : s.hasData = none → s.tasks.length = n
  held : ∀ m, s.hasData = some m → m = n

theorem stuck_step {e : GridUpdateTimer.Event} (hl : launch n = .deferred) (hs : Stuck launch n s)
    (h : step launch s e = some t) : Stuck launch n t := by
  have hi := inv_step hs.inv h
  by_cases he : ∃ r, e = .tick r
  · obtain ⟨r, rfl⟩ := he
    -- What the handler holds is never ready.
    have never : ∀ m task, s.hasData = some m → s.tasks[m]? = some task → task.isReady = false := by
      intro m task hd ht
      obtain rfl := hs.held m hd
      have hp := (hs.inv.launched m task ht).mpr hl
      simp only [AsyncTask.isReady, AsyncTask.waitFor, hp, reduceCtorEq, decide_false]
    obtain ⟨-, ⟨hd, rfl⟩ | ⟨m, task, hd, ht, ⟨-, rfl⟩ | ⟨hp, -, -⟩ | ⟨hr, -, -⟩⟩⟩ := step_tick h
    · exact ⟨hi, nofun, fun m hm => (Option.some.inj hm).symm.trans (hs.next hd)⟩
    · exact hs
    · have := never m task hd ht
      rw [isReady_iff.mpr (.inl hp)] at this
      cases this
    · rw [never m task hd ht] at hr
      cases hr
  · obtain ⟨m, task, p, ht, -, -, rfl⟩ := step_ends (fun r hr => he ⟨r, hr⟩) h
    exact ⟨hi, fun hd => by rw [List.length_set]; exact hs.next hd, hs.held⟩

theorem async_of_canTake (hi : Inv launch s) (h : CanTake launch s) :
    launch (outstanding s) = .async := by
  cases hl : launch (outstanding s) with
  | async => rfl
  | deferred =>
    obtain ⟨events, s', hrun, task, ht, hg, hp⟩ := h
    have hs : Stuck launch (outstanding s) s := by
      refine ⟨hi, fun hd => ?_, fun m hm => ?_⟩
      · rw [outstanding, hd]
        rfl
      · rw [outstanding, hm]
        rfl
    have hs' := run_inv (fun hs h => stuck_step hl hs h) hs hrun
    have := (hs'.inv.launched _ task ht).mpr hl
    rw [this] at hp
    rcases hp with hp | hp <;> cases hp

end

/-- From a state that a run reaches with the timer armed, the update that is
outstanding can be run and its outcome taken if and only if the library does
not defer it; so no run gets stuck if and only if it defers none. -/
theorem never_stuck_iff (launch : Nat → Launch) :
    (∀ events s, run (step launch) {} events = some s → s.armed = true →
      (CanTake launch s ↔ launch (outstanding s) = .async)) ∧
    ((∀ events s, run (step launch) {} events = some s → s.armed = true → CanTake launch s) ↔
      ∀ n, launch n = .async) := by
  have each : ∀ events s, run (step launch) {} events = some s → s.armed = true →
      (CanTake launch s ↔ launch (outstanding s) = .async) := by
    intro events s h ha
    have hi := inv_run (inv_start launch) h
    exact ⟨async_of_canTake hi, canTake_of_async hi ha⟩
  refine ⟨each, fun all n => ?_, fun hl events s h ha => (each events s h ha).mpr (hl _)⟩
  induction n using Nat.strongRecOn with
  | ind n ih =>
    obtain ⟨events, s, hrun, hlen, hd, ha⟩ := reach launch n ih
    have := (each events s hrun ha).mp (all events s hrun ha)
    rw [outstanding, hd] at this
    rw [← hlen]
    exact this

/-- An update that was started, and deferred. -/
def waiting : GridUpdateTimer where
  tasks := [⟨.deferred, 0⟩]
  hasData := some 0

/-- The first update runs, whatever becomes of the others. -/
theorem never_stuck_first :
    CanTake (fun n => if n = 0 then .async else .deferred)
      { tasks := [⟨.running, 0⟩], hasData := some 0 } :=
  ((never_stuck_iff _).1 [.tick true] _ rfl rfl).mpr rfl

/-- The timer polls a deferred update for ever. -/
theorem deferred_stuck :
    run (step fun _ => .deferred) {} [.tick true] = some waiting ∧ waiting.armed = true ∧
      ¬ CanTake (fun _ => .deferred) waiting := by
  have hrun : run (step fun _ => .deferred) {} [.tick true] = some waiting := rfl
  refine ⟨hrun, rfl, fun h => ?_⟩
  cases async_of_canTake (inv_run (inv_start _) hrun) h

end RTM.Proof.Deferred
