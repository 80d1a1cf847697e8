import RemoteTaskManager.Framework.Run
import RemoteTaskManager.Impl.GridUpdateTimer

/-!
# The protocol of the timer

What the handler of the timer, the timer and the tasks of a page keep in every
run: the outcome of every update but the one that the handler holds was taken,
once, and the table is attached while the timer is armed (`Inv`, `inv_step`).
The protocol is read off it (`timer_protocol`).
-/

namespace RTM.Proof.GridUpdateTimer

open RTM.Impl
open RTM.Impl.GridUpdateTimer (step)

/-! ## Steps -/

section

variable {launch : Nat → Launch} {s t : GridUpdateTimer} {n : Nat}

/-- What the handler does: it starts an update, polls it, shows it, or fails. -/
theorem step_tick {refreshed : Bool} (h : step launch s (.tick refreshed) = some t) :
    s.armed = true ∧
      ((s.hasData = none ∧ t = { s with
          hasData := some s.tasks.length, armed := true
          tasks := s.tasks ++ [AsyncTask.async (launch s.tasks.length)] }) ∨
        ∃ n task, s.hasData = some n ∧ s.tasks[n]? = some task ∧
          ((task.isReady = false ∧ t = s) ∨
            (task.progress = .returned ∧ refreshed = true ∧
              t = { s with tasks := s.tasks.set n task.get, hasData := none }) ∨
            (task.isReady = true ∧ (task.progress = .returned → refreshed = false) ∧ t = { s with
              tasks := s.tasks.set n task.get, hasData := none, attached := false, armed := false }))) := by
  simp only [step, Option.ite_none_right_eq_some] at h
  obtain ⟨ha, h⟩ := h
  refine ⟨ha, ?_⟩
  unfold GridUpdateTimer.handle at h
  split at h
  · rename_i hd
    exact .inl ⟨hd, (Option.some.inj h).symm⟩
  · rename_i n hd
    obtain ⟨task, ht, h⟩ := Option.bind_eq_some_iff.mp h
    refine .inr ⟨n, task, hd, ht, ?_⟩
    have hs : { s with armed := true } = s := by rw [← ha]
    split at h
    · rename_i hr
      refine .inl ⟨by simpa using hr, ?_⟩
      exact (Option.some.inj h).symm.trans hs
    · rename_i hr
      have hr : task.isReady = true := by simpa using hr
      split at h
      · rename_i hc
        refine .inr (.inl ⟨hc.1, hc.2, ?_⟩)
        rw [← hs]
        exact (Option.some.inj h).symm
      · rename_i hc
        refine .inr (.inr ⟨hr, fun hp => ?_, (Option.some.inj h).symm⟩)
        simpa [hp] using hc

theorem finish_eq_some {p : Progress} :
    s.finish n p = some t ↔ ∃ task, s.tasks[n]? = some task ∧ task.progress = .running ∧
      t = { s with tasks := s.tasks.set n { task with progress := p } } := by
  constructor
  · intro h
    obtain ⟨task, ht, h⟩ := Option.bind_eq_some_iff.mp h
    split at h
    · exact ⟨task, ht, ‹_›, (Option.some.inj h).symm⟩
    · cases h
  · rintro ⟨task, ht, hp, rfl⟩
    simp only [GridUpdateTimer.finish, ht, Option.bind_eq_bind, Option.bind_some, hp, ↓reduceIte,
      Option.pure_def]

/-- A task ends, one way or the other. -/
theorem step_ends {e : GridUpdateTimer.Event} (he : ∀ r, e ≠ .tick r) (h : step launch s e = some t) :
    ∃ n task p, s.tasks[n]? = some task ∧ task.progress = .running ∧ (p = .returned ∨ p = .threw) ∧
      t = { s with tasks := s.tasks.set n { task with progress := p } } := by
  cases e with
  | tick r => exact absurd rfl (he r)
  | returns n =>
    obtain ⟨task, ht, hp, rfl⟩ := finish_eq_some.mp h
    exact ⟨n, task, .returned, ht, hp, .inl rfl, rfl⟩
  | throws n =>
    obtain ⟨task, ht, hp, rfl⟩ := finish_eq_some.mp h
    exact ⟨n, task, .threw, ht, hp, .inr rfl, rfl⟩

end

/-! ## The invariant -/

/-- The outcome of the task was taken, once. -/
def Taken (task : AsyncTask) : Prop :=
  task.gets = 1 ∧ (task.progress = .returned ∨ task.progress = .threw)

/-- What every run keeps: the outcome of every task but the one that the
handler holds was taken, that one is the last, and the table is attached as
long as the timer is armed. -/
structure Inv (launch : Nat → Launch) (s : GridUpdateTimer) : Prop where
  taken : ∀ n task, s.tasks[n]? = some task → s.hasData ≠ some n → Taken task
  pending : ∀ n, s.hasData = some n →
    n + 1 = s.tasks.length ∧ ∃ task, s.tasks[n]? = some task ∧ task.gets = 0
  armed : s.armed = s.attached
  detached : s.attached = false → s.hasData = none
  launched : ∀ n task, s.tasks[n]? = some task →
    (task.progress = .deferred ↔ launch n = .deferred)

/-- The n-th update is under way. -/
def InFlight (s : GridUpdateTimer) (n : Nat) : Prop :=
  ∃ task, s.tasks[n]? = some task ∧ task.progress = .running

theorem inv_start (launch : Nat → Launch) : Inv launch {} := by
  refine ⟨nofun, nofun, rfl, nofun, nofun⟩

section

variable {launch : Nat → Launch} {s t : GridUpdateTimer}

/-- What a change of one task leaves of the others. -/
theorem getElem?_set_eq_some {tasks : List AsyncTask} {n m : Nat} {task task' new : AsyncTask}
    (ht : tasks[n]? = some task) (h : (tasks.set n new)[m]? = some task') :
    (m = n ∧ task' = new) ∨ (m ≠ n ∧ tasks[m]? = some task') := by
  have hn : n < tasks.length := (List.getElem?_eq_some_iff.mp ht).1
  by_cases hm : m = n
  · subst hm
    rw [List.getElem?_set_self hn] at h
    exact .inl ⟨rfl, (Option.some.inj h).symm⟩
  · rw [List.getElem?_set_ne (Ne.symm hm)] at h
    exact .inr ⟨hm, h⟩

theorem progress_async (l : Launch) : (AsyncTask.async l).progress = .deferred ↔ l = .deferred := by
  cases l <;> simp [AsyncTask.async]

theorem gets_async (l : Launch) : (AsyncTask.async l).gets = 0 := by
  cases l <;> rfl

theorem isReady_iff {task : AsyncTask} :
    task.isReady = true ↔ task.progress = .returned ∨ task.progress = .threw := by
  unfold AsyncTask.isReady AsyncTask.waitFor
  cases task.progress <;> simp

/-- An update is started. -/
theorem inv_begin (hi : Inv launch s) (hn : s.hasData = none) (ha : s.armed = true) :
    Inv launch { s with
      hasData := some s.tasks.length, armed := true
      tasks := s.tasks ++ [AsyncTask.async (launch s.tasks.length)] } := by
  have last : (s.tasks ++ [AsyncTask.async (launch s.tasks.length)])[s.tasks.length]? =
      some (AsyncTask.async (launch s.tasks.length)) := List.getElem?_concat_length
  have before : ∀ {m task}, (s.tasks ++ [AsyncTask.async (launch s.tasks.length)])[m]? = some task →
      m ≠ s.tasks.length → s.tasks[m]? = some task := by
    intro m task h hm
    have hlt := (List.getElem?_eq_some_iff.mp h).1
    rw [List.length_append, List.length_singleton] at hlt
    rwa [List.getElem?_append_left (by omega)] at h
  refine ⟨fun m task h hm => ?_, fun m hm => ?_, ?_, fun hd => ?_, fun m task h => ?_⟩
  · have hm : m ≠ s.tasks.length := fun e => hm (e ▸ rfl)
    exact hi.taken m task (before h hm) (by rw [hn]; nofun)
  · obtain rfl := Option.some.inj hm
    refine ⟨?_, _, last, gets_async _⟩
    show _ = (s.tasks ++ _).length
    rw [List.length_append, List.length_singleton]
  · exact ha.symm.trans hi.armed
  · have : s.attached = true := hi.armed.symm.trans ha
    rw [show s.attached = false from hd] at this
    cases this
  · by_cases hm : m = s.tasks.length
    · subst hm
      obtain rfl := Option.some.inj (last.symm.trans h)
      exact progress_async _
    · exact hi.launched m task (before h hm)

/-- The outcome of the task held is taken. -/
theorem inv_take {n : Nat} {task : AsyncTask} (up : Bool) (hi : Inv launch s)
    (hd : s.hasData = some n) (ht : s.tasks[n]? = some task) (hr : task.isReady = true) :
    Inv launch { s with
      tasks := s.tasks.set n task.get, hasData := none, attached := up, armed := up } := by
  obtain ⟨hlen, task', ht', hg⟩ := hi.pending n hd
  obtain rfl := Option.some.inj (ht.symm.trans ht')
  have hp := isReady_iff.mp hr
  refine ⟨fun m task' h _ => ?_, nofun, rfl, fun _ => rfl, fun m task' h => ?_⟩
  · obtain ⟨rfl, rfl⟩ | ⟨hm, h⟩ := getElem?_set_eq_some ht h
    · exact ⟨congrArg (· + 1) hg, hp⟩
    · refine hi.taken m task' h fun e => hm ?_
      exact Option.some.inj (e.symm.trans hd)
  · obtain ⟨rfl, rfl⟩ | ⟨-, h⟩ := getElem?_set_eq_some ht h
    · exact hi.launched m task ht
    · exact hi.launched m task' h

/-- An update under way is the one that the handler holds: the others have
ended before. -/
theorem Inv.hasData_of_inFlight (hi : Inv launch s) {n : Nat} (h : InFlight s n) :
    s.hasData = some n := by
  obtain ⟨task, ht, hr⟩ := h
  refine Decidable.byContradiction fun hne => ?_
  obtain ⟨-, h | h⟩ := hi.taken n task ht hne
  · rw [hr] at h
    cases h
  · rw [hr] at h
    cases h

/-- A task ends. -/
theorem inv_end {n : Nat} {task : AsyncTask} {p : Progress} (hi : Inv launch s)
    (ht : s.tasks[n]? = some task) (hr : task.progress = .running)
    (hp : p = .returned ∨ p = .threw) :
    Inv launch { s with tasks := s.tasks.set n { task with progress := p } } := by
  have hd : s.hasData = some n := hi.hasData_of_inFlight ⟨task, ht, hr⟩
  refine ⟨fun m task' h hm => ?_, fun m hm => ?_, hi.armed, hi.detached, fun m task' h => ?_⟩
  · obtain ⟨rfl, -⟩ | ⟨-, h⟩ := getElem?_set_eq_some ht h
    · exact absurd hd hm
    · exact hi.taken m task' h hm
  · obtain ⟨hlen, task', ht', hg⟩ := hi.pending m hm
    obtain rfl := Option.some.inj (hd.symm.trans hm)
    obtain rfl := Option.some.inj (ht.symm.trans ht')
    refine ⟨by rw [List.length_set]; exact hlen, { task with progress := p }, ?_, hg⟩
    exact List.getElem?_set_self (List.getElem?_eq_some_iff.mp ht).1
  · obtain ⟨rfl, rfl⟩ | ⟨-, h⟩ := getElem?_set_eq_some ht h
    · rw [← hi.launched m task ht, hr]
      rcases hp with rfl | rfl <;> exact iff_of_false nofun nofun
    · exact hi.launched m task' h

theorem inv_step {e : GridUpdateTimer.Event} (hi : Inv launch s) (h : step launch s e = some t) :
    Inv launch t := by
  by_cases he : ∃ r, e = .tick r
  · obtain ⟨r, rfl⟩ := he
    obtain ⟨ha, ⟨hn, rfl⟩ | ⟨n, task, hd, ht, ⟨-, rfl⟩ | ⟨hp, -, rfl⟩ | ⟨hr, -, rfl⟩⟩⟩ := step_tick h
    · exact inv_begin hi hn ha
    · exact hi
    · have hup : s.attached = s.armed := hi.armed.symm
      have := inv_take s.armed hi hd ht (isReady_iff.mpr (.inl hp))
      rw [← hup] at this
      simpa only [hup] using this
    · exact inv_take false hi hd ht hr
  · obtain ⟨n, task, p, ht, hr, hp, rfl⟩ := step_ends (fun r hr => he ⟨r, hr⟩) h
    exact inv_end hi ht hr hp

/-- No update is started on a table that is detached. -/
theorem detached_step {e : GridUpdateTimer.Event} (hi : Inv launch s) (hd : s.attached = false)
    (h : step launch s e = some t) : t.attached = false ∧ t.tasks.length = s.tasks.length := by
  by_cases he : ∃ r, e = .tick r
  · obtain ⟨r, rfl⟩ := he
    have ha : s.armed = false := hi.armed.trans hd
    have := (step_tick h).1
    rw [ha] at this
    cases this
  · obtain ⟨n, task, p, -, -, -, rfl⟩ := step_ends (fun r hr => he ⟨r, hr⟩) h
    exact ⟨hd, List.length_set⟩

end

/-! ## What a tick does -/

section

variable {launch : Nat → Launch} {s : GridUpdateTimer} {n : Nat} {task : AsyncTask}

/-- A tick takes the outcome of a task that has returned. -/
theorem tick_takes (ha : s.armed = true) (hd : s.hasData = some n) (ht : s.tasks[n]? = some task)
    (hp : task.progress = .returned) :
    step launch s (.tick true) = some { s with tasks := s.tasks.set n task.get, hasData := none } := by
  have hr : task.isReady = true := isReady_iff.mpr (.inl hp)
  simp only [step, ha, ↓reduceIte, GridUpdateTimer.handle, hd, ht, Option.bind_eq_bind,
    Option.bind_some, hr, Bool.not_true, Bool.false_eq_true, hp, and_self, Option.pure_def]

/-- And of one that has thrown, which detaches the table. -/
theorem tick_fails (ha : s.armed = true) (hd : s.hasData = some n) (ht : s.tasks[n]? = some task)
    (hp : task.progress = .threw) :
    step launch s (.tick true) = some { s with
      tasks := s.tasks.set n task.get, hasData := none, attached := false, armed := false } := by
  have hr : task.isReady = true := isReady_iff.mpr (.inr hp)
  simp only [step, ha, ↓reduceIte, GridUpdateTimer.handle, hd, ht, Option.bind_eq_bind,
    Option.bind_some, hr, Bool.not_true, Bool.false_eq_true, hp, reduceCtorEq, false_and,
    Option.pure_def]

/-- A tick on a task that is not ready only polls it. -/
theorem tick_polls (ha : s.armed = true) (hd : s.hasData = some n) (ht : s.tasks[n]? = some task)
    (hr : task.isReady = false) : step launch s (.tick true) = some s := by
  simp only [step, ha, ↓reduceIte, GridUpdateTimer.handle, hd, ht, Option.bind_eq_bind,
    Option.bind_some, hr, Bool.not_false, Option.pure_def]
  rw [← hd, ← ha]

/-- One tick starts an update. -/
theorem tick_begins (ha : s.armed = true) (hd : s.hasData = none) :
    step launch s (.tick true) = some { s with
      hasData := some s.tasks.length, armed := true
      tasks := s.tasks ++ [AsyncTask.async (launch s.tasks.length)] } := by
  simp only [step, ha, ↓reduceIte, GridUpdateTimer.handle, hd]

end

/-! ## The protocol -/

/-- The n-th update was started, and its outcome was not taken yet. -/
def Untaken (s : GridUpdateTimer) (n : Nat) : Prop :=
  ∃ task, s.tasks[n]? = some task ∧ task.gets = 0

/-- What holds in every state between two steps. -/
structure Protocol (s : GridUpdateTimer) : Prop where
  oneInFlight : ∀ m n, InFlight s m → InFlight s n → m = n
  hasData : ∀ n, s.hasData = some n ↔ Untaken s n
  takenOnce : ∀ n task, s.tasks[n]? = some task → s.hasData ≠ some n → task.gets = 1
  betweenTicks : (s.attached = true ∧ s.armed = true) ∨ (s.attached = false ∧ s.armed = false)
  detached : s.attached = false → ∀ n, ¬ InFlight s n

/-- The timer takes the outcome of an update that has failed, or whose refresh
of the grid fails. -/
def Fails (s : GridUpdateTimer) (e : GridUpdateTimer.Event) : Prop :=
  ∃ n task refreshed, e = .tick refreshed ∧ s.hasData = some n ∧ s.tasks[n]? = some task ∧
    (task.progress = .threw ∨ task.progress = .returned ∧ refreshed = false)

section

variable {launch : Nat → Launch} {s t : GridUpdateTimer}

theorem protocol_of_inv (hi : Inv launch s) : Protocol s := by
  refine ⟨fun m n hm hn => ?_, fun n => ⟨fun hd => ?_, fun ⟨task, ht, hg⟩ => ?_⟩,
    fun n task ht hd => (hi.taken n task ht hd).1, ?_, fun hd n hn => ?_⟩
  · have hm := hi.hasData_of_inFlight hm
    rw [hi.hasData_of_inFlight hn] at hm
    exact (Option.some.inj hm).symm
  · exact (hi.pending n hd).2
  · refine Decidable.byContradiction fun hne => ?_
    have := (hi.taken n task ht hne).1
    omega
  · rw [hi.armed]
    cases s.attached with
    | true => exact .inl ⟨rfl, rfl⟩
    | false => exact .inr ⟨rfl, rfl⟩
  · have := hi.hasData_of_inFlight hn
    rw [hi.detached hd] at this
    cases this

/-- Only a failure detaches the table. -/
theorem fails_of_detaches {e : GridUpdateTimer.Event} (h : step launch s e = some t)
    (hs : s.attached = true) (ht : t.attached = false) : Fails s e := by
  have kept : s.attached ≠ false := by
    rw [hs]
    nofun
  by_cases he : ∃ r, e = .tick r
  · obtain ⟨r, rfl⟩ := he
    obtain ⟨-, ⟨-, rfl⟩ | ⟨n, task, hd, htask, ⟨-, rfl⟩ | ⟨-, -, rfl⟩ | ⟨hr, hf, rfl⟩⟩⟩ := step_tick h
    · exact absurd ht kept
    · exact absurd ht kept
    · exact absurd ht kept
    · refine ⟨n, task, r, rfl, hd, htask, ?_⟩
      rcases isReady_iff.mp hr with hp | hp
      · exact .inr ⟨hp, hf hp⟩
      · exact .inl hp
  · obtain ⟨n, task, p, -, -, -, rfl⟩ := step_ends (fun r hr => he ⟨r, hr⟩) h
    exact absurd ht kept

theorem inv_run {events : List GridUpdateTimer.Event} (hi : Inv launch s)
    (h : run (step launch) s events = some t) : Inv launch t :=
  run_inv inv_step hi h

end

/-- In every state of every run, whatever the library makes of each
`std::async`: at most one update is under way; the handler holds the update
whose outcome is yet to be taken, and every other one was taken once; the table
is attached while the timer is armed, and detached while it is stopped, with no
update under way. Only a failure detaches it, and from then on no update is
started. -/
theorem timer_protocol (launch : Nat → Launch) {events : List GridUpdateTimer.Event}
    {s : GridUpdateTimer} (h : run (step launch) {} events = some s) :
    Protocol s ∧
      (∀ e s', step launch s e = some s' → s.attached = true → s'.attached = false → Fails s e) ∧
      (s.attached = false → ∀ events' s', run (step launch) s events' = some s' →
        s'.attached = false ∧ s'.tasks.length = s.tasks.length) := by
  have hi : Inv launch s := inv_run (inv_start launch) h
  refine ⟨protocol_of_inv hi, fun e s' h' hs ht => fails_of_detaches h' hs ht, fun hd es s' h' => ?_⟩
  have := run_inv (I := fun t => Inv launch t ∧ t.attached = false ∧ t.tasks.length = s.tasks.length)
    (fun ⟨hi, hd, hl⟩ ht => by
      obtain ⟨hd', hl'⟩ := detached_step hi hd ht
      exact ⟨inv_step hi ht, hd', hl'.trans hl⟩) ⟨hi, hd, rfl⟩ h'
  exact this.2

/-- A refresh that succeeds, and one that fails. -/
def failing : List GridUpdateTimer.Event :=
  [.tick true, .tick true, .returns 0, .tick true, .tick true, .throws 1, .tick true]

theorem timer_protocol_failing :
    ∃ s, run (step fun _ => .async) {} failing = some s ∧ Protocol s ∧ s.attached = false ∧
      s.tasks = [⟨.returned, 1⟩, ⟨.threw, 1⟩] := by
  have hrun : run (step fun _ => .async) {} failing = some _ := rfl
  exact ⟨_, hrun, (timer_protocol _ hrun).1, rfl, rfl⟩

end RTM.Proof.GridUpdateTimer
