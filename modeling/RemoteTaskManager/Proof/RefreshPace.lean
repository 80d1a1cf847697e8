import RemoteTaskManager.Impl.TimedProgram
import RemoteTaskManager.Proof.Repaint

/-!
# How often a page asks its machine

Between two listings that the task of a page fetches, the timer waits 500 ms at
least with the first one under way, and 1700 ms after it was painted. So in
every run the n-th listing is not fetched before 300 + 2200 n ms, whatever the
other pages, the clicks and the machine do, and however late the timer expires;
and it can be then (`refresh_pace`). An update that has ended is taken when the
timer expires next, which is in 500 ms at most.
-/

namespace RTM.Proof.RefreshPace

open RTM.Impl RTM.Proof.Page RTM.Proof.Program RTM.Proof.Progress RTM.Proof.Repaint
open RTM.Impl.TimedProgram (step)

/-- A task runs, or has ended and is not taken yet. -/
def Busy (u : Update) : Prop := u ≠ .none ∧ u ≠ .deferred

/-- The listings that a page's task has fetched, or is about to. -/
def begun (s : TimedProgram) (p : Page) : Nat := s.fetched + if p.update = .started then 1 else 0

/-- A page whose listings were begun in time. With none under way another one may
begin when the timer expires next. -/
structure Paced (s : TimedProgram) (p : Page) : Prop where
  bound : begun s p = 0 ∨ 2200 * begun s p + 300 ≤ s.waited
  waits : p.update = .none → p.timer = true → 2200 * (begun s p + 1) + 300 ≤ s.waited + s.delay
  takes : Busy p.update → 2200 * begun s p + 800 ≤ s.waited + s.delay
  soon : p.update ≠ .none → s.delay ≤ 500

section

variable {P : Platform} {s t : Page} {c d : TimedProgram} {i late : Nat} {a : Act}

/-- A step that neither begins a task nor takes one. -/
theorem Paced.congr (h : Paced c s) (hb : begun d t = begun c s) (hd : d.delay = c.delay)
    (hw : d.waited = c.waited) (ht : t.timer = s.timer)
    (hu : t.update = s.update ∨ Busy s.update ∧ Busy t.update) : Paced d t := by
  obtain ⟨hbound, hwaits, htakes, hsoon⟩ := h
  have hnone : t.update = .none → s.update = .none := fun h => hu.elim (· ▸ h) fun hb => absurd h hb.2.1
  have hnone' : s.update = .none → t.update = .none := fun h => hu.elim (· ▸ h) fun hb => absurd h hb.1.1
  have hbusy : Busy t.update → Busy s.update := fun h => hu.elim (· ▸ h) fun hb => hb.1
  refine ⟨?_, fun hn => ?_, fun hn => ?_, fun hn => ?_⟩
  · rw [hb, hw]
    exact hbound
  · rw [hb, hw, hd, ht]
    exact hwaits (hnone hn)
  · rw [hb, hw, hd]
    exact htakes (hbusy hn)
  · rw [hd]
    exact hsoon fun h => hn (hnone' h)

/-- The timer expires with a task there, and waits 250 ms more. -/
theorem paced_polls (h : Paced c s) (hn : s.update ≠ .none) (hu : t.update = s.update)
    (hd : d.delay = 250) (hw : d.waited = c.waited + (c.delay + late)) (hf : d.fetched = c.fetched) :
    Paced d t := by
  have hb : begun d t = begun c s := by rw [begun, begun, hu, hf]
  refine ⟨?_, fun h => absurd (hu ▸ h) hn, fun hbusy => ?_, fun _ => hd ▸ by decide⟩
  · have := h.bound
    omega
  · have := h.takes (hu ▸ hbusy)
    omega

/-- The handler starts the timer again, or stops it. -/
theorem tick_timer (l : Launch) (s : Page) : (s.tick l).timer = s.startOnce.isSome := by
  cases hu : s.update <;> simp only [Page.tick, Page.startOnce, hu] <;> rfl

theorem paced_tick {l : Launch} (h : Paced c s) (ht : s.timer = true)
    (hd : d.delay = s.startOnce.getD c.delay) (hw : d.waited = c.waited + (c.delay + late))
    (hf : d.fetched = c.fetched) : Paced d (s.tick l) := by
  have hbound := h.bound
  cases hu : s.update with
  | none =>
    -- A task begins, unless it is deferred
    have hwaits := h.waits hu ht
    simp only [Page.startOnce, hu, Option.getD_some] at hd
    simp only [begun, hu, reduceCtorEq, ↓reduceIte] at hbound hwaits
    cases l with
    | async =>
      simp only [Page.tick, hu, ↓reduceIte]
      refine ⟨.inr ?_, fun h => (by cases h), fun _ => ?_, fun _ => ?_⟩
      · simp only [begun, ↓reduceIte]
        omega
      · simp only [begun, ↓reduceIte]
        omega
      · omega
    | deferred =>
      simp only [Page.tick, hu, reduceCtorEq, ↓reduceIte]
      refine ⟨?_, fun h => (by cases h), fun hb => absurd rfl hb.2, fun _ => by omega⟩
      simp only [begun, reduceCtorEq, ↓reduceIte]
      omega
  | returned =>
    -- It is taken, and painted
    have htakes := h.takes ⟨by simp [hu], by simp [hu]⟩
    simp only [Page.startOnce, hu, Option.getD_some] at hd
    simp only [begun, hu, reduceCtorEq, ↓reduceIte] at hbound htakes
    simp only [Page.tick, hu]
    refine ⟨?_, fun _ _ => ?_, fun hb => absurd rfl hb.1, fun hn => absurd rfl hn⟩ <;>
      simp only [begun, reduceCtorEq, ↓reduceIte] <;> omega
  | threw e =>
    -- The timer is stopped
    have hstopped : (s.tick l).timer = false := by rw [tick_timer, Page.startOnce, hu, Option.isSome_none]
    have hnone : (s.tick l).update = .none := by simp only [Page.tick, hu]
    simp only [begun, hu, reduceCtorEq, ↓reduceIte] at hbound
    refine ⟨?_, fun _ ht => (by cases hstopped.symm.trans ht), fun hb => absurd hnone hb.1,
      fun hn => absurd hnone hn⟩
    simp only [begun, hnone, reduceCtorEq, ↓reduceIte]
    omega
  | deferred | started | fetched | readColumn | sorted =>
    simp only [Page.startOnce, hu, Option.getD_some] at hd
    simp only [Page.tick, hu]
    exact paced_polls h (by simp [hu]) hu.symm hd hw hf

/-- The steps of a task that end its call of `get_wmi_win32_process`. -/
def fetches : Act → Bool
  | .fetch _ | .fetchThrows _ => true
  | _ => false

/-- A task that fetches was about to. -/
theorem begun_ofUpdate (ha : a.ofUpdate = true) (h : Page.step P s a = some t)
    (hf : d.fetched = c.fetched + if fetches a then 1 else 0) :
    begun d t = begun c s ∧ Busy s.update ∧ Busy t.update := by
  cases a with
  | fetch | fetchThrows =>
    first | obtain ⟨hu, rfl⟩ := step_fetch h | obtain ⟨hu, rfl⟩ := step_fetchThrows h
    refine ⟨?_, hu ▸ ⟨nofun, nofun⟩, nofun, nofun⟩
    simp only [begun, hu, hf, fetches, ↓reduceIte, reduceCtorEq, Nat.add_zero]
  | readColumn =>
    obtain ⟨ptr, hu, rfl⟩ := step_readColumn h
    refine ⟨?_, hu ▸ ⟨nofun, nofun⟩, nofun, nofun⟩
    simp [begun, hu, hf, fetches]
  | sortNew =>
    obtain ⟨ptr, col, ptr', hu, -, rfl⟩ := step_sortNew h
    refine ⟨?_, hu ▸ ⟨nofun, nofun⟩, nofun, nofun⟩
    simp [begun, hu, hf, fetches]
  | publish =>
    obtain ⟨ptr, col, o, hu, rfl⟩ := step_publish h
    refine ⟨?_, hu ▸ ⟨nofun, nofun⟩, nofun, nofun⟩
    simp [begun, hu, hf, fetches]
  | _ => cases ha

theorem fetches_of_not_ofUpdate (ha : a.ofUpdate = false) : fetches a = false := by
  cases a <;> first | rfl | cases ha

/-- What is not the timer's takes no time. -/
theorem paced_step (h : Paced c s) (ha : ∀ l, a ≠ .tick l) (hstep : Page.step P s a = some t)
    (hd : d.delay = c.delay) (hw : d.waited = c.waited)
    (hf : d.fetched = c.fetched + if fetches a then 1 else 0) : Paced d t := by
  obtain ⟨ht, -, -, hu⟩ := step_apart ha hstep
  cases hof : a.ofUpdate with
  | true =>
    obtain ⟨hb, hbusy⟩ := begun_ofUpdate hof hstep hf
    exact h.congr hb hd hw ht (.inr hbusy)
  | false =>
    refine h.congr ?_ hd hw ht (.inl (hu hof))
    simp [begun, hu hof, hf, fetches_of_not_ofUpdate hof]

end

/-! ## The program -/

/-- The time runs from when the page is added. -/
structure InTime (i : Nat) (s : TimedProgram) : Prop where
  before : s.program.frame.mNotebook[i]? = none → s.fetched = 0 ∧ s.waited = 0 ∧ s.delay = firstDelay
  since : ∀ p, s.program.frame.mNotebook[i]? = some p → Paced s p.page

section

variable {P : Platform} {i : Nat} {s t : TimedProgram}

theorem inTime_start : InTime i {} := by
  refine ⟨fun _ => ⟨rfl, rfl, rfl⟩, fun p hp => ?_⟩
  have hnone : ([] : List NotebookPage)[i]? = some p := hp
  rw [List.getElem?_nil] at hnone
  cases hnone

/-- A step that takes no time, and leaves the page as it was. -/
theorem InTime.congr (h : InTime i s)
    (hn : t.program.frame.mNotebook[i]? = s.program.frame.mNotebook[i]?) (hd : t.delay = s.delay)
    (hw : t.waited = s.waited) (hf : t.fetched = s.fetched) : InTime i t := by
  refine ⟨fun hnone => ?_, fun p hp => ?_⟩
  · rw [hd, hw, hf]
    exact h.before (hn ▸ hnone)
  · refine (h.since p (hn ▸ hp)).congr ?_ hd hw rfl (.inl rfl)
    rw [begun, begun, hf]

/-- A page is added: this one, or another. -/
theorem InTime.add {p : NotebookPage} (h : InTime i s) (hu : p.page.update = .none)
    (hn : t.program.frame.mNotebook = s.program.frame.mNotebook ++ [p]) (hd : t.delay = s.delay)
    (hw : t.waited = s.waited) (hf : t.fetched = s.fetched) : InTime i t := by
  rcases Nat.lt_trichotomy i s.program.frame.mNotebook.length with hlt | rfl | hgt
  · refine h.congr ?_ hd hw hf
    rw [hn, List.getElem?_append_left hlt]
  · obtain ⟨hf₀, hw₀, hd₀⟩ := h.before (List.getElem?_eq_none (Nat.le_refl _))
    rw [hf₀] at hf
    rw [hw₀] at hw
    rw [hd₀, firstDelay] at hd
    refine ⟨fun hnone => ?_, fun q hq => ?_⟩
    · rw [hn, List.getElem?_concat_length] at hnone
      cases hnone
    · rw [hn, List.getElem?_concat_length] at hq
      obtain rfl := Option.some.inj hq
      have hb : begun t p.page = 0 := by simp only [begun, hf, hu, reduceCtorEq, ↓reduceIte]
      refine ⟨.inl hb, fun _ _ => ?_, fun hb => absurd hu hb.1, fun hn => absurd hu hn⟩
      omega
  · refine h.congr ?_ hd hw hf
    have hlen : (s.program.frame.mNotebook ++ [p]).length ≤ i := by
      rw [List.length_append]
      exact hgt
    rw [hn, List.getElem?_eq_none hlen, List.getElem?_eq_none (Nat.le_of_lt hgt)]

/-- A page is replaced: this one, or another. -/
theorem InTime.replace {p r : NotebookPage} {j : Nat} (h : InTime i s)
    (hp : s.program.frame.mNotebook[j]? = some p)
    (hn : t.program.frame.mNotebook = s.program.frame.mNotebook.set j r)
    (hi : j = i → Paced s p.page → Paced t r.page)
    (hj : j ≠ i → t.delay = s.delay ∧ t.waited = s.waited ∧ t.fetched = s.fetched) : InTime i t := by
  by_cases e : j = i
  · subst e
    have hr : t.program.frame.mNotebook[j]? = some r := by
      rw [hn, List.getElem?_set_self (List.getElem?_eq_some_iff.mp hp).1]
    refine ⟨fun hnone => ?_, fun q hq => ?_⟩
    · rw [hr] at hnone
      cases hnone
    · obtain rfl := Option.some.inj (hr.symm.trans hq)
      exact hi rfl (h.since p hp)
  · obtain ⟨hd, hw, hf⟩ := hj e
    refine h.congr ?_ hd hw hf
    rw [hn, List.getElem?_set_ne e]

/-- The timer of the page expires. -/
theorem after_tick {p : NotebookPage} (hp : s.program.frame.mNotebook[i]? = some p) (late : Nat)
    (program : Program) (l : Launch) : s.after i late program (.page i (.tick l)) = { s with
      program
      delay := p.page.startOnce.getD s.delay
      waited := s.waited + (s.delay + late) } := by
  simp only [TimedProgram.after, ↓reduceIte, hp, Option.bind_some]

theorem inTime_step {e : ProgramAct × Nat} (h : InTime i s) (hs : step P i s e = some t) :
    InTime i t := by
  obtain ⟨a, late⟩ := e
  obtain ⟨program, hprog, rfl⟩ := Option.map_eq_some_iff.mp hs
  cases a with
  | addPage host M =>
    obtain ⟨l, p, -, hp, rfl⟩ | ⟨e, -, rfl⟩ := step_addPage hprog
    · obtain ⟨rows, -, hmake⟩ := @Pages.makePage_ok P (fun _ => .ok l) host l rfl
      obtain rfl := Outcome.ok.inj (hp.symm.trans hmake)
      exact h.add rfl rfl rfl rfl rfl
    · exact h.congr rfl rfl rfl rfl
  | page j a =>
    obtain ⟨p, page, hp, hc, hstep, rfl⟩ := step_page hprog
    by_cases ha : ∃ l, a = .tick l
    · obtain ⟨l, rfl⟩ := ha
      obtain ⟨ht, -, rfl⟩ := step_tick hstep
      by_cases e : j = i
      · subst e
        rw [after_tick hp]
        exact h.replace hp rfl (fun _ hp' => paced_tick hp' ht rfl rfl rfl) (absurd rfl)
      · simp only [TimedProgram.after, e, ↓reduceIte]
        exact h.replace hp rfl (absurd · e) fun _ => ⟨rfl, rfl, rfl⟩
    · have hafter : s.after i late (s.program.setPage j { p with page }) (.page j a) =
          { s with program := s.program.setPage j { p with page } } := by
        cases a <;> first | rfl | exact absurd ⟨_, rfl⟩ ha
      rw [hafter]
      refine h.replace hp rfl (fun _ hp' => ?_) fun _ => ⟨rfl, rfl, rfl⟩
      refine paced_step hp' (fun l e => ha ⟨l, e⟩) hstep rfl rfl ?_
      cases a <;> first | rfl | cases hc
  | fetch j M =>
    obtain ⟨p, a, page, hp, ha, hstep, rfl⟩ := step_fetch hprog
    refine h.replace hp rfl (fun e hp' => ?_) fun e => ⟨rfl, rfl, if_neg e⟩
    have hfetches : fetches a = true ∧ ∀ l, a ≠ .tick l := by
      cases hr : answer P M (s.program.secRes = none) p.page.mRemoteHost <;> rw [hr] at ha <;> cases ha <;>
        exact ⟨rfl, nofun⟩
    refine paced_step hp' hfetches.2 hstep rfl rfl ?_
    rw [hfetches.1]
    exact if_pos e
  | closeByPid j M R =>
    obtain ⟨p, popup, escaped, hp, -, -, rfl⟩ := step_closeByPid hprog
    exact h.replace hp rfl (fun _ hp' => hp'.congr rfl rfl rfl rfl (.inl rfl)) fun _ => ⟨rfl, rfl, rfl⟩

/-! ## Timers that expire on time -/

variable {host : WString} {p : NotebookPage} {listing : List WmiProcess} {M : Machine} {a : ProgramAct}
  {program : Program}

theorem step_on_time (h : s.program.step P a = some program) :
    step P i s (a, 0) = some (s.after i 0 program a) := by
  rw [step, h, Option.map_some]

/-- The steps of a task take no time. -/
theorem run_on_time {acts : List Act} (ha : ∀ a ∈ acts, a.ofUpdate = true)
    (h : run (Program.step P) s.program (acts.map (.page i)) = some program) :
    run (step P i) s (acts.map fun a => (.page i a, 0)) = some { s with program } := by
  induction acts generalizing s with
  | nil =>
    obtain rfl := Option.some.inj h
    rfl
  | cons a acts ih =>
    obtain ⟨next, hstep, hrun⟩ := run_cons_eq_some.mp h
    have hafter : s.after i 0 next (.page i a) = { s with program := next } := by
      cases a <;> first | rfl | cases ha _ List.mem_cons_self
    refine run_cons_eq_some.mpr ⟨_, step_on_time hstep, ?_⟩
    rw [hafter]
    exact ih (fun b hb => ha b (List.mem_cons_of_mem _ hb)) hrun

/-- The timer expires, and the task that it starts fetches at once. -/
theorem asks (h : Serves i p host .none s.program) (ha : answer P M false host = .ok listing) :
    ∃ acts t q, run (step P i) s acts = some t ∧ Serves i q host (.fetched listing) t.program ∧
      t.fetched = s.fetched + 1 ∧ t.waited = s.waited + s.delay ∧ t.delay = 500 := by
  obtain ⟨_, hrun, h₁⟩ := h.attended (P := P) (by decide) (h.waits.tick .async) h.waits.tick_none
  obtain ⟨s₁, hstep, hs₁⟩ := run_cons_eq_some.mp hrun
  obtain rfl := Option.some.inj hs₁
  obtain ⟨s₂, q, hfetch, h₂⟩ := h₁.fetched ha
  have htick : step P i s (.page i (.tick .async), 0) =
      some { s with program := s₁, waited := s.waited + s.delay, delay := 500 } := by
    rw [step_on_time hstep, after_tick h.page, Page.startOnce, h.waits.update]
    rfl
  have hrun := run_cons_eq_some.mpr ⟨_, htick, run_cons_eq_some.mpr ⟨_, step_on_time hfetch, run_nil _⟩⟩
  exact ⟨_, _, q, hrun, h₂, if_pos rfl, rfl, rfl⟩

/-- The task ends at once, and is taken when the timer expires. -/
theorem takes (h : Serves i p host (.fetched listing) s.program) :
    ∃ acts t q, run (step P i) s acts = some t ∧ Serves i q host .none t.program ∧
      t.fetched = s.fetched ∧ t.waited = s.waited + s.delay ∧ t.delay = 1700 := by
  have hd : Defined p.page := h.ready.pages p (List.mem_of_getElem? h.page)
  have hl : holdsListing p.page.update = true := h.waits.update ▸ rfl
  obtain ⟨page, hpage, hend⟩ := Option.map_eq_some_iff.mp (update_ends P hd hl)
  rw [h.waits.update, remainingUpdate] at hpage
  have hw : Waits host .returned page := hend ▸ h.waits.run_ofUpdate (by decide) hpage
  obtain ⟨s₁, hrun₁, h₁⟩ := h.attended (by decide) hpage hw
  obtain ⟨_, hrun₂, h₂⟩ :=
    h₁.attended (P := P) (by decide) (h₁.waits.tick .async) (h₁.waits.tick_returned .async)
  obtain ⟨s₂, hstep, hs₂⟩ := run_cons_eq_some.mp hrun₂
  obtain rfl := Option.some.inj hs₂
  have htick : step P i { s with program := s₁ } (.page i (.tick .async), 0) =
      some { s with program := s₂, waited := s.waited + s.delay, delay := 1700 } := by
    rw [step_on_time hstep, after_tick h₁.page, Page.startOnce, hw.update]
    rfl
  have hrun := (run_append (run_on_time (by decide) hrun₁) _).trans
    (run_cons_eq_some.mpr ⟨_, htick, run_nil _⟩)
  exact ⟨_, _, _, hrun, h₂, rfl, rfl, rfl⟩

theorem answer_quiet (P : Platform) (first : Bool) (host : WString) :
    answer P quiet first host = .ok [] := by
  simp [answer, quiet, Listing.answering, show failed S_OK = false by decide, transform]

/-- A page of a machine that has no processes. -/
theorem adds (P : Platform) (host : WString) :
    ∃ t p, Program.step P {} (.addPage host quiet) = some t ∧ Serves 0 p host .none t := by
  have ha := answer_quiet P true host
  obtain ⟨rows, -, hmake⟩ := @Pages.makePage_ok P (fun _ => .ok []) host [] rfl
  have hget := getWmiWin32Process_answer P quiet host ⟨none, []⟩
  rcases hr : getWmiWin32Process P quiet host ⟨none, []⟩ with ⟨r, com⟩
  rw [hr] at hget
  obtain rfl : r = .ok [] := hget.trans ha
  have hstep : ∃ t, Program.step P {} (.addPage host quiet) = some t := by
    simp [Program.step, Program.idle, Program.addPage, Program.com, hr, Pages.addPage_eq, hmake]
  obtain ⟨t, hstep⟩ := hstep
  have hrun : run (Program.step P) {} [.addPage host quiet] = some t := run_cons_eq_some.mpr ⟨t, hstep, rfl⟩
  have hready : Ready t := ready_step (a := .addPage host quiet) ready_start trivial hstep
  have hsecured := secured_of_page hrun
  obtain ⟨l, p, hl, hp, rfl⟩ | ⟨e, he, -⟩ := step_addPage hstep
  · obtain rfl : l = [] := Outcome.ok.inj (hl.symm.trans ha)
    obtain rfl := Outcome.ok.inj (hp.symm.trans hmake)
    exact ⟨_, _, hstep, hready, hsecured (List.cons_ne_nil _ _), rfl, rfl, rfl, rfl, rfl, rfl, rfl⟩
  · cases he.symm.trans ha

/-- As many listings as there may be, each as soon as it may be. -/
theorem reaches (P : Platform) (n : Nat) :
    ∃ acts s p, run (step P 0) {} acts = some s ∧ Serves 0 p (wide "near") .none s.program ∧
      s.fetched = n ∧ s.waited + s.delay = 2200 * (n + 1) + 300 := by
  induction n with
  | zero =>
    obtain ⟨t, p, hstep, ht⟩ := adds P (wide "near")
    exact ⟨_, _, p, run_cons_eq_some.mpr ⟨_, step_on_time hstep, run_nil _⟩, ht, rfl, rfl⟩
  | succ n ih =>
    obtain ⟨acts, s, p, hrun, hs, hfetched, hnext⟩ := ih
    obtain ⟨acts₁, s₁, p₁, hrun₁, h₁, hfetched₁, hwaited₁, hdelay₁⟩ :=
      asks (M := quiet) hs (answer_quiet P false (wide "near"))
    obtain ⟨acts₂, s₂, p₂, hrun₂, h₂, hfetched₂, hwaited₂, hdelay₂⟩ := takes h₁
    refine ⟨acts ++ (acts₁ ++ acts₂), s₂, p₂, ?_, h₂, ?_, ?_⟩
    · rw [run_append hrun, run_append hrun₁, hrun₂]
    · rw [hfetched₂, hfetched₁, hfetched]
    · omega

end

/-- In every run, whatever the other pages and the clicks are, and however late
the timer is: the n-th listing of a page is not fetched before the timer of the
page has waited 2200 n + 300 ms, and a task that has ended is waited for 500 ms
at most. A run fetches the n-th listing then, for every n. -/
theorem refresh_pace (P : Platform) :
    (∀ i acts s, run (step P i) {} acts = some s →
      (s.fetched = 0 ∨ 2200 * s.fetched + 300 ≤ s.waited) ∧
        ∀ p, s.program.frame.mNotebook[i]? = some p → p.page.update ≠ .none → s.delay ≤ 500) ∧
    ∀ n, ∃ acts s, run (step P 0) {} acts = some s ∧ s.fetched = n + 1 ∧
      s.waited = 2200 * (n + 1) + 300 := by
  refine ⟨fun i acts s h => ?_, fun n => ?_⟩
  · have hi : InTime i s := run_inv inTime_step inTime_start h
    refine ⟨?_, fun p hp => (hi.since p hp).soon⟩
    cases hp : s.program.frame.mNotebook[i]? with
    | none => exact .inl (hi.before hp).1
    | some p =>
      have hbound := (hi.since p hp).bound
      rw [begun] at hbound
      omega
  · obtain ⟨acts, s, p, hrun, hs, hfetched, hnext⟩ := reaches P n
    obtain ⟨acts₁, s₁, p₁, hrun₁, -, hfetched₁, hwaited₁, -⟩ :=
      asks (M := quiet) hs (answer_quiet P false (wide "near"))
    refine ⟨acts ++ acts₁, s₁, (run_append hrun acts₁).trans hrun₁, ?_, ?_⟩
    · rw [hfetched₁, hfetched]
    · rw [hwaited₁, hnext]

end RTM.Proof.RefreshPace
