import RemoteTaskManager.Impl.ThreadedProgram
import RemoteTaskManager.Proof.Progress
import RemoteTaskManager.Proof.Provenance
import RemoteTaskManager.Proof.Threads

/-!
# A connection may be taken as one step

A page is there only once a connection was made, so every connection that is made
while another one is finds `sec_res` initialised, and what it gives does not
depend on the other (`Sound`). Hence the program whose connections are made step
by step reaches the frames, connections and exceptions that it reaches with each
connection made at once, where its thread goes on after it (`simulates_step`), and
no others: a connection made at once is one that no other thread comes between
(`embeds_step`).
-/

namespace RTM.Proof.ThreadedProgram

open RTM.Impl RTM.Proof.ComProtocol
open RTM.Proof.Page (step_fetch step_fetchThrows)
open RTM.Proof.Program (secured_of_page step_page)
open RTM.Proof.Progress (step_ofUpdate guard_of_page idle_iff idle_of_addPage idle_of_closeByPid)
open RTM.Proof.Provenance (step_mRemoteHost)
open RTM.Proof.Threads (alone_eq)
open RTM.Impl.ThreadedProgram (step)

/-! ## A connection under way -/

/-- What is so of a connection in a phase, where `v` is the value of `sec_res`
without the connections under way, and `value` the value with them. -/
def Sound (P : Platform) (c : Connection) (v value : Option HRESULT) :
    Phase (WmiStateCo × List ComCall) ThreadEnd → Prop
  | .begun => value = v
  | .arrived l => value = v ∧ c.before = .ok l
  | .initialising l => (value = v ∧ c.before = .ok l) ∧ v = none
  | .passed l => ∃ w, (c.job P).pass v = .ok (w, l) ∧ value = some w
  | .ended r => (c.job P).alone v = (r, value)

section

variable {P : Platform} {c : Connection} {v : Option HRESULT} {s t : Threads ProgramThread}
  {i k : ProgramThread}

theorem sound_step (h : Sound P c v s.value (s.phase i))
    (hs : Threads.step P (fun _ => c) s i = some t) : Sound P c v t.value (t.phase i) := by
  have hsteps := StaticInit.steps_of_step hs
  generalize StaticInit.settles _ s i = new at hsteps
  cases hsteps with
  | @arrive l hp hb =>
    rw [hp] at h
    rw [StaticInit.set_phase_self]
    exact ⟨h, hb⟩
  | @stop r hp hb =>
    rw [hp] at h
    have hv : s.value = v := h
    rw [StaticInit.set_phase_self]
    show (c.job P).alone v = (r, s.value)
    rw [hv, Job.alone_of_error (Job.pass_of_error hb v)]
  | @pass l w hp hg hv =>
    rw [hp] at h
    rw [StaticInit.set_phase_self]
    refine ⟨w, ?_, hv⟩
    rw [← h.1, hv]
    exact Job.pass_some h.2 w
  | @enter l hp hg hv =>
    rw [hp] at h
    have hphase : (s.set i (.initialising l)).phase i = .initialising l :=
      StaticInit.set_phase_self _
    show Sound P c v s.value ((s.set i (.initialising l)).phase i)
    rw [hphase]
    exact ⟨h, h.1.symm.trans hv⟩
  | @init l l' w hp hi =>
    rw [hp] at h
    have hphase : (s.set i (.passed l')).phase i = .passed l' := StaticInit.set_phase_self _
    show Sound P c v (some w) ((s.set i (.passed l')).phase i)
    rw [hphase]
    obtain ⟨⟨hv, hb⟩, rfl⟩ := h
    exact ⟨w, (Job.pass_none hb).trans hi, rfl⟩
  | @throw l r hp hi =>
    rw [hp] at h
    have hphase : (s.set i (.ended r)).phase i = .ended r := StaticInit.set_phase_self _
    show Sound P c v s.value ((s.set i (.ended r)).phase i)
    rw [hphase]
    obtain ⟨⟨hv, hb⟩, rfl⟩ := h
    rw [hv]
    exact Job.alone_of_error ((Job.pass_none hb).trans hi)
  | @finish l w hp hv =>
    rw [hp] at h
    obtain ⟨w', hpass, hw⟩ := h
    obtain rfl : w = w' := Option.some.inj (hv.symm.trans hw)
    rw [StaticInit.set_phase_self]
    show (c.job P).alone v = (_, s.value)
    rw [hv]
    exact Job.alone_of_ok hpass

/-- A connection that finds `sec_res` initialised leaves it, and the phases of the
others. -/
theorem value_of_step {w : HRESULT} (h : Sound P c (some w) (some w) (s.phase i))
    (hs : Threads.step P (fun _ => c) s i = some t) (hv : s.value = some w) : t.value = some w := by
  have hsteps := StaticInit.steps_of_step hs
  generalize StaticInit.settles _ s i = new at hsteps
  cases hsteps with
  | @init l l' w' hp hi =>
    rw [hp] at h
    cases h.2
  | _ => exact hv

theorem phase_of_step (hs : Threads.step P (fun _ => c) s i = some t) (hk : k ≠ i) :
    t.phase k = s.phase k :=
  (StaticInit.steps_of_step hs).of_ne hk

end

/-! ## What a thread has begun -/

/-- What a step began with is still so when its connection has ended. -/
def Begun (frame : RemoteTaskManagementFrame) (c : Connection) : ProgramAct → Prop
  | .addPage host M => c = ⟨M, .list host⟩ ∧ ∀ p ∈ frame.mNotebook, p.page.handler = .idle
  | .page _ _ => False
  | .fetch i M => ∃ p, frame.mNotebook[i]? = some p ∧ c = ⟨M, .list p.page.mRemoteHost⟩
  | .closeByPid i M R => ∃ p popup, frame.mNotebook[i]? = some p ∧ p.page.popup = some popup ∧
    c = ⟨M, .terminate R p.host popup.pid⟩ ∧ ∀ p ∈ frame.mNotebook, p.page.handler = .idle

section

variable {P : Platform} {frame : RemoteTaskManagementFrame} {c : Connection} {a : ProgramAct}
  {i : Nat} {p : NotebookPage} {page : Page}

/-- A page that a step replaces: of the host only, if no handler waits, and of its
handler and popup, if one does. -/
theorem Begun.setPage (h : Begun frame c a) (hp : frame.mNotebook[i]? = some p)
    (hhost : page.mRemoteHost = p.page.mRemoteHost)
    (hkept : a.thread = .handlers →
      page.handler = p.page.handler ∧ page.popup = p.page.popup) :
    Begun { frame with mNotebook := frame.mNotebook.set i { p with page } } c a := by
  have found {j : Nat} {q : NotebookPage} (hq : frame.mNotebook[j]? = some q) :
      ∃ r, (frame.mNotebook.set i { p with page })[j]? = some r ∧ r.host = q.host ∧
        r.page.mRemoteHost = q.page.mRemoteHost ∧
        (a.thread = .handlers → r.page.popup = q.page.popup) := by
    refine ⟨_, Program.getElem?_set_page hp hq, ?_⟩
    split
    · rename_i hij
      subst hij
      obtain rfl : p = q := Option.some.inj (hp.symm.trans hq)
      exact ⟨rfl, hhost, fun ha => (hkept ha).2⟩
    · exact ⟨rfl, rfl, fun _ => rfl⟩
  have idle (ha : a.thread = .handlers) (h : ∀ p ∈ frame.mNotebook, p.page.handler = .idle) :
      ∀ q ∈ frame.mNotebook.set i { p with page }, q.page.handler = .idle := by
    intro q hq
    rcases List.mem_or_eq_of_mem_set hq with hq | rfl
    · exact h q hq
    · exact (hkept ha).1.trans (h p (List.mem_of_getElem? hp))
  cases a with
  | addPage host M => exact ⟨h.1, idle rfl h.2⟩
  | page j b => exact h.elim
  | fetch j M =>
    obtain ⟨q, hq, rfl⟩ := h
    obtain ⟨r, hr, -, hhost, -⟩ := found hq
    exact ⟨r, hr, by rw [hhost]⟩
  | closeByPid j M R =>
    obtain ⟨q, popup, hq, hpopup, rfl, hidle⟩ := h
    obtain ⟨r, hr, hhost, -, hpop⟩ := found hq
    exact ⟨r, popup, hr, (hpop rfl).trans hpopup, by rw [hhost], idle rfl hidle⟩

/-- What a task has begun is not changed by a page that is added. -/
theorem Begun.append {notebook : List NotebookPage} {messages : List WString}
    (h : Begun frame c a) (ha : a.thread ≠ .handlers) :
    Begun ⟨frame.mNotebook ++ notebook, messages⟩ c a := by
  cases a with
  | fetch j M =>
    obtain ⟨q, hq, hc⟩ := h
    exact ⟨q, (List.getElem?_append_left (List.getElem?_eq_some_iff.mp hq).1).trans hq, hc⟩
  | _ => exact absurd rfl ha

theorem Begun.page_of_task (h : Begun frame c a) (ha : a.thread ≠ .handlers) :
    frame.mNotebook ≠ [] := by
  cases a with
  | fetch j M =>
    obtain ⟨q, hq, -⟩ := h
    exact List.ne_nil_of_mem (List.mem_of_getElem? hq)
  | _ => exact absurd rfl ha

/-- A thread that comes to its connection. -/
theorem begun_of_connection {s : ThreadedProgram} (h : s.connection a = some c) :
    Begun s.frame c a := by
  cases a with
  | addPage host M =>
    simp only [ThreadedProgram.connection, Option.ite_none_right_eq_some, Option.some.injEq] at h
    exact ⟨h.2.symm, idle_iff.mp h.1⟩
  | page j b => cases h
  | fetch j M =>
    simp only [ThreadedProgram.connection] at h
    split at h
    · simp only [Option.ite_none_right_eq_some, Option.some.injEq] at h
      exact ⟨_, ‹_›, h.2.symm⟩
    · cases h
  | closeByPid j M R =>
    simp only [ThreadedProgram.connection] at h
    split at h
    · simp only [Option.ite_none_right_eq_some, Option.map_eq_some_iff] at h
      obtain ⟨hidle, popup, hpopup, hc⟩ := h
      exact ⟨_, popup, ‹_›, hpopup, hc.symm, idle_iff.mp hidle⟩
    · cases h

end

/-! ## The end of a connection -/

section

variable {P : Platform} {s : ThreadedProgram} {c : Connection} {a : ProgramAct}
  {t : ProgramThread} {v : Option HRESULT} {r : ThreadEnd}

theorem call_of_alone (hr : (c.job P).alone v = (r, s.threads.value)) :
    c.call P ⟨v, []⟩ = (r.1, ⟨s.threads.value, r.2⟩) := by
  rw [alone_eq] at hr
  rcases hc : c.call P ⟨v, []⟩ with ⟨x, com⟩
  rw [hc] at hr
  obtain ⟨rfl, hv⟩ := Prod.mk.inj hr
  rw [← hv]

/-- What a thread does with the end of its connection is the step with the
connection made at once. -/
theorem map_leave (hb : Begun s.frame c a) (hr : (c.job P).alone v = (r, s.threads.value)) :
    (s.leave P t c.machine r a).map (·.program) =
      Program.step P ⟨s.frame, v, s.uses, s.escaped⟩ a := by
  have hcall := call_of_alone hr
  cases a with
  | addPage host M =>
    obtain ⟨rfl, hidle⟩ := hb
    have hidle : Program.idle ⟨s.frame, v, s.uses, s.escaped⟩ = true := idle_iff.mpr hidle
    have hcall : getWmiWin32Process P M host ⟨v, []⟩ = (r.1, ⟨s.threads.value, r.2⟩) := hcall
    simp only [ThreadedProgram.leave, Program.step, hidle, ↓reduceIte, Program.addPage, Program.com,
      hcall]
    rcases RemoteTaskManagementFrame.addPage P (fun _ => r.1) host s.frame with
      ⟨_ | _ | _ | _, frame⟩ <;> rfl
  | page j b => exact hb.elim
  | fetch j M =>
    obtain ⟨p, hp, rfl⟩ := hb
    have hcall : getWmiWin32Process P M p.page.mRemoteHost ⟨v, []⟩ =
        (r.1, ⟨s.threads.value, r.2⟩) := hcall
    simp only [ThreadedProgram.leave, Program.step, hp, Program.fetch, Program.com, hcall]
    cases ha : fetchAct r.1 with
    | none => rfl
    | some b =>
      cases hpage : p.page.step P b with
      | none => simp [hpage]
      | some page => simp [hpage]; rfl
  | closeByPid j M R =>
    obtain ⟨p, popup, hp, hpopup, rfl, hidle⟩ := hb
    have hidle : Program.idle ⟨s.frame, v, s.uses, s.escaped⟩ = true := idle_iff.mpr hidle
    have hcall : (terminateProcessByPid M R p.host popup.pid >>= fun _ => pure []) ⟨v, []⟩ =
        (r.1, ⟨s.threads.value, r.2⟩) := hcall
    have hstep : p.page.step P .selectClose =
        some { p.page with popup := none, closed := popup :: p.page.closed } := by
      rw [Page.step, hpopup]
    simp only [ThreadedProgram.leave, Program.step, hp, hidle, ↓reduceIte, Program.closeByPid,
      Program.com, hpopup, hstep, Option.bind_eq_bind, Option.bind_some]
    rw [ExecM.bind_apply] at hcall
    rcases ht : terminateProcessByPid M R p.host popup.pid ⟨v, []⟩ with ⟨_ | e | _ | _, com⟩ <;>
      rw [ht] at hcall <;> obtain ⟨hr, hcom⟩ := Prod.mk.inj hcall <;> rw [← hr, hcom] <;> rfl

/-- The step that ends a listing is one of the task. -/
theorem ofUpdate_of_fetchAct {x : Outcome Exn (List WmiProcess)} {b : Act}
    (h : fetchAct x = some b) : b.ofUpdate = true := by
  cases x with
  | ok listing =>
    cases h
    rfl
  | threw e =>
    cases h
    rfl
  | terminated => cases h
  | undefined => cases h

/-- The connection is no longer pending, and what the others have begun is still
so. -/
theorem leave_kept {s' : ThreadedProgram} {machine : WString}
    (h : s.leave P t machine r a = some s') :
    s'.threads = s.threads ∧ s'.pending = Function.update s.pending t none ∧
      ∀ b c', Begun s.frame c' b → b.thread ≠ a.thread → Begun s'.frame c' b := by
  cases a with
  | addPage host M =>
    simp only [ThreadedProgram.leave] at h
    rw [Pages.addPage_eq] at h
    rcases hp : RemoteTaskManagementFrame.makePage P (fun _ => r.1) host with page | e | _ | _ <;>
      rw [hp] at h <;> cases h
    · exact ⟨rfl, rfl, fun b c' hb hne => hb.append hne⟩
    · refine ⟨rfl, rfl, fun b c' hb hne => ?_⟩
      have happend : Begun ⟨s.frame.mNotebook ++ [],
          s.frame.messages ++ [wide "Error connecting to " ++ host]⟩ c' b := hb.append hne
      rwa [List.append_nil] at happend
  | page j b => cases h
  | fetch j M =>
    simp only [ThreadedProgram.leave, Option.bind_eq_bind, Option.bind_eq_some_iff, Option.pure_def,
      Option.some.injEq] at h
    obtain ⟨p, hp, b, hb, page, hpage, rfl⟩ := h
    obtain ⟨vs, d, u, rfl⟩ := step_ofUpdate (ofUpdate_of_fetchAct hb) hpage
    exact ⟨rfl, rfl, fun b c' hb _ => hb.setPage hp rfl fun _ => ⟨rfl, rfl⟩⟩
  | closeByPid j M R =>
    simp only [ThreadedProgram.leave, Option.bind_eq_bind, Option.bind_eq_some_iff] at h
    obtain ⟨p, hp, page, hpage, h⟩ := h
    have hbegun : ∀ b c', Begun s.frame c' b → b.thread ≠ .handlers →
        Begun { s.frame with mNotebook := s.frame.mNotebook.set j { p with page } } c' b :=
      fun b c' hb hne => hb.setPage hp (step_mRemoteHost hpage) fun ha => absurd ha hne
    rcases r with ⟨_ | e | _ | _, calls⟩ <;> cases h
    · exact ⟨rfl, rfl, hbegun⟩
    · exact ⟨rfl, rfl, hbegun⟩

end

/-! ## Connections made at once -/

/-- The program `s` has made, at once, the connections of `f` that have ended. -/
structure Simulates (P : Platform) (f : ThreadedProgram) (s : Program) : Prop where
  reached : ∃ acts, run (Program.step P) {} acts = some s
  frame : s.frame = f.frame
  uses : s.uses = f.uses
  escaped : s.escaped = f.escaped
  /-- A value of `sec_res` stays. -/
  kept : ∀ v, s.secRes = some v → f.threads.value = some v
  /-- Until there is a page, only the thread of the handlers gives it one. -/
  quiet : s.secRes = none → f.pending .handlers = none → f.threads.value = none
  pending : ∀ t a c, f.pending t = some (a, c) → a.thread = t ∧ Begun f.frame c a ∧
    Sound P c s.secRes f.threads.value (f.threads.phase t)

section

variable {P : Platform} {f f' : ThreadedProgram} {s : Program} {a : ProgramAct} {c : Connection}
  {t k : ProgramThread}

/-- A task is there only once `sec_res` has its value. -/
theorem Simulates.secured (h : Simulates P f s) (hb : Begun f.frame c a)
    (ha : a.thread ≠ .handlers) : ∃ v, s.secRes = some v := by
  obtain ⟨acts, hrun⟩ := h.reached
  have hne : s.frame.mNotebook ≠ [] := h.frame ▸ hb.page_of_task ha
  exact Option.ne_none_iff_exists'.mp (secured_of_page hrun hne)

/-- Of two threads that connect, one is a task. -/
theorem Simulates.secured_of_two (h : Simulates P f s) {b : ProgramAct} {d : Connection}
    (ht : f.pending t = some (a, c)) (hk : f.pending k = some (b, d)) (hne : k ≠ t) :
    ∃ v, s.secRes = some v := by
  obtain ⟨rfl, hbegun, -⟩ := h.pending t a c ht
  obtain ⟨rfl, hbegun', -⟩ := h.pending k b d hk
  by_cases ha : a.thread = .handlers
  · exact h.secured hbegun' fun hb => hne (hb.trans ha.symm)
  · exact h.secured hbegun ha

/-- A step of a page is the same step. -/
theorem simulates_page (h : Simulates P f s) {i : Nat} {b : Act}
    (hs : f.step P (.page i b) = some f') :
    ∃ s', Program.step P s (.page i b) = some s' ∧ Simulates P f' s' := by
  simp only [step, Option.ite_none_right_eq_some, Option.map_eq_some_iff] at hs
  obtain ⟨hgui, q, hq, rfl⟩ := hs
  obtain ⟨p, page, hp, hb, hpage, rfl⟩ := step_page hq
  have hguard : b.ofUpdate = true ∨ f.program.idleBut i = true := guard_of_page hq
  cases s with
  | mk frame secRes uses escaped =>
    obtain ⟨⟨acts, hrun⟩, rfl, rfl, rfl, hkept, hquiet, hpending⟩ := h
    have hstep : Program.step P ⟨f.frame, secRes, f.uses, f.escaped⟩ (.page i b) =
        some (Program.setPage ⟨f.frame, secRes, f.uses, f.escaped⟩ i { p with page }) := by
      have hguard : b.ofUpdate = true ∨
        Program.idleBut ⟨f.frame, secRes, f.uses, f.escaped⟩ i = true := hguard
      have hp : f.frame.mNotebook[i]? = some p := hp
      simp only [Program.step, hp, hb, hguard, and_self, ↓reduceIte, hpage, Option.map_some]
    refine ⟨_, hstep, ⟨acts ++ [.page i b], ?_⟩, rfl, rfl, rfl, hkept, hquiet, fun t a c ht => ?_⟩
    · rw [run_append hrun, run, hstep]
      rfl
    · obtain ⟨ha, hbegun, hsound⟩ := hpending t a c ht
      refine ⟨ha, hbegun.setPage hp (step_mRemoteHost hpage) fun hthread => ?_, hsound⟩
      have hupdate : b.ofUpdate = true := by
        refine hgui.resolve_right fun hnone => ?_
        rw [← hthread, ha, ht] at hnone
        cases hnone
      obtain ⟨vs, d, u, rfl⟩ := step_ofUpdate hupdate hpage
      exact ⟨rfl, rfl⟩

/-- A connection that is begun is not made yet. -/
theorem simulates_connect (h : Simulates P f s) (hs : f.step P (.connect a) = some f') :
    Simulates P f' s := by
  simp only [step, Option.ite_none_right_eq_some, Option.map_eq_some_iff] at hs
  obtain ⟨hnone, c, hc, rfl⟩ := hs
  have hnone : f.pending a.thread = none := Option.isNone_iff_eq_none.mp hnone
  have hbegun := begun_of_connection hc
  have hvalue : f.threads.value = s.secRes := by
    cases hsec : s.secRes with
    | some v => exact h.kept v hsec
    | none =>
      refine h.quiet hsec ?_
      by_cases ha : a.thread = .handlers
      · exact ha ▸ hnone
      · obtain ⟨v, hv⟩ := h.secured hbegun ha
        rw [hsec] at hv
        cases hv
  refine ⟨h.reached, h.frame, h.uses, h.escaped, h.kept, fun hsec hgui => h.quiet hsec ?_,
    fun k b d hk => ?_⟩
  · by_cases ha : .handlers = a.thread
    · rw [ha] at hgui ⊢
      exact hnone
    · exact (Function.update_of_ne ha ..).symm.trans hgui
  · have hk : Function.update f.pending a.thread (some (a, c)) k = some (b, d) := hk
    by_cases hka : k = a.thread
    · subst hka
      rw [Function.update_self] at hk
      cases hk
      refine ⟨rfl, hbegun, ?_⟩
      rw [StaticInit.set_phase_self]
      exact hvalue
    · rw [Function.update_of_ne hka] at hk
      obtain ⟨hb, hbegun', hsound⟩ := h.pending k b d hk
      refine ⟨hb, hbegun', ?_⟩
      rw [StaticInit.set_phase_of_ne _ hka]
      exact hsound

/-- Nor is one that goes on. -/
theorem simulates_goOn (h : Simulates P f s) (hs : f.step P (.goOn t) = some f') :
    Simulates P f' s := by
  simp only [step] at hs
  split at hs
  · rename_i a c ht
    obtain ⟨threads, hstep, rfl⟩ := Option.map_eq_some_iff.mp hs
    obtain ⟨ha, hbegun, hsound⟩ := h.pending t a c ht
    have hkept : ∀ v, s.secRes = some v → threads.value = some v := by
      intro v hv
      have hvalue := h.kept v hv
      rw [hv, hvalue] at hsound
      exact value_of_step hsound hstep hvalue
    refine ⟨h.reached, h.frame, h.uses, h.escaped, hkept, fun hsec hgui => ?_, fun k b d hk => ?_⟩
    · have hne : a.thread ≠ .handlers := by
        intro he
        have hgui : f.pending .handlers = none := hgui
        rw [← he, ha, ht] at hgui
        cases hgui
      obtain ⟨v, hv⟩ := h.secured hbegun hne
      rw [hsec] at hv
      cases hv
    · obtain ⟨hb, hbegun', hsound'⟩ := h.pending k b d hk
      refine ⟨hb, hbegun', ?_⟩
      by_cases hkt : k = t
      · subst hkt
        obtain ⟨rfl, rfl⟩ := Prod.mk.inj (Option.some.inj (ht.symm.trans hk))
        exact sound_step hsound hstep
      · obtain ⟨v, hv⟩ := h.secured_of_two ht hk hkt
        show Sound P d s.secRes threads.value (threads.phase k)
        rw [phase_of_step hstep hkt, hkept v hv, ← h.kept v hv]
        exact hsound'
  · cases hs

/-- A connection is made when its thread goes on after it. -/
theorem simulates_leave (h : Simulates P f s) (hs : f.step P (.leave t) = some f') :
    ∃ a s', Program.step P s a = some s' ∧ Simulates P f' s' := by
  simp only [step] at hs
  split at hs
  · rename_i a c r ht hphase
    obtain ⟨ha, hbegun, hsound⟩ := h.pending t a c ht
    rw [hphase] at hsound
    have hstep : Program.step P s a = some f'.program := by
      have hmap := map_leave (t := t) hbegun hsound
      rw [hs, ← h.frame, ← h.uses, ← h.escaped] at hmap
      exact hmap.symm
    obtain ⟨hthreads, hpending, hothers⟩ := leave_kept hs
    obtain ⟨acts, hrun⟩ := h.reached
    refine ⟨a, f'.program, hstep, ⟨acts ++ [a], ?_⟩, rfl, rfl, rfl, fun v hv => hv,
      fun hv _ => hv, fun k b d hk => ?_⟩
    · rw [run_append hrun, run, hstep]
      rfl
    · rw [hpending] at hk
      by_cases hkt : k = t
      · rw [hkt, Function.update_self] at hk
        cases hk
      · rw [Function.update_of_ne hkt] at hk
        obtain ⟨hb, hbegun', hsound'⟩ := h.pending k b d hk
        obtain ⟨v, hv⟩ := h.secured_of_two ht hk hkt
        refine ⟨hb, hothers b d hbegun' fun he => hkt (hb.symm.trans (he.trans ha)), ?_⟩
        show Sound P d f'.threads.value f'.threads.value (f'.threads.phase k)
        rw [hthreads, h.kept v hv, ← hv]
        rwa [h.kept v hv, ← hv] at hsound'
  · cases hs

/-- Each step of the program, connection by connection, is a step with connections
made at once, or none. -/
theorem simulates_step {e : ThreadedAct} (h : Simulates P f s) (hs : f.step P e = some f') :
    ∃ acts s', run (Program.step P) s acts = some s' ∧ Simulates P f' s' := by
  cases e with
  | page i b =>
    obtain ⟨s', hstep, h'⟩ := simulates_page h hs
    exact ⟨[.page i b], s', run_cons_eq_some.mpr ⟨s', hstep, rfl⟩, h'⟩
  | connect a => exact ⟨[], s, rfl, simulates_connect h hs⟩
  | goOn t => exact ⟨[], s, rfl, simulates_goOn h hs⟩
  | leave t =>
    obtain ⟨a, s', hstep, h'⟩ := simulates_leave h hs
    exact ⟨[a], s', run_cons_eq_some.mpr ⟨s', hstep, rfl⟩, h'⟩

theorem simulates_start (P : Platform) : Simulates P {} {} where
  reached := ⟨[], rfl⟩
  frame := rfl
  uses := rfl
  escaped := rfl
  kept _ h := h
  quiet _ _ := rfl
  pending _ _ _ h := by cases h

end

/-! ## Connections that no other thread comes between -/

/-- No connection is pending in `f`, which is otherwise as `s`. -/
structure Embeds (s : Program) (f : ThreadedProgram) : Prop where
  program : f.program = s
  pending : ∀ t, f.pending t = none
  guard : f.threads.guard = none

section

variable {P : Platform} {f : ThreadedProgram} {s s' : Program} {a : ProgramAct} {c : Connection}
  {t : ProgramThread}

/-- The steps of a connection, as those of its thread. -/
theorem run_goOn {n : Nat} {threads : Threads ProgramThread} (ht : f.pending t = some (a, c))
    (h : run (Threads.step P fun _ => c) f.threads (List.replicate n t) = some threads) :
    run (step P) f (List.replicate n (.goOn t)) = some { f with threads } := by
  induction n generalizing f with
  | zero =>
    cases h
    rfl
  | succ n ih =>
    obtain ⟨u, hu, h⟩ := run_cons_eq_some.mp h
    have hstep : f.step P (.goOn t) = some { f with threads := u } := by
      simp only [step, ht, hu, Option.map_some]
    exact run_cons_eq_some.mpr ⟨_, hstep, ih (f := { f with threads := u }) ht h⟩

/-- A listing ends in the task that is to fetch it. -/
theorem started_of_fetchAct {x : Outcome Exn (List WmiProcess)} {b : Act} {p page : Page}
    (hb : fetchAct x = some b) (h : p.step P b = some page) : p.update = .started := by
  cases x with
  | ok listing =>
    cases hb
    exact (step_fetch h).1
  | threw e =>
    cases hb
    exact (step_fetchThrows h).1
  | terminated => cases hb
  | undefined => cases hb

/-- A step with a connection begins where its thread comes to the connection. -/
theorem connection_of_step (hs : Program.step P f.program a = some s')
    (ha : ∀ i b, a ≠ .page i b) : ∃ c, f.connection a = some c := by
  cases a with
  | addPage host M =>
    have hidle := idle_of_addPage hs
    exact ⟨⟨M, .list host⟩, if_pos hidle⟩
  | page i b => exact absurd rfl (ha i b)
  | fetch i M =>
    obtain ⟨p, b, page, hp, hb, hpage, -⟩ := Program.step_fetch hs
    have hp : f.frame.mNotebook[i]? = some p := hp
    have hstarted := started_of_fetchAct hb hpage
    refine ⟨⟨M, .list p.page.mRemoteHost⟩, ?_⟩
    simp only [ThreadedProgram.connection, hp, hstarted, ↓reduceIte]
  | closeByPid i M R =>
    have hidle := idle_of_closeByPid hs
    obtain ⟨p, popup, -, hp, hpopup, -, -⟩ := Program.step_closeByPid hs
    have hp : f.frame.mNotebook[i]? = some p := hp
    refine ⟨⟨M, .terminate R p.host popup.pid⟩, ?_⟩
    simp only [ThreadedProgram.connection, hp, hidle, ↓reduceIte, hpopup, Option.map_some]

/-- A connection that is made at once. -/
theorem embeds_step (h : Embeds s f) (hs : Program.step P s a = some s') :
    ∃ acts f', run (step P) f acts = some f' ∧ Embeds s' f' := by
  obtain ⟨rfl, hpending, hguard⟩ := h
  by_cases hpage : ∃ i b, a = .page i b
  · obtain ⟨i, b, rfl⟩ := hpage
    obtain ⟨p, page, -, -, -, rfl⟩ := step_page hs
    have hstep : f.step P (.page i b) =
        some { f with frame := (f.program.setPage i { p with page }).frame } := by
      simp only [step, hpending, Option.isNone_none, or_true, ↓reduceIte, hs, Option.map_some]
    exact ⟨[.page i b], _, run_cons_eq_some.mpr ⟨_, hstep, rfl⟩, rfl, hpending, hguard⟩
  · obtain ⟨c, hc⟩ := connection_of_step hs fun i b e => hpage ⟨i, b, e⟩
    have hconnect : f.step P (.connect a) = some { f with
        pending := Function.update f.pending a.thread (some (a, c))
        threads := f.threads.set a.thread .begun } := by
      simp only [step, hpending, Option.isNone_none, ↓reduceIte, hc, Option.map_some]
    have hends : StaticInit.EndsWith (fun _ => c.job P) (f.threads.set a.thread .begun) a.thread
        ((c.job P).alone f.threads.value).1 ((c.job P).alone f.threads.value).2 :=
      StaticInit.endsWith_alone (StaticInit.set_phase_self _) hguard
    obtain ⟨n, threads, hrun, hguard', hended, hvalue⟩ := hends
    let g : ThreadedProgram :=
      { f with pending := Function.update f.pending a.thread (some (a, c)), threads }
    have ht : g.pending a.thread = some (a, c) := Function.update_self ..
    have hgo : run (step P) { g with threads := f.threads.set a.thread .begun }
        (List.replicate n (.goOn a.thread)) = some g :=
      run_goOn (f := { g with threads := f.threads.set a.thread .begun }) ht hrun
    have hmap : (g.leave P a.thread c.machine ((c.job P).alone f.threads.value).1 a).map (·.program) =
        some s' :=
      (map_leave (s := g) (begun_of_connection hc) (Prod.ext rfl hvalue.symm)).trans hs
    obtain ⟨f', hleave, rfl⟩ := Option.map_eq_some_iff.mp hmap
    obtain ⟨hthreads, hnone, -⟩ := leave_kept hleave
    have hstep : g.step P (.leave a.thread) = some f' := by
      have hphase : g.threads.phase a.thread = .ended ((c.job P).alone f.threads.value).1 := hended
      simp only [step, ht, hphase]
      exact hleave
    refine ⟨.connect a :: (List.replicate n (.goOn a.thread) ++ [.leave a.thread]), f',
      run_cons_eq_some.mpr ⟨_, hconnect, ?_⟩, rfl, fun k => ?_, ?_⟩
    · exact (run_append hgo _).trans (run_cons_eq_some.mpr ⟨f', hstep, rfl⟩)
    · rw [hnone]
      by_cases hk : k = a.thread
      · rw [hk, Function.update_self]
      · rw [Function.update_of_ne hk]
        exact (Function.update_of_ne hk ..).trans (hpending k)
    · rw [hthreads]
      exact hguard'

theorem embeds_start : Embeds {} {} := ⟨rfl, fun _ => rfl, rfl⟩

end

/-- The program reaches the same pages, connections and exceptions whether every
connection is made step by step, with any other thread's steps between, or at
once. -/
theorem reached_iff (P : Platform) (frame : RemoteTaskManagementFrame) (uses : List WmiUse)
    (escaped : List Exn) :
    (∃ acts f, run (step P) {} acts = some f ∧ f.frame = frame ∧ f.uses = uses ∧
      f.escaped = escaped) ↔
    ∃ acts s, run (Program.step P) {} acts = some s ∧ s.frame = frame ∧ s.uses = uses ∧
      s.escaped = escaped := by
  constructor
  · rintro ⟨acts, f, hrun, rfl, rfl, rfl⟩
    obtain ⟨acts', s, hrun', h⟩ := run_simulates (R := Simulates P) (G := fun _ => True)
      (fun h _ hs => simulates_step h hs) (simulates_start P) (fun _ _ => trivial) hrun
    exact ⟨acts', s, hrun', h.frame, h.uses, h.escaped⟩
  · rintro ⟨acts, s, hrun, rfl, rfl, rfl⟩
    obtain ⟨acts', f, hrun', h⟩ := run_simulates (R := Embeds) (G := fun _ => True)
      (fun h _ hs => embeds_step h hs) embeds_start (fun _ _ => trivial) hrun
    obtain ⟨rfl, -, -⟩ := h
    exact ⟨acts', f, hrun', rfl, rfl, rfl⟩

end RTM.Proof.ThreadedProgram
