import RemoteTaskManager.Proof.ComOrder

/-!
# How a termination fails

`terminate_process_by_where` makes up to five calls once it is connected
(`attempts`). Two failures are answered by a return, one by nothing at all, so
that a method is called through the null pointer it left, and the last two are
not looked at: a connected call fails cleanly only if none of the five fails
(`terminate_clean_iff`). A request to terminate leaves the program if the first
three succeed (`requests_terminate`).
-/

namespace RTM.Proof.Terminate

open RTM.Impl RTM.Proof.WmiImpl RTM.Proof.ComOrder
open RTM.Proof.ComBalance (creating)

/-! ## What a call made and returned -/

/-- What a call returned. -/
def result? : ComCall → Option HRESULT
  | .coInitializeEx hres | .coInitializeSecurity hres | .coCreateInstance hres
  | .connectServer _ hres | .coSetProxyBlanket hres | .execQuery _ hres | .getObject _ hres
  | .getMethod _ hres | .spawnInstance hres | .put _ _ hres | .execMethod _ _ hres => some hres
  | .coUninit | .release _ => none

/-- The call did not fail. -/
def Succeeded (c : ComCall) : Prop := ∀ hres ∈ result? c, failed hres = false

/-- The object that a call of `ExecMethod` is for. -/
def request? : ComCall → Option WString
  | .execMethod objectPath _ _ => some objectPath
  | _ => none

/-- The requests made. -/
def requests (s : Com) : List WString := s.calls.filterMap request?

/-- No method is called through a null pointer, `ExecMethod` is called only
after calls that succeeded, and the call returns only if `ExecMethod` succeeded
and throws if not. -/
structure FailsCleanly (r : Outcome Exn Unit × Com) : Prop where
  noNull : r.1 ≠ .undefined
  execLast : ∀ p c q, r.2.calls = p ++ c :: q → request? c ≠ none → ∀ d ∈ p, Succeeded d
  ends : r.1.Throws ∨ r.1.Returns ∧ ∃ c ∈ r.2.calls, request? c ≠ none ∧ Succeeded c

section

variable {M : Machine} {R : ClassMethods} {secRes : Option HRESULT} {machine whereClause : WString}
  {o : WmiStateT} {s : Com}

/-! ## The connection -/

/-- The object is built and connected. -/
structure Opens (M : Machine) (secRes : Option HRESULT) (machine : WString) : Prop where
  ctor : ¬ CtorThrows M secRes
  server : failed (M.connectServer (WmiStateT.serverPath root machine)) = false
  blanket : failed M.coSetProxyBlanket = false

instance (M : Machine) (secRes : Option HRESULT) : Decidable (CtorThrows M secRes) :=
  inferInstanceAs (Decidable (_ ∨ _))

instance (M : Machine) (secRes : Option HRESULT) (machine : WString) :
    Decidable (Opens M secRes machine) :=
  decidable_of_iff (¬ CtorThrows M secRes ∧
    failed (M.connectServer (WmiStateT.serverPath root machine)) = false ∧
      failed M.coSetProxyBlanket = false)
    ⟨fun h => ⟨h.1, h.2.1, h.2.2⟩, fun h => ⟨h.ctor, h.server, h.blanket⟩⟩

/-- The calls of an object built. -/
theorem ctor_succeeded (h : ¬ CtorThrows M secRes) :
    ∃ s, WmiStateT.ctor M ⟨secRes, []⟩ = (.ok ⟨true, false, ⟨true⟩⟩, s) ∧
      ∀ c ∈ s.calls, Succeeded c ∧ request? c = none := by
  simp only [CtorThrows, not_or, Bool.not_eq_true] at h
  obtain ⟨hi, hs, hc⟩ := h
  refine ⟨_, ctor_ok hi (fun h => hs h) hc, ?_⟩
  cases secRes with
  | none =>
    have hs : failed M.coInitializeSecurity = false := by simpa using hs
    simp [secured, Com.log, Succeeded, result?, request?, hi, hs, hc]
  | some hres => simp [secured, Com.log, Succeeded, result?, request?, hi, hc]

/-- Calls without a request. -/
theorem requests_of_none (h : ∀ c ∈ s.calls, request? c = none) : requests s = [] :=
  List.filterMap_eq_nil_iff.mpr h

/-- An object that is not built makes no request. -/
theorem ctor_refused (h : CtorThrows M secRes) :
    ∃ e s, WmiStateT.ctor M ⟨secRes, []⟩ = (.threw e, s) ∧ ∀ c ∈ s.calls, request? c = none := by
  obtain ⟨e, s, hs, hc⟩ := ctor_threw_calls h
  refine ⟨e, s, hs, fun c hm => ?_⟩
  cases hc c hm <;> rfl

/-- `s'` comes from `s` by calls that make no request. -/
def Silent (s s' : Com) : Prop := ∃ l, s'.calls = s.calls ++ l ∧ ∀ c ∈ l, request? c = none

theorem Silent.refl (s : Com) : Silent s s := ⟨[], (List.append_nil _).symm, by simp⟩

theorem Silent.log {s' : Com} (h : Silent s s') {c : ComCall} (hc : request? c = none) :
    Silent s (s'.log c) := by
  obtain ⟨l, hl, hn⟩ := h
  refine ⟨l ++ [c], ?_, fun d hd => ?_⟩
  · rw [Com.log, hl, List.append_assoc]
  · rcases List.mem_append.mp hd with hd | hd
    · exact hn d hd
    · rw [List.mem_singleton.mp hd]
      exact hc

theorem Silent.of_none {s' : Com} (h : Silent s s') (hs : ∀ c ∈ s.calls, request? c = none) :
    ∀ c ∈ s'.calls, request? c = none := by
  obtain ⟨l, hl, hn⟩ := h
  intro c hc
  rw [hl] at hc
  exact (List.mem_append.mp hc).elim (hs c) (hn c)

theorem Silent.releaseIf {s' : Com} (h : Silent s s') (held : Bool) (i : Interface) :
    Silent s (releaseIf held i s') := by
  cases held with
  | true => exact h.log rfl
  | false => exact h

/-- The destructor makes no request. -/
theorem Silent.dtor {s' : Com} (h : Silent s s') (o : WmiStateT) : Silent s (o.dtor s') := by
  have hinit : Silent s (o.init.dtor s') := by
    unfold WmiStateCo.dtor
    split
    · exact h.log rfl
    · exact h
  exact (hinit.releaseIf o.service .service).releaseIf o.locator .locator

/-- A connection that is refused. -/
theorem connect_refused (machine : WString) (ho : o.locator = true)
    (h : ¬ (failed (M.connectServer (WmiStateT.serverPath root machine)) = false ∧
      failed M.coSetProxyBlanket = false)) :
    ∃ e o' s', WmiStateT.connect M root machine (o, s) = (.threw e, (o', s')) ∧ Silent s s' := by
  rw [WmiStateT.connect, ExecM.bind_of_ok (ExecM.get_apply _)]
  simp only [ho, Bool.true_eq_false, ↓reduceIte, ExecM.bind_apply, ExecM.outer_apply,
    ExecM.modify_apply, WmiStateT.setProxyBlanket]
  cases hs : failed (M.connectServer (WmiStateT.serverPath root machine)) with
  | true => exact ⟨_, _, _, rfl, (Silent.refl s).log rfl⟩
  | false =>
    have hb : failed M.coSetProxyBlanket = true := by simpa [hs] using h
    simp only [Bool.false_eq_true, ↓reduceIte, ExecM.bind_apply, ExecM.modifyLocal_apply,
      ExecM.outer_apply, ExecM.modify_apply, hb]
    exact ⟨_, _, _, rfl, ((Silent.refl s).log rfl).log rfl⟩

/-! ## The methods -/

/-- How the calls of the methods end, and the calls made. -/
def attempts (R : ClassMethods) (whereClause : WString) : Outcome Exn Unit × List ComCall :=
  let gotObject := ComCall.getObject (wide "Win32_Process") (R.getObject (wide "Win32_Process"))
  let gotMethod := ComCall.getMethod (wide "Terminate") (R.getMethod (wide "Terminate"))
  let spawned := ComCall.spawnInstance R.spawnInstance
  if failed (R.getObject (wide "Win32_Process")) then (.ok (), [gotObject])
  else if failed (R.getMethod (wide "Terminate")) then (.ok (), [gotObject, gotMethod])
  else if failed R.spawnInstance then (.undefined, [gotObject, gotMethod, spawned])
  else (.ok (), [gotObject, gotMethod, spawned,
    .put (wide "Reason") 1 (R.put (wide "Reason") 1),
    .execMethod whereClause (wide "Terminate") (R.execMethod whereClause (wide "Terminate"))])

/-- The calls that come before a request succeed, as far as their failure is
noticed. -/
structure Reaches (R : ClassMethods) : Prop where
  getObject : failed (R.getObject (wide "Win32_Process")) = false
  getMethod : failed (R.getMethod (wide "Terminate")) = false
  spawnInstance : failed R.spawnInstance = false

instance (R : ClassMethods) : Decidable (Reaches R) :=
  decidable_of_iff (failed (R.getObject (wide "Win32_Process")) = false ∧
    failed (R.getMethod (wide "Terminate")) = false ∧ failed R.spawnInstance = false)
    ⟨fun h => ⟨h.1, h.2.1, h.2.2⟩, fun h => ⟨h.getObject, h.getMethod, h.spawnInstance⟩⟩

/-- All five calls succeed. -/
structure AllSucceed (R : ClassMethods) (whereClause : WString) : Prop extends Reaches R where
  put : failed (R.put (wide "Reason") 1) = false
  execMethod : failed (R.execMethod whereClause (wide "Terminate")) = false

/-- The calls before the request, which is the fifth. -/
def prelude (R : ClassMethods) : List ComCall :=
  [.getObject (wide "Win32_Process") (R.getObject (wide "Win32_Process")),
    .getMethod (wide "Terminate") (R.getMethod (wide "Terminate")),
    .spawnInstance R.spawnInstance, .put (wide "Reason") 1 (R.put (wide "Reason") 1)]

def request (R : ClassMethods) (whereClause : WString) : ComCall :=
  .execMethod whereClause (wide "Terminate") (R.execMethod whereClause (wide "Terminate"))

theorem attempts_of_reaches (h : Reaches R) :
    attempts R whereClause = (.ok (), prelude R ++ [request R whereClause]) := by
  simp only [attempts, h.getObject, h.getMethod, h.spawnInstance, Bool.false_eq_true, ↓reduceIte]
  rfl

theorem request?_prelude : ∀ c ∈ prelude R, request? c = none := by
  simp [prelude, request?]

theorem succeeded_prelude (h : Reaches R) :
    (∀ c ∈ prelude R, Succeeded c) ↔ failed (R.put (wide "Reason") 1) = false := by
  simp [prelude, Succeeded, result?, h.getObject, h.getMethod, h.spawnInstance]

/-- Short of a request, nothing is thrown. -/
theorem attempts_of_not_reaches (whereClause : WString) (h : ¬ Reaches R) :
    ¬ (attempts R whereClause).1.Throws ∧ ∀ c ∈ (attempts R whereClause).2, request? c = none := by
  unfold attempts
  split
  · exact ⟨Outcome.not_throws_ok (), by simp [request?]⟩
  · split
    · exact ⟨Outcome.not_throws_ok (), by simp [request?]⟩
    · split
      · exact ⟨nofun, by simp [request?]⟩
      · rename_i h₁ h₂ h₃
        exact absurd ⟨Bool.eq_false_iff.mpr h₁, Bool.eq_false_iff.mpr h₂, Bool.eq_false_iff.mpr h₃⟩ h

theorem execTerminate_eq (ho : o.service = true) :
    execTerminate R whereClause (o, s) =
      ((attempts R whereClause).1, (o, ⟨s.secRes, s.calls ++ (attempts R whereClause).2⟩)) := by
  rw [execTerminate, ExecM.bind_of_ok (ExecM.get_apply _)]
  cases h₁ : failed (R.getObject (wide "Win32_Process")) with
  | true => simp [attempts, h₁, ho, callThrough, ExecM.bind_apply, Com.log]
  | false =>
    cases h₂ : failed (R.getMethod (wide "Terminate")) with
    | true => simp [attempts, h₁, h₂, ho, callThrough, ExecM.bind_apply, Com.log]
    | false =>
      cases h₃ : failed R.spawnInstance with
      | true => simp [attempts, h₁, h₂, h₃, ho, callThrough, ExecM.bind_apply, Com.log]
      | false => simp [attempts, h₁, h₂, h₃, ho, callThrough, ExecM.bind_apply, Com.log]

/-! ## The whole call -/

theorem terminate_refused (R : ClassMethods) (whereClause : WString)
    (h : ¬ Opens M secRes machine) :
    ∃ e s, terminateProcessByWhere M R machine whereClause ⟨secRes, []⟩ = (.threw e, s) ∧
      ∀ c ∈ s.calls, request? c = none := by
  by_cases ht : CtorThrows M secRes
  · obtain ⟨e, s, hs, hc⟩ := ctor_refused ht
    exact ⟨e, s, by rw [terminateProcessByWhere, ExecM.bind_of_threw hs], hc⟩
  · obtain ⟨s, hs, hc⟩ := ctor_succeeded ht
    obtain ⟨e, o, s', hx, hq⟩ := connect_refused (M := M) (s := s) machine
      (o := ⟨true, false, ⟨true⟩⟩) rfl fun hc => h ⟨ht, hc.1, hc.2⟩
    refine ⟨e, o.dtor s', ?_, (hq.dtor o).of_none fun c hm => (hc c hm).2⟩
    rw [terminateProcessByWhere, ExecM.bind_of_ok hs, ExecM.withLocal_apply, ← root,
      ExecM.bind_of_threw hx]

/-- A connected call: the connection's calls, those of the methods, and those of
the destructor. -/
theorem terminate_opened (R : ClassMethods) (whereClause : WString)
    (h : Opens M secRes machine) :
    ∃ s pre post, terminateProcessByWhere M R machine whereClause ⟨secRes, []⟩ =
        ((attempts R whereClause).1, s) ∧
      s.calls = pre ++ (attempts R whereClause).2 ++ post ∧
      (∀ c ∈ pre, Succeeded c ∧ request? c = none) ∧ ∀ c ∈ post, request? c = none := by
  obtain ⟨s, hs, hc⟩ := ctor_succeeded h.ctor
  have hpre : ∀ c ∈ (connected M machine s).calls, Succeeded c ∧ request? c = none := by
    simp only [connected, Com.log, List.mem_append, List.mem_singleton]
    rintro c ((hm | rfl) | rfl)
    · exact hc c hm
    · exact ⟨fun _ e => Option.some.inj e ▸ h.server, rfl⟩
    · exact ⟨fun _ e => Option.some.inj e ▸ h.blanket, rfl⟩
  obtain ⟨k, hd, hk⟩ := (Silent.refl ⟨(connected M machine s).secRes,
    (connected M machine s).calls ++ (attempts R whereClause).2⟩).dtor ⟨true, true, ⟨true⟩⟩
  rw [terminateProcessByWhere, ExecM.bind_of_ok hs, ExecM.withLocal_apply, ← root,
    ExecM.bind_of_ok (connect_ok rfl h.server h.blanket), execTerminate_eq rfl]
  have none : ∀ c ∈ ([] : List ComCall), request? c = none := fun c hc => absurd hc List.not_mem_nil
  cases ha : (attempts R whereClause).1 with
  | ok a => exact ⟨_, _, k, rfl, hd, hpre, hk⟩
  | threw e => exact ⟨_, _, k, rfl, hd, hpre, hk⟩
  | terminated => exact ⟨_, _, [], rfl, (List.append_nil _).symm, hpre, none⟩
  | undefined => exact ⟨_, _, [], rfl, (List.append_nil _).symm, hpre, none⟩

/-- A request among calls of which no other is one. -/
theorem eq_of_request {l post : List ComCall} {c r : ComCall} (hl : ∀ c ∈ l, request? c = none)
    (hpost : ∀ c ∈ post, request? c = none) (hc : c ∈ l ++ r :: post) (hreq : request? c ≠ none) :
    c = r := by
  rcases List.mem_append.mp hc with hc | hc
  · exact absurd (hl c hc) hreq
  · rcases List.mem_cons.mp hc with hc | hc
    · exact hc
    · exact absurd (hpost c hc) hreq

/-- What comes before the only request. -/
theorem eq_of_before_request {l p q post : List ComCall} {c r : ComCall}
    (hl : ∀ c ∈ l, request? c = none) (hpost : ∀ c ∈ post, request? c = none)
    (h : l ++ r :: post = p ++ c :: q) (hreq : request? c ≠ none) : p = l := by
  rcases List.append_eq_append_iff.mp h with ⟨t, rfl, ht⟩ | ⟨t, rfl, ht⟩
  · cases t with
    | nil => rw [List.append_nil]
    | cons x t =>
      -- The request would come after `r`.
      obtain ⟨-, rfl⟩ := List.cons.inj ht
      exact absurd (hpost c (by simp)) hreq
  · cases t with
    | nil => rw [List.append_nil]
    | cons x t =>
      -- The request would come before `r`.
      obtain ⟨rfl, -⟩ := List.cons.inj ht
      exact absurd (hl c (by simp)) hreq

/-- A call whose request is sent fails cleanly if neither the reason nor the
request fails. -/
theorem failsCleanly_of_reaches (ho : Opens M secRes machine) (hr : Reaches R) :
    FailsCleanly (terminateProcessByWhere M R machine whereClause ⟨secRes, []⟩) ↔
      failed (R.put (wide "Reason") 1) = false ∧
        failed (R.execMethod whereClause (wide "Terminate")) = false := by
  obtain ⟨s, pre, post, hx, hs, hpre, hpost⟩ :=
    terminate_opened R whereClause ho
  rw [attempts_of_reaches hr] at hx hs
  rw [hx]
  have hs : s.calls = (pre ++ prelude R) ++ request R whereClause :: post := by
    rw [hs]
    simp only [List.append_assoc, List.cons_append, List.nil_append]
  have hl : ∀ c ∈ pre ++ prelude R, request? c = none := fun c hc =>
    (List.mem_append.mp hc).elim (fun h => (hpre c h).2) (request?_prelude c)
  have hreq : request? (request R whereClause) ≠ none := Option.some_ne_none whereClause
  rw [← succeeded_prelude hr]
  constructor
  · intro h
    refine ⟨fun c hc => h.execLast _ _ _ hs hreq c (List.mem_append_right _ hc), ?_⟩
    rcases h.ends with ht | ⟨-, c, hc, hn, hok⟩
    · exact absurd ht (Outcome.not_throws_ok ())
    · obtain rfl := eq_of_request hl hpost (hs ▸ hc) hn
      exact hok _ rfl
  · rintro ⟨hput, hexec⟩
    refine ⟨nofun, fun p c q e hn d hd => ?_, .inr ⟨⟨(), rfl⟩, request R whereClause, ?_, hreq, ?_⟩⟩
    · obtain rfl := eq_of_before_request hl hpost (hs.symm.trans e) hn
      exact (List.mem_append.mp hd).elim (fun h => (hpre d h).1) (hput d)
    · show _ ∈ s.calls
      rw [hs]
      simp
    · exact fun _ e => Option.some.inj e ▸ hexec

/-- A connected call that does not come to its request never fails cleanly. -/
theorem not_failsCleanly (ho : Opens M secRes machine) (hr : ¬ Reaches R) :
    ¬ FailsCleanly (terminateProcessByWhere M R machine whereClause ⟨secRes, []⟩) := by
  obtain ⟨s, pre, post, hx, hs, hpre, hpost⟩ :=
    terminate_opened R whereClause ho
  obtain ⟨hthrows, hreq⟩ := attempts_of_not_reaches whereClause hr
  rw [hx]
  intro h
  rcases h.ends with ht | ⟨-, c, hc, hn, -⟩
  · exact hthrows ht
  · have hc : c ∈ pre ++ (attempts R whereClause).2 ++ post := hs ▸ hc
    simp only [List.mem_append] at hc
    rcases hc with (hc | hc) | hc
    · exact hn (hpre c hc).2
    · exact hn (hreq c hc)
    · exact hn (hpost c hc)

/-- The requests sent: one, if the machine lets the call come so far. -/
theorem requests_terminate :
    requests (terminateProcessByWhere M R machine whereClause ⟨secRes, []⟩).2 =
      if Opens M secRes machine ∧ Reaches R then [whereClause] else [] := by
  split
  · rename_i h
    obtain ⟨s, pre, post, hx, hs, hpre, hpost⟩ :=
      terminate_opened R whereClause h.1
    rw [hx, requests, hs, attempts_of_reaches h.2]
    simp only [List.filterMap_append, List.filterMap_eq_nil_iff.mpr fun c hc => (hpre c hc).2,
      List.filterMap_eq_nil_iff.mpr request?_prelude, List.filterMap_eq_nil_iff.mpr hpost,
      List.append_nil]
    rfl
  · rename_i h
    by_cases ho : Opens M secRes machine
    · obtain ⟨s, pre, post, hx, hs, hpre, hpost⟩ :=
        terminate_opened R whereClause ho
      obtain ⟨-, hreq⟩ := attempts_of_not_reaches whereClause fun hr => h ⟨ho, hr⟩
      rw [hx, requests, hs]
      simp only [List.filterMap_append, List.filterMap_eq_nil_iff.mpr fun c hc => (hpre c hc).2,
        List.filterMap_eq_nil_iff.mpr hreq, List.filterMap_eq_nil_iff.mpr hpost, List.append_nil]
    · obtain ⟨e, s, hx, hs⟩ := terminate_refused R whereClause ho
      rw [hx]
      exact requests_of_none hs

/-- A call of `terminate_process_by_where` fails cleanly exactly when it cannot
connect, or every method succeeds. -/
theorem terminate_clean_iff (M : Machine) (R : ClassMethods) (secRes : Option HRESULT)
    (machine whereClause : WString) :
    FailsCleanly (terminateProcessByWhere M R machine whereClause ⟨secRes, []⟩) ↔
      (Opens M secRes machine → AllSucceed R whereClause) := by
  by_cases ho : Opens M secRes machine
  · by_cases hr : Reaches R
    · rw [failsCleanly_of_reaches ho hr]
      exact ⟨fun h _ => ⟨hr, h.1, h.2⟩, fun h => ⟨(h ho).put, (h ho).execMethod⟩⟩
    · exact iff_of_false (not_failsCleanly ho hr) fun h => hr (h ho).toReaches
  · obtain ⟨e, s, hx, hs⟩ := terminate_refused R whereClause ho
    rw [hx]
    refine iff_of_true ⟨nofun, fun p c q e hreq => ?_, .inl ⟨e, rfl⟩⟩ fun h => absurd h ho
    have e : s.calls = p ++ c :: q := e
    have hc : c ∈ s.calls := e ▸ by simp
    exact absurd (hs c hc) hreq

end

/-! ## On a machine that connects -/

/-- Methods that return the given results. -/
def methods (getObject getMethod spawnInstance put execMethod : HRESULT) : ClassMethods where
  getObject _ := getObject
  getMethod _ := getMethod
  spawnInstance := spawnInstance
  put _ _ := put
  execMethod _ _ := execMethod

/-- What becomes of a call on a machine that connects. -/
def onConnected (R : ClassMethods) : Outcome Exn Unit × Com :=
  terminateProcessByWhere (creating S_OK) R [] (handlePath 4) ⟨none, []⟩

/-- A process that may not be terminated: the call returns. An instance that is
not spawned: a method is called through a null pointer. A reason that is not
put: the request is sent. -/
theorem terminate_fails_silently :
    (onConnected (methods S_OK S_OK S_OK S_OK 0x80041003)).1 = .ok () ∧
    (onConnected (methods S_OK S_OK 0x80041006 S_OK S_OK)).1 = .undefined ∧
    requests (onConnected (methods S_OK S_OK S_OK 0x80041002 S_OK)).2 = [handlePath 4] ∧
    ¬ FailsCleanly (onConnected (methods S_OK S_OK S_OK S_OK 0x80041003)) := by
  refine ⟨rfl, rfl, rfl, fun h => ?_⟩
  have ho : Opens (creating S_OK) none [] := by
    refine ⟨?_, rfl, rfl⟩
    rintro (h | ⟨-, h⟩ | h) <;> cases h
  have hexec := ((failsCleanly_of_reaches ho ⟨rfl, rfl, rfl⟩).mp h).2
  cases hexec

end RTM.Proof.Terminate
