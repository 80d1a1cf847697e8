import RemoteTaskManager.Framework.Project
import RemoteTaskManager.Impl.Program
import RemoteTaskManager.Proof.ComProtocol
import RemoteTaskManager.Proof.Listing
import RemoteTaskManager.Proof.Page
import RemoteTaskManager.Proof.Pages
import RemoteTaskManager.Proof.Terminate

/-!
# What a step of the program can do

One lemma for each step, and what `get_wmi_win32_process` gives, in full
(`getWmiWin32Process_answer`): of the calls of COM made before it, it depends on
whether one of them has initialised the security, and on nothing else.
-/

namespace RTM.Proof.Program

open RTM.Impl RTM.Proof.ComProtocol RTM.Proof.WmiImpl
open RTM.Proof.Page (step_selectClose)
open RTM.Proof.RightClick (listings)
open RTM.Impl.RemoteTaskManagementFrame (makePage)
open RTM.Impl.Program (step)

/-! ## A listing -/

/-- What `get_wmi_win32_process` gives, on a process that is to initialise its
security first, or has done so. -/
def answer (P : Platform) (M : Machine) (first : Bool) (machine : WString) :
    Outcome Exn (List WmiProcess) :=
  if failed M.coInitializeEx then
    .threw (.wmiError "Failed to init COM library" M.coInitializeEx)
  else if first ∧ failed M.coInitializeSecurity then
    .threw (.wmiError "Failed to initialize security" M.coInitializeSecurity)
  else if failed M.coCreateInstance then
    .threw (.wmiError "Failed to create IWbemLocator object" M.coCreateInstance)
  else if failed (M.connectServer (WmiStateT.serverPath root machine)) then
    .threw (.wmiError "Could not connect" (M.connectServer (WmiStateT.serverPath root machine)))
  else if failed M.coSetProxyBlanket then
    .threw (.wmiError "Could not set proxy blanket" M.coSetProxyBlanket)
  else if failed (M.execQuery allProcesses).1 then
    .threw (.wmiError "Query for Win32_Process failed" (M.execQuery allProcesses).1)
  else
    match (M.execQuery allProcesses).2 with
    | some enumeration => transform (makeWmiProcess P) enumeration
    | none => .ok []

section

variable {P : Platform} {M : Machine} {machine : WString} {o : WmiStateT} {s : Com}

theorem connect_fails (ho : o.locator = true)
    (h : failed (M.connectServer (WmiStateT.serverPath root machine)) = true) :
    (WmiStateT.connect M root machine (o, s)).1 =
      .threw (.wmiError "Could not connect" (M.connectServer (WmiStateT.serverPath root machine))) := by
  rw [WmiStateT.connect, ExecM.bind_of_ok (ExecM.get_apply _)]
  simp [ho, ExecM.bind_apply, h, ExecM.throw]

theorem connect_blanket_fails (ho : o.locator = true)
    (h : failed (M.connectServer (WmiStateT.serverPath root machine)) = false)
    (hb : failed M.coSetProxyBlanket = true) :
    (WmiStateT.connect M root machine (o, s)).1 =
      .threw (.wmiError "Could not set proxy blanket" M.coSetProxyBlanket) := by
  rw [WmiStateT.connect, ExecM.bind_of_ok (ExecM.get_apply _)]
  simp [ho, ExecM.bind_apply, h, WmiStateT.setProxyBlanket, hb, ExecM.throw]

/-- What a call gives whose first part does not return. -/
theorem bind_fst_of_threw {σ α β : Type} {x : ExecM σ Exn α} {f : α → ExecM σ Exn β} {s : σ} {e : Exn}
    (h : (x s).1 = .threw e) : ((x >>= f) s).1 = .threw e := by
  rw [ExecM.bind_apply]
  rcases hx : x s with ⟨r, s'⟩
  rw [hx] at h
  cases h
  rfl

theorem withLocal_fst {σ τ α : Type} {o : τ} {body : ExecM (τ × σ) Exn α} {dtor : τ → σ → σ} {s : σ} :
    (ExecM.withLocal o body dtor s).1 = (body (o, s)).1 := by
  rw [ExecM.withLocal_apply]
  rcases body (o, s) with ⟨_ | _ | _ | _, _, _⟩ <;> rfl

/-- An object that is built, and what it lists. -/
theorem listProcesses_answer (ho : o.locator = true) :
    (listProcesses P M machine (o, s)).1 =
      if failed (M.connectServer (WmiStateT.serverPath root machine)) then
        .threw (.wmiError "Could not connect" (M.connectServer (WmiStateT.serverPath root machine)))
      else if failed M.coSetProxyBlanket then
        .threw (.wmiError "Could not set proxy blanket" M.coSetProxyBlanket)
      else if failed (M.execQuery allProcesses).1 then
        .threw (.wmiError "Query for Win32_Process failed" (M.execQuery allProcesses).1)
      else
        match (M.execQuery allProcesses).2 with
        | some enumeration => transform (makeWmiProcess P) enumeration
        | none => .ok [] := by
  rw [listProcesses, ← root, ← allProcesses]
  cases hs : failed (M.connectServer (WmiStateT.serverPath root machine)) with
  | true => exact bind_fst_of_threw (connect_fails ho hs)
  | false =>
    cases hb : failed M.coSetProxyBlanket with
    | true => exact bind_fst_of_threw (connect_blanket_fails ho hs hb)
    | false =>
      rw [ExecM.bind_of_ok (connect_ok ho hs hb), WmiStateT.query]
      rcases M.execQuery allProcesses with ⟨hres, e⟩
      cases hf : failed hres with
      | true => simp [ExecM.bind_apply, hf, ExecM.throw]
      | false =>
        cases e <;> simp only [ExecM.bind_apply, ExecM.get_apply, Bool.true_eq_false, ↓reduceIte,
          ExecM.outer_apply, ExecM.modify_apply, hf, Bool.false_eq_true, ExecM.pure_apply, withLocal_fst,
          ExecM.lift_apply]

theorem getWmiWin32Process_answer (P : Platform) (M : Machine) (machine : WString) (s : Com) :
    (getWmiWin32Process P M machine s).1 = answer P M (s.secRes = none) machine := by
  rw [getWmiWin32Process, answer]
  cases hi : failed M.coInitializeEx with
  | true =>
    rw [ExecM.bind_of_threw (ctor_init_fails hi)]
    rfl
  | false =>
    by_cases hs : SecurityFails M (s.log (.coInitializeEx M.coInitializeEx))
    · rw [ExecM.bind_of_threw (ctor_security_fails hi hs)]
      have hs : s.secRes = none ∧ failed M.coInitializeSecurity = true := hs
      simp [hs]
    · have hs' : ¬ (s.secRes = none ∧ failed M.coInitializeSecurity = true) := hs
      cases hc : failed M.coCreateInstance with
      | true =>
        rw [ExecM.bind_of_threw (ctor_create_fails hi hs hc)]
        simp [hs']
      | false =>
        rw [ExecM.bind_of_ok (ctor_ok hi hs hc), withLocal_fst, listProcesses_answer rfl]
        simp [hs']

end

/-! ## The steps -/

section

variable {P : Platform} {s t : Program} {i : Nat} {host : WString} {M : Machine}

/-- A host that answers has a page added; one that throws, a message box shown. -/
theorem step_addPage (h : step P s (.addPage host M) = some t) :
    (∃ listing p, answer P M (s.secRes = none) host = .ok listing ∧
      makePage P (fun _ => .ok listing) host = .ok p ∧
      t = { s.used host listing (getWmiWin32Process P M host s.com).2 with
        frame := { s.frame with mNotebook := s.frame.mNotebook ++ [p] } }) ∨
    ∃ e, answer P M (s.secRes = none) host = .threw e ∧
      t = { s.used host [] (getWmiWin32Process P M host s.com).2 with
        frame := { s.frame with
          messages := s.frame.messages ++ [wide "Error connecting to " ++ host] } } := by
  simp only [step, Option.ite_none_right_eq_some] at h
  obtain ⟨-, h⟩ := h
  have ha := getWmiWin32Process_answer P M host s.com
  rw [Program.addPage] at h
  rcases hr : getWmiWin32Process P M host s.com with ⟨r, com⟩
  rw [hr] at h ha
  rw [← show r = answer P M (s.secRes = none) host from ha]
  dsimp only at h
  rw [Pages.addPage_eq] at h
  cases r with
  | ok listing =>
    obtain ⟨rows, -, hp⟩ := @Pages.makePage_ok P (fun _ => .ok listing) host listing rfl
    rw [hp, Option.some.injEq] at h
    exact .inl ⟨listing, _, rfl, hp, h.symm⟩
  | threw e =>
    rw [@Pages.makePage_threw P (fun _ => .threw e) host e rfl, Option.some.injEq] at h
    exact .inr ⟨e, rfl, h.symm⟩
  | terminated => cases h
  | undefined => cases h

theorem step_page {a : Act} (h : step P s (.page i a) = some t) :
    ∃ p page, s.frame.mNotebook[i]? = some p ∧ a.connects = false ∧
      p.page.step P a = some page ∧ t = s.setPage i { p with page } := by
  simp only [step] at h
  split at h
  · rename_i p hp
    simp only [Option.ite_none_right_eq_some, Option.map_eq_some_iff] at h
    obtain ⟨⟨ha, -⟩, page, hpage, ht⟩ := h
    exact ⟨p, page, hp, ha, hpage, ht.symm⟩
  · cases h

theorem step_fetch (h : step P s (.fetch i M) = some t) :
    ∃ p a page, s.frame.mNotebook[i]? = some p ∧
      fetchAct (answer P M (s.secRes = none) p.page.mRemoteHost) = some a ∧
      p.page.step P a = some page ∧
      t = (s.used p.page.mRemoteHost (listed (answer P M (s.secRes = none) p.page.mRemoteHost))
        (getWmiWin32Process P M p.page.mRemoteHost s.com).2).setPage i { p with page } := by
  simp only [step] at h
  split at h
  · rename_i p hp
    have ha := getWmiWin32Process_answer P M p.page.mRemoteHost s.com
    rw [Program.fetch] at h
    simp only [Option.bind_eq_bind, Option.bind_eq_some_iff, Option.pure_def, Option.some.injEq] at h
    obtain ⟨a, hfetch, page, hpage, ht⟩ := h
    rw [ha] at hfetch ht
    exact ⟨p, a, page, hp, hfetch, hpage, ht.symm⟩
  · cases h

/-- The request is sent, or an exception leaves the handler. -/
theorem step_closeByPid {R : ClassMethods} (h : step P s (.closeByPid i M R) = some t) :
    ∃ p popup escaped, s.frame.mNotebook[i]? = some p ∧ p.page.popup = some popup ∧
      ((terminateProcessByPid M R p.host popup.pid s.com).1.Returns ∨
        (terminateProcessByPid M R p.host popup.pid s.com).1.Throws) ∧
      t = { (s.used p.host [] (terminateProcessByPid M R p.host popup.pid s.com).2).setPage i
        { p with page := { p.page with popup := none, closed := popup :: p.page.closed } } with
          escaped } := by
  simp only [step] at h
  split at h
  · rename_i p hp
    simp only [Option.ite_none_right_eq_some] at h
    obtain ⟨-, h⟩ := h
    rw [Program.closeByPid] at h
    simp only [Option.bind_eq_bind, Option.bind_eq_some_iff] at h
    obtain ⟨popup, hpopup, page, hpage, h⟩ := h
    obtain ⟨q, hq, rfl⟩ := step_selectClose hpage
    obtain rfl : popup = q := Option.some.inj (hpopup.symm.trans hq)
    rcases hr : terminateProcessByPid M R p.host popup.pid s.com with ⟨r, com⟩
    rw [hr] at h
    cases r with
    | ok _ =>
      refine ⟨p, popup, s.escaped, hp, hpopup, ?_⟩
      rw [hr]
      exact ⟨.inl ⟨_, rfl⟩, (Option.some.inj h).symm⟩
    | threw e =>
      refine ⟨p, popup, s.escaped ++ [e], hp, hpopup, ?_⟩
      rw [hr]
      exact ⟨.inr ⟨e, rfl⟩, (Option.some.inj h).symm⟩
    | terminated => cases h
    | undefined => cases h
  · cases h

/-- A task goes on after a listing that returns or throws. -/
theorem ends_of_fetchAct {r : Outcome Exn (List WmiProcess)} {a : Act} (h : fetchAct r = some a) :
    r.Returns ∨ r.Throws := by
  cases r with
  | ok listing => exact .inl ⟨listing, rfl⟩
  | threw e => exact .inr ⟨e, rfl⟩
  | terminated => cases h
  | undefined => cases h

end

/-! ## The records of the program -/

/-- A process that was decoded from a record. -/
def Decoded (P : Platform) (r : WmiProcess) : Prop := ∃ obj, makeWmiProcess P obj = .ok r

section

variable {P : Platform} {M : Machine} {s t : Program} {a : ProgramAct} {machine : WString}
  {first : Bool} {listing : List WmiProcess}

theorem decoded_of_answer (h : answer P M first machine = .ok listing) :
    ∀ r ∈ listing, Decoded P r := by
  have transformed {e : Enumeration} (h : transform (makeWmiProcess P) e = .ok listing) :
      ∀ r ∈ listing, Decoded P r := by
    intro r hr
    rw [Listing.transform_eq_ok] at h
    have hm : Outcome.ok r ∈ (Listing.records e).map (makeWmiProcess P) := h ▸ List.mem_map_of_mem hr
    obtain ⟨obj, -, ho⟩ := List.mem_map.mp hm
    exact ⟨obj, ho⟩
  rw [answer] at h
  iterate 6 (split at h; · cases h)
  split at h
  · exact transformed h
  · obtain rfl := Outcome.ok.inj h
    exact fun r hr => (List.not_mem_nil hr).elim

theorem decoded_nil : ∀ r ∈ ([] : List WmiProcess), Decoded P r :=
  fun _ hr => (List.not_mem_nil hr).elim

theorem decoded_of_listed (P : Platform) (M : Machine) (first : Bool) (machine : WString) :
    ∀ r ∈ listed (answer P M first machine), Decoded P r := by
  cases ha : answer P M first machine with
  | ok listing => exact decoded_of_answer ha
  | _ => exact decoded_nil

/-- The listing of the step that a listing makes. -/
theorem listings_of_fetchAct {r : Outcome Exn (List WmiProcess)} {a : Act} (h : fetchAct r = some a) :
    ∀ l ∈ listings [a], l = listed r := by
  cases r with
  | ok listing =>
    cases h
    exact fun l hl => List.mem_singleton.mp hl
  | threw e =>
    cases h
    exact fun l hl => (List.not_mem_nil hl).elim
  | terminated => cases h
  | undefined => cases h

/-- A step that brings no listing. -/
theorem listings_of_not_connects {a : Act} (h : a.connects = false) : listings [a] = [] := by
  cases a with
  | fetch | fetchThrows | selectClose => cases h
  | _ => rfl

/-- What a page is made with, and keeps on listings of decoded records, every page
of a program has. -/
theorem pages_step {I : Page → Prop}
    (hmake : ∀ {host : WString} {rows : List WmiProcess} {so : Sorted}, (∀ r ∈ rows, Decoded P r) →
      I (Page.ofTable ⟨host, some rows, so⟩))
    (hstep : ∀ {p q : Page} {a : Act}, I p → (∀ l ∈ listings [a], ∀ r ∈ l, Decoded P r) →
      p.step P a = some q → I q)
    (hi : ∀ p ∈ s.frame.mNotebook, I p.page) (h : step P s a = some t) :
    ∀ p ∈ t.frame.mNotebook, I p.page := by
  have replaced {l : List NotebookPage} {i : Nat} {r : NotebookPage} (hl : ∀ p ∈ l, I p.page)
      (hr : I r.page) : ∀ p ∈ l.set i r, I p.page := by
    intro q hq
    rcases List.mem_or_eq_of_mem_set hq with hq | rfl
    · exact hl q hq
    · exact hr
  cases a with
  | addPage host M =>
    obtain ⟨l, p, ha, hp, rfl⟩ | ⟨e, -, rfl⟩ := step_addPage h
    · intro q hq
      rcases List.mem_append.mp hq with hq | hq
      · exact hi q hq
      · obtain rfl := List.mem_singleton.mp hq
        obtain ⟨rows, hsort, hmk⟩ := @Pages.makePage_ok P (fun _ => .ok l) host l rfl
        obtain rfl := Outcome.ok.inj (hp.symm.trans hmk)
        exact hmake fun r hr => decoded_of_answer ha r (hsort.perm.mem_iff.mp hr)
    · exact hi
  | page i a =>
    obtain ⟨p, page, hp, ha, hs, rfl⟩ := step_page h
    refine replaced hi (hstep (hi p (List.mem_of_getElem? hp)) ?_ hs)
    rw [listings_of_not_connects ha]
    exact fun l hl => (List.not_mem_nil hl).elim
  | fetch i M =>
    obtain ⟨p, a, page, hp, ha, hs, rfl⟩ := step_fetch h
    refine replaced hi (hstep (hi p (List.mem_of_getElem? hp)) (fun l hl => ?_) hs)
    rw [listings_of_fetchAct ha l hl]
    exact decoded_of_listed P M _ _
  | closeByPid i M R =>
    obtain ⟨p, popup, escaped, hp, hpopup, -, rfl⟩ := step_closeByPid h
    have hs : p.page.step P .selectClose =
        some { p.page with popup := none, closed := popup :: p.page.closed } := by
      rw [Page.step, hpopup]
    refine replaced hi (hstep (hi p (List.mem_of_getElem? hp)) (fun l hl => ?_) hs)
    exact (List.not_mem_nil hl).elim

/-- So it is in every run. -/
theorem pages_run {I : Page → Prop}
    (hmake : ∀ {host : WString} {rows : List WmiProcess} {so : Sorted}, (∀ r ∈ rows, Decoded P r) →
      I (Page.ofTable ⟨host, some rows, so⟩))
    (hstep : ∀ {p q : Page} {a : Act}, I p → (∀ l ∈ listings [a], ∀ r ∈ l, Decoded P r) →
      p.step P a = some q → I q)
    {acts : List ProgramAct} (h : run (step P) {} acts = some s) :
    ∀ p ∈ s.frame.mNotebook, I p.page :=
  run_inv (I := fun s : Program => ∀ p ∈ s.frame.mNotebook, I p.page)
    (fun hi h => pages_step hmake hstep hi h) (fun _ hp => (List.not_mem_nil hp).elim) h

end

/-! ## A page alone -/

/-- What a page does on its own. -/
inductive PageAct where
  | act (a : Act)
  | fetch (M : Machine)

/-- A page whose program has initialised its security. -/
def alone (P : Platform) (p : NotebookPage) : PageAct → Option NotebookPage
  | .act a => (p.page.step P a).map fun page => { p with page }
  | .fetch M =>
    match fetchAct (getWmiWin32Process P M p.page.mRemoteHost ⟨some S_OK, []⟩).1 with
    | some a => (p.page.step P a).map fun page => { p with page }
    | none => none

/-- What the program does that a page takes part in. -/
def own (i : Nat) : ProgramAct → Option PageAct
  | .addPage _ _ => none
  | .page j a => if j = i then some (.act a) else none
  | .fetch j M => if j = i then some (.fetch M) else none
  | .closeByPid j _ _ => if j = i then some (.act .selectClose) else none

/-- The security is initialised. -/
def Secured (s : Program) : Prop := s.secRes ≠ none

/-- An object that is built has a process whose security is initialised. -/
theorem ctor_secures (M : Machine) :
    Triple (fun _ => True) (WmiStateT.ctor M) (fun _ s => s.secRes ≠ none) fun _ => True := by
  intro s _
  cases hi : failed M.coInitializeEx with
  | true =>
    rw [ctor_init_fails hi]
    trivial
  | false =>
    by_cases hs : SecurityFails M (s.log (.coInitializeEx M.coInitializeEx))
    · rw [ctor_security_fails hi hs]
      trivial
    · cases hc : failed M.coCreateInstance with
      | true =>
        rw [ctor_create_fails hi hs hc]
        trivial
      | false =>
        rw [ctor_ok hi hs hc]
        show (secured M (s.log (.coInitializeEx M.coInitializeEx))).secRes ≠ none
        unfold secured
        split
        · exact Option.some_ne_none _
        · assumption

section

variable {P : Platform} {s t : Program}

/-- No call of COM makes a security that is initialised uninitialised. -/
theorem stable_secured (machine : WString) (asked : WString → Prop) :
    Stable machine asked fun s => s.secRes ≠ none :=
  ⟨fun _ _ _ h => h, fun _ hres _ => Option.some_ne_none hres⟩

/-- So has a listing that returns. -/
theorem getWmiWin32Process_secures (P : Platform) (M : Machine) (machine : WString) :
    Triple (fun _ => True) (getWmiWin32Process P M machine) (fun _ s => s.secRes ≠ none)
      fun _ => True := by
  refine .bind (ctor_secures M) fun o => ?_
  have hJ := stable_secured machine fun _ => False
  exact (withLocal_keeps hJ (listProcesses_keeps P hJ M)).imp (fun _ h => h) (fun _ _ h => h)
    fun _ _ => trivial

theorem secured_step {a : ProgramAct} (hi : Secured s) (h : step P s a = some t) : Secured t := by
  have listing {M : Machine} {machine : WString}
      (he : (answer P M (s.secRes = none) machine).Returns ∨
        (answer P M (s.secRes = none) machine).Throws) :
      (getWmiWin32Process P M machine s.com).2.secRes ≠ none := by
    have ha : (getWmiWin32Process P M machine s.com).1 = answer P M (s.secRes = none) machine :=
      getWmiWin32Process_answer P M machine s.com
    rw [← ha] at he
    exact (getWmiWin32Process_keeps P (stable_secured machine fun _ => False) M).of_ends hi he
  cases a with
  | addPage host M =>
    obtain ⟨l, p, ha, -, rfl⟩ | ⟨e, ha, rfl⟩ := step_addPage h
    · exact listing (.inl ⟨l, ha⟩)
    · exact listing (.inr ⟨e, ha⟩)
  | page i a =>
    obtain ⟨p, page, -, -, -, rfl⟩ := step_page h
    exact hi
  | fetch i M =>
    obtain ⟨p, a, page, -, ha, -, rfl⟩ := step_fetch h
    exact listing (ends_of_fetchAct ha)
  | closeByPid i M R =>
    obtain ⟨p, popup, escaped, -, -, he, rfl⟩ := step_closeByPid h
    exact (terminateProcessByPid_keeps (stable_secured p.host fun _ => True) trivial M R).of_ends hi he

/-- A page that a step replaces, and the others. -/
theorem getElem?_set_page {l : List NotebookPage} {i j : Nat} {p q r : NotebookPage}
    (hp : l[j]? = some p) (hq : l[i]? = some q) :
    (l.set j r)[i]? = some (if j = i then r else q) := by
  have hj : j < l.length := (List.getElem?_eq_some_iff.mp hp).1
  by_cases e : j = i
  · rw [if_pos e, ← e, List.getElem?_set_self hj]
  · rw [if_neg e, List.getElem?_set_ne e, hq]

theorem projects_page (P : Platform) (i : Nat) :
    Projects (step P) (alone P) (fun s => s.frame.mNotebook[i]?) (own i) Secured := by
  intro s a t q hi h hq
  refine ⟨secured_step hi h, ?_⟩
  have hfirst : decide (s.secRes = none) = false := decide_eq_false hi
  cases a with
  | addPage host M =>
    obtain ⟨l, p, -, -, rfl⟩ | ⟨e, -, rfl⟩ := step_addPage h
    · exact ⟨q, (List.getElem?_append_left (List.getElem?_eq_some_iff.mp hq).1).trans hq, rfl⟩
    · exact ⟨q, hq, rfl⟩
  | page j a =>
    obtain ⟨p, page, hp, -, hstep, rfl⟩ := step_page h
    refine ⟨_, getElem?_set_page hp hq, ?_⟩
    by_cases e : j = i
    · subst e
      obtain rfl : p = q := Option.some.inj (hp.symm.trans hq)
      simp [own, run, alone, hstep]
    · simp [own, e]
  | fetch j M =>
    obtain ⟨p, a, page, hp, ha, hstep, rfl⟩ := step_fetch h
    rw [hfirst] at ha
    refine ⟨_, getElem?_set_page hp hq, ?_⟩
    by_cases e : j = i
    · subst e
      obtain rfl : p = q := Option.some.inj (hp.symm.trans hq)
      have ha : fetchAct (getWmiWin32Process P M p.page.mRemoteHost ⟨some S_OK, []⟩).1 = some a := by
        rw [getWmiWin32Process_answer]
        exact ha
      simp [own, run, alone, ha, hstep]
    · simp [own, e]
  | closeByPid j M R =>
    obtain ⟨p, popup, escaped, hp, hpopup, -, rfl⟩ := step_closeByPid h
    refine ⟨_, getElem?_set_page hp hq, ?_⟩
    by_cases e : j = i
    · subst e
      obtain rfl : p = q := Option.some.inj (hp.symm.trans hq)
      simp [own, run, alone, Page.step, hpopup]
    · simp [own, e]

/-- A page is there only after a connection that was made. -/
theorem secured_of_page {acts : List ProgramAct} (h : run (step P) {} acts = some s) :
    s.frame.mNotebook ≠ [] → Secured s := by
  refine run_inv (I := fun s => s.frame.mNotebook ≠ [] → Secured s) ?_ (fun h => absurd rfl h) h
  intro s a t hi h hne
  have had (hs : s.frame.mNotebook ≠ []) : Secured t := secured_step (hi hs) h
  cases a with
  | addPage host M =>
    obtain ⟨l, p, ha, -, rfl⟩ | ⟨e, -, rfl⟩ := step_addPage h
    · have hret := getWmiWin32Process_secures P M host s.com trivial
      rcases hr : getWmiWin32Process P M host s.com with ⟨r, com⟩
      have hans : (getWmiWin32Process P M host s.com).1 = answer P M (s.secRes = none) host :=
        getWmiWin32Process_answer P M host s.com
      rw [hr, ha] at hans
      obtain rfl : r = .ok l := hans
      rw [hr] at hret
      exact hret
    · exact had hne
  | page i a =>
    obtain ⟨p, page, hp, -, -, rfl⟩ := step_page h
    exact had (List.ne_nil_of_mem (List.mem_of_getElem? hp))
  | fetch i M =>
    obtain ⟨p, a, page, hp, -, -, rfl⟩ := step_fetch h
    exact had (List.ne_nil_of_mem (List.mem_of_getElem? hp))
  | closeByPid i M R =>
    obtain ⟨p, popup, escaped, hp, -, -, rfl⟩ := step_closeByPid h
    exact had (List.ne_nil_of_mem (List.mem_of_getElem? hp))

end

/-- From when a page is added on, in every run of the program, it is what it
makes of its own events alone; so it is the same in every run that has the same
events of the page, whatever the other pages do, and whatever becomes of them. -/
theorem page_alone {P : Platform} {acts₀ acts : List ProgramAct} {s t : Program} {i : Nat}
    {p : NotebookPage} (h₀ : run (step P) {} acts₀ = some s) (hp : s.frame.mNotebook[i]? = some p)
    (h : run (step P) s acts = some t) :
    t.frame.mNotebook[i]? = run (alone P) p (acts.filterMap (own i)) ∧
      ∀ acts' t', acts'.filterMap (own i) = acts.filterMap (own i) →
        run (step P) s acts' = some t' → t'.frame.mNotebook[i]? = t.frame.mNotebook[i]? := by
  have hs : Secured s := secured_of_page h₀ (List.ne_nil_of_mem (List.mem_of_getElem? hp))
  refine ⟨run_project (projects_page P i) hs hp h, fun acts' t' hown h' => ?_⟩
  exact run_project_congr (projects_page P i) hs hs hp hp hown h' h

/-- A machine that has no processes, and one that cannot be reached. -/
def quiet : Machine := Listing.answering (.done 1)
def refusing : Machine := { quiet with connectServer := fun _ => 0x800706BA }

/-- A page is added and refreshed; the refresh of another one fails. -/
theorem page_alone_refreshed :
    let added := [.addPage (wide "near") quiet, .addPage (wide "far") quiet]
    let acts := [.page 0 (.tick .async), .page 1 (.tick .async), .fetch 1 refusing, .fetch 0 quiet,
      .page 1 (.tick .async), .page 0 .readColumn, .page 0 .sortNew, .page 0 .publish]
    ∃ s ∈ run (step .ascii) {} added, ∃ p ∈ s.frame.mNotebook[0]?, ∃ t ∈ run (step .ascii) s acts,
      t.frame.mNotebook[0]? = run (alone .ascii) p (acts.filterMap (own 0)) := by
  intro added acts
  obtain ⟨s, hs⟩ := Option.isSome_iff_exists.mp
    (show (run (step .ascii) {} added).isSome by decide +kernel)
  have hpage : ∀ s ∈ run (step .ascii) {} added, (s.frame.mNotebook[0]?).isSome := by decide +kernel
  have hrun : ∀ s ∈ run (step .ascii) {} added, (run (step .ascii) s acts).isSome := by
    decide +kernel
  obtain ⟨p, hp⟩ := Option.isSome_iff_exists.mp (hpage s hs)
  obtain ⟨t, ht⟩ := Option.isSome_iff_exists.mp (hrun s hs)
  exact ⟨s, hs, p, hp, t, ht, (page_alone hs hp ht).1⟩

/-! ## A process that is closed -/

/-- A machine of one process, which may be terminated. -/
def lone : Machine := Listing.answering (Listing.enumerate [Listing.sparse] 1)
def willing : ClassMethods := Terminate.methods S_OK S_OK S_OK S_OK S_OK

/-- `Close pid` is selected on the first of two pages; the refresh of the second
one fails. -/
def closing : List ProgramAct :=
  [.addPage (wide "near") lone, .addPage (wide "far") quiet, .page 1 (.tick .async),
    .page 0 (.rightClick 0), .page 0 .readName, .closeByPid 0 lone willing, .fetch 1 refusing]

end RTM.Proof.Program
