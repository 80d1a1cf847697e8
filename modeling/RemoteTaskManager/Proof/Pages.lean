import RemoteTaskManager.Impl.RemoteTaskManagement
import RemoteTaskManager.Proof.WmiProcessTable

/-!
# The pages of the notebook

`add_page` adds a page if the first listing of its host succeeds, and shows a
message box if it does not (`addPage_eq`, `makePage_ok`), so the pages are those
of the hosts it is called with that answer (`session_hosts`). The handler of `id_open_remote`
calls it after any dialog, for `ShowModal` never gives zero: the pages are those
asked for if and only if the cancelled dialogs name no host that answers
(`pages_asked_for_iff`).
-/

namespace RTM.Proof.Pages

open RTM.Impl RTM.Spec RTM.Proof.WmiProcessTable
open RTM.Impl.RemoteTaskManagementFrame (makePage addPage addPages construct openRemote openRemotes
  session)

/-- A host that is to be opened, and what the connection to it gives. -/
abbrev Request : Type := WString × Fetch

/-- The connection gives a listing, or fails with an exception. -/
def Answers (r : Request) : Prop := (r.2 r.1).Returns ∨ (r.2 r.1).Throws

/-- The host, if its first listing succeeds. -/
def opened (r : Request) : Option WString :=
  match r.2 r.1 with
  | .ok _ => some r.1
  | _ => none

/-- The hosts of the command line, or the local machine. -/
def ofParams (fetch : Nat → Fetch) (params : List WString) : List Request :=
  if params = [] then [(wide ".", fetch 0)] else params.zipIdx.map fun host => (host.1, fetch host.2)

/-- The text of a dialog. -/
def ofDialog (dlg : TextEntryDialog) : Request := (dlg.value, dlg.fetch)

/-! ## One page -/

section

variable {P : Platform} {fetch : Fetch} {host : WString} {s : RemoteTaskManagementFrame}

/-- The page of a host that answers shows its listing, by creation date. -/
theorem makePage_ok {listing : List WmiProcess} (h : fetch host = .ok listing) :
    ∃ rows, SortedFrom .CreationDate .Ascending listing rows ∧
      makePage P fetch host = .ok
        { host, title := if host = wide "." then wide "local machine" else host
          page := Page.ofTable
            ⟨host, some rows, ⟨ColumnNumber.CreationDate.toInt, .Ascending⟩⟩ } := by
  let t : WmiProcessTable := { mRemoteHost := host, mData := some listing }
  obtain ⟨rows, hs, he⟩ := sortColumn_next (P := P) (t := t) (c := .CreationDate) rfl rfl
  refine ⟨rows, hs, ?_⟩
  have hof : WmiProcessTable.ofHost fetch host = .ok t := by
    rw [WmiProcessTable.ofHost, h]
    rfl
  rw [makePage, hof, Outcome.ok_bind, ExecM.on_of_ok he]
  rfl

theorem makePage_threw {e : Exn} (h : fetch host = .threw e) :
    makePage P fetch host = .threw e := by
  rw [makePage, WmiProcessTable.ofHost, h]
  rfl

/-- `add_page` catches whatever making the page throws. -/
theorem addPage_eq (P : Platform) (fetch : Fetch) (host : WString) (s : RemoteTaskManagementFrame) :
    addPage P fetch host s =
      match makePage P fetch host with
      | .ok page => (.ok (), { s with mNotebook := s.mNotebook ++ [page] })
      | .threw _ =>
        (.ok (), { s with messages := s.messages ++ [wide "Error connecting to " ++ host] })
      | .terminated => (.terminated, s)
      | .undefined => (.undefined, s) := by
  rw [addPage, ExecM.tryCatch, ExecM.bind_apply, ExecM.lift_apply]
  cases makePage P fetch host <;> rfl

/-- The hosts of the pages. -/
def hosts (s : RemoteTaskManagementFrame) : List WString := s.mNotebook.map NotebookPage.host

theorem addPage_hosts (P : Platform) (s : RemoteTaskManagementFrame) {r : Request}
    (h : Answers r) :
    ∃ s', addPage P r.2 r.1 s = (.ok (), s') ∧ hosts s' = hosts s ++ (opened r).toList := by
  rcases h with ⟨listing, h⟩ | ⟨e, h⟩
  · obtain ⟨rows, -, hp⟩ := makePage_ok (P := P) h
    rw [addPage_eq, hp, opened, h]
    refine ⟨_, rfl, ?_⟩
    rw [hosts, List.map_append]
    rfl
  · rw [addPage_eq, makePage_threw h, opened, h]
    refine ⟨_, rfl, ?_⟩
    rw [Option.toList_none, List.append_nil]
    rfl

end

/-! ## The session -/

section

variable {P : Platform} {s : RemoteTaskManagementFrame}

/-- A host that fails does not stop the later ones. -/
theorem addPages_hosts (rs : List Request) (h : ∀ r ∈ rs, Answers r) :
    ∃ s', addPages P rs s = (.ok (), s') ∧ hosts s' = hosts s ++ rs.filterMap opened := by
  induction rs generalizing s with
  | nil => exact ⟨s, rfl, (List.append_nil _).symm⟩
  | cons r rs ih =>
    obtain ⟨s₁, h₁, e₁⟩ := addPage_hosts P s (h r List.mem_cons_self)
    obtain ⟨s', h', e'⟩ := ih (s := s₁) fun r hr => h r (List.mem_cons_of_mem _ hr)
    refine ⟨s', (ExecM.bind_of_ok h₁ _).trans h', ?_⟩
    rw [e', e₁, List.append_assoc]
    congr 1
    rw [List.filterMap_cons]
    cases opened r <;> rfl

/-- The handler opens the text of the dialog, whatever its result. -/
theorem openRemote_eq (P : Platform) (dlg : TextEntryDialog) :
    openRemote P dlg = addPage P dlg.fetch dlg.value := by
  have h : dlg.showModal ≠ 0 := by
    unfold TextEntryDialog.showModal
    split <;> decide
  rw [openRemote, if_pos h]

theorem openRemotes_eq (P : Platform) (dlgs : List TextEntryDialog) :
    openRemotes P dlgs = addPages P (dlgs.map ofDialog) := by
  induction dlgs with
  | nil => rfl
  | cons dlg dlgs ih =>
    rw [openRemotes, openRemote_eq, ih]
    rfl

theorem onCmdLineParsed_eq (params hosts : List WString) :
    onCmdLineParsed params hosts = hosts ++ params := by
  induction params generalizing hosts with
  | nil => exact (List.append_nil _).symm
  | cons param params ih =>
    show onCmdLineParsed params (hosts ++ [param]) = _
    rw [ih, List.append_assoc]
    rfl

theorem construct_hosts (fetch : Nat → Fetch) (params : List WString)
    (h : ∀ r ∈ ofParams fetch params, Answers r) :
    ∃ s', construct P fetch params s = (.ok (), s') ∧
      hosts s' = hosts s ++ (ofParams fetch params).filterMap opened := by
  by_cases hp : params = []
  · subst hp
    obtain ⟨s', h', e'⟩ := addPage_hosts P s (h (wide ".", fetch 0) List.mem_cons_self)
    refine ⟨s', (ExecM.bind_of_ok h' _).trans rfl, ?_⟩
    rw [e', ofParams, if_pos rfl, List.filterMap_cons]
    cases opened (wide ".", fetch 0) <;> rfl
  · rw [ofParams, if_neg hp] at h ⊢
    have hpos : params.isEmpty = false := by
      cases params with
      | nil => exact absurd rfl hp
      | cons => rfl
    obtain ⟨s', h', e'⟩ := addPages_hosts (P := P) (s := s) _ h
    refine ⟨s', ?_, e'⟩
    rw [construct, hpos]
    exact h'

/-- The pages of a session are those of all the hosts that answer, those of the
cancelled dialogs with them. -/
theorem session_hosts (fetch : Nat → Fetch) (params : List WString) (dlgs : List TextEntryDialog)
    (h : ∀ r ∈ ofParams fetch params ++ dlgs.map ofDialog, Answers r) :
    ∃ s', session P fetch params dlgs s = (.ok (), s') ∧
      hosts s' = hosts s ++ (ofParams fetch params ++ dlgs.map ofDialog).filterMap opened := by
  obtain ⟨s₁, h₁, e₁⟩ := construct_hosts (P := P) (s := s) fetch params fun r hr =>
    h r (List.mem_append_left _ hr)
  obtain ⟨s', h', e'⟩ := addPages_hosts (P := P) (s := s₁) (dlgs.map ofDialog) fun r hr =>
    h r (List.mem_append_right _ hr)
  refine ⟨s', ?_, ?_⟩
  · rw [session, onCmdLineParsed_eq, List.nil_append, ExecM.bind_of_ok h₁, openRemotes_eq]
    exact h'
  · rw [e', e₁, List.append_assoc, ← List.filterMap_append]

end

/-! ## What was asked for -/

/-- Dropping elements does not change a list's images if and only if they have
none. -/
theorem filterMap_filter_eq_iff {α β : Type} (p : α → Bool) (f : α → Option β) (l : List α) :
    (l.filter p).filterMap f = l.filterMap f ↔ ∀ a ∈ l, p a = false → f a = none := by
  have hle : ∀ l : List α, ((l.filter p).filterMap f).length ≤ (l.filterMap f).length := fun l =>
    (List.filter_sublist.filterMap f).length_le
  induction l with
  | nil => exact iff_of_true rfl nofun
  | cons a l ih =>
    rw [List.forall_mem_cons]
    refine Iff.trans ?_ (and_congr_right fun _ => ih)
    rcases hp : p a with _ | _
    · rw [List.filter_cons_of_neg (by simp [hp]), List.filterMap_cons]
      cases hf : f a with
      | none => simp only [true_imp_iff, true_and]
      | some b =>
        refine iff_of_false (fun h => ?_) fun h => nomatch h.1 rfl
        have := hle l
        rw [h, List.length_cons] at this
        omega
    · rw [List.filter_cons_of_pos hp, List.filterMap_cons, List.filterMap_cons]
      cases f a with
      | none => simp only [reduceCtorEq, false_imp_iff, true_and]
      | some b => simp only [List.cons.injEq, true_and, reduceCtorEq, false_imp_iff]

theorem opened_eq_none {r : Request} (h : Answers r) : opened r = none ↔ (r.2 r.1).Throws := by
  rcases h with ⟨listing, h⟩ | ⟨e, h⟩
  · rw [opened, h]
    exact iff_of_false nofun (Outcome.not_throws_ok _)
  · rw [opened, h]
    exact iff_of_true rfl ⟨e, rfl⟩

/-- The requests asked for: the command line, and the dialogs confirmed. -/
def askedFor (fetch : Nat → Fetch) (params : List WString) (dlgs : List TextEntryDialog) :
    List Request :=
  ofParams fetch params ++ (dlgs.filter TextEntryDialog.confirmed).map ofDialog

/-- Whatever the connections give, the session goes on to its end, and its
pages are those asked for whose first listing succeeds if and only if the
connection of every cancelled dialog fails. -/
theorem pages_asked_for_iff (P : Platform) (fetch : Nat → Fetch) (params : List WString)
    (dlgs : List TextEntryDialog)
    (h : ∀ r ∈ ofParams fetch params ++ dlgs.map ofDialog, Answers r) :
    ∃ s, session P fetch params dlgs {} = (.ok (), s) ∧
      (hosts s = (askedFor fetch params dlgs).filterMap opened ↔
        ∀ dlg ∈ dlgs, dlg.confirmed = false → (dlg.fetch dlg.value).Throws) := by
  obtain ⟨s, hs, e⟩ := session_hosts (P := P) (s := {}) fetch params dlgs h
  refine ⟨s, hs, ?_⟩
  have hempty : hosts {} = [] := rfl
  rw [e, hempty, List.nil_append, askedFor, List.filterMap_append, List.filterMap_append,
    List.append_cancel_left_eq, List.filterMap_map, List.filterMap_map, eq_comm,
    filterMap_filter_eq_iff]
  refine forall_congr' fun dlg => forall_congr' fun hd => forall_congr' fun _ => ?_
  exact opened_eq_none (h (ofDialog dlg) (List.mem_append_right _ (List.mem_map_of_mem hd)))

/-- A machine that answers. -/
def reachable : Fetch := fun _ => .ok [process 4 1]

/-- A machine that does not. -/
def unreachable : Fetch := fun _ => .threw (.wmiError "Could not connect" 0x800706BA)

/-- A dialog that fails, one that is cancelled, and one that opens a page. -/
def threeDialogs : List TextEntryDialog :=
  [⟨true, wide "beta", unreachable⟩, ⟨false, wide "beta", unreachable⟩,
    ⟨true, wide "gamma", reachable⟩]

theorem pages_asked_for_three :
    ∃ s, session .ascii (fun _ => reachable) [wide "alpha"] threeDialogs {} = (.ok (), s) ∧
      hosts s = (askedFor (fun _ => reachable) [wide "alpha"] threeDialogs).filterMap opened := by
  have fails : (unreachable (wide "beta")).Throws := ⟨_, rfl⟩
  have answers : ∀ r ∈ [(wide "alpha", reachable), (wide "beta", unreachable),
      (wide "beta", unreachable), (wide "gamma", reachable)], Answers r := by
    simp only [List.forall_mem_cons, Answers]
    exact ⟨.inl ⟨_, rfl⟩, .inr fails, .inr fails, .inl ⟨_, rfl⟩, nofun⟩
  obtain ⟨s, hs, hiff⟩ :=
    pages_asked_for_iff .ascii (fun _ => reachable) [wide "alpha"] threeDialogs answers
  refine ⟨s, hs, hiff.mpr ?_⟩
  simp only [threeDialogs, List.forall_mem_cons]
  exact ⟨nofun, fun _ => fails, nofun, nofun⟩

/-- A dialog that is cancelled opens a second page of the local machine. -/
theorem cancelled_opens_page :
    let dlgs : List TextEntryDialog := [⟨false, wide ".", reachable⟩]
    hosts (session .ascii (fun _ => reachable) [] dlgs {}).2 = [wide ".", wide "."] ∧
      (askedFor (fun _ => reachable) [] dlgs).filterMap opened = [wide "."] := by
  exact ⟨by decide, by decide⟩

end RTM.Proof.Pages
