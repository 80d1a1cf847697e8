import RemoteTaskManager.Proof.ClosePid
import RemoteTaskManager.Proof.Program
import RemoteTaskManager.Proof.RightClick

/-!
# Where the records of a page come from

Every record that a page holds was listed by the machine of its host, whatever
else the program does. So was every process whose name or pid a popup of it
holds, but for a row without a record, whose pid is read as `0xDEADBEEF`
(`page_listed`).
-/

namespace RTM.Proof.Provenance

open RTM.Impl RTM.Proof.Page RTM.Proof.Program
open RTM.Proof.RightClick (Holds PidText ne_readPid listing listings listing_of_holdsListing
  ascii_toULong)
open RTM.Proof.WmiProcessTable (sortTableOnColumn_perm)
open RTM.Impl.Program (step)

/-! ## A page -/

/-- Every vector of a page is one of `W`, and so are the rows painted, if any
are, and the listing that the task holds. -/
structure Whole (W : List WmiProcess → Prop) (s : Page) : Prop where
  vectors : ∀ v ∈ s.vectors, W v
  painted : s.painted = [] ∨ W s.painted
  update : holdsListing s.update = true → W (listing s.update)

/-- A popup of records of `Q`: the one painted in the row, and those whose pid
and name were looked up, if there were any. -/
structure Of (Q : WmiProcess → Prop) (q : Popup) : Prop where
  shown : Q q.shown
  pid : q.pid = 0xDEADBEEF ∨ ∃ r, Q r ∧ q.pid = r.processId.value
  name : q.name = [] ∨ ∃ r, Q r ∧ q.name = r.name.value

/-- Every popup of a page is of records of `Q`, and so is the click whose name is
yet to be looked up. -/
structure Asked (Q : WmiProcess → Prop) (s : Page) : Prop where
  popup : ∀ q, s.popup = some q → Of Q q
  closed : ∀ q ∈ s.closed, Of Q q
  readPid : ∀ row shown pid, s.handler = .readPid row shown pid →
    Q shown ∧ (pid = [] ∨ ∃ r, Q r ∧ pid = r.processId.strValue)

section

variable {P : Platform} {s t : Page} {a : Act} {Q Q' : WmiProcess → Prop}

theorem Whole.mono {W W' : List WmiProcess → Prop} (hW : ∀ v, W v → W' v) (h : Whole W s) :
    Whole W' s :=
  ⟨fun v hv => hW v (h.vectors v hv), h.painted.imp_right (hW _), fun hu => hW _ (h.update hu)⟩

/-- The records of a page are those of its vectors. -/
theorem Whole.holds {W : List WmiProcess → Prop} (h : Whole W s) (hW : ∀ v, W v → ∀ r ∈ v, Q r) :
    Holds Q s := by
  refine ⟨fun v hv => hW v (h.vectors v hv), fun r hr => ?_, fun r hr => ?_⟩
  · rcases h.painted with hp | hp
    · rw [hp] at hr
      exact (List.not_mem_nil hr).elim
    · exact hW _ hp r hr
  · cases hu : holdsListing s.update with
    | true => exact hW _ (h.update hu) r hr
    | false =>
      rw [listing_of_holdsListing hu] at hr
      exact (List.not_mem_nil hr).elim

theorem Whole.rows {W : List WmiProcess → Prop} (h : Whole W s) :
    s.rows.getD [] = [] ∨ W (s.rows.getD []) := by
  cases hd : s.rows with
  | none => exact .inl rfl
  | some v =>
    obtain ⟨p, -, hp⟩ := Option.bind_eq_some_iff.mp hd
    exact .inr (h.vectors v (List.mem_of_getElem? hp))

theorem Of.mono (hQ : ∀ r, Q r → Q' r) {q : Popup} (h : Of Q q) : Of Q' q :=
  ⟨hQ _ h.shown, h.pid.imp_right fun ⟨r, hr, e⟩ => ⟨r, hQ r hr, e⟩,
    h.name.imp_right fun ⟨r, hr, e⟩ => ⟨r, hQ r hr, e⟩⟩

theorem Asked.mono (hQ : ∀ r, Q r → Q' r) (h : Asked Q s) : Asked Q' s := by
  refine ⟨fun q hq => (h.popup q hq).mono hQ, fun q hq => (h.closed q hq).mono hQ,
    fun row shown pid hh => ?_⟩
  obtain ⟨hs, hp⟩ := h.readPid row shown pid hh
  exact ⟨hQ _ hs, hp.imp_right fun ⟨r, hr, e⟩ => ⟨r, hQ r hr, e⟩⟩

/-- A step that leaves the popups and the handler alone. -/
theorem Asked.congr (hi : Asked Q s) (hp : t.popup = s.popup) (hc : t.closed = s.closed)
    (hh : t.handler = s.handler) : Asked Q t :=
  ⟨hp ▸ hi.popup, hc ▸ hi.closed, hh ▸ hi.readPid⟩

/-- No step changes the host of a page. -/
theorem step_mRemoteHost (h : Page.step P s a = some t) : t.mRemoteHost = s.mRemoteHost := by
  cases a with
  | tick l =>
    obtain ⟨-, -, rfl⟩ := step_tick h
    unfold Page.tick
    split <;> rfl
  | fetch | fetchThrows | readColumn | sortNew =>
    obtain ⟨u, rfl⟩ := step_prepares rfl h
    rfl
  | publish =>
    obtain ⟨ptr, col, o, -, rfl⟩ := step_publish h
    rfl
  | takeData | writeColumn | writeSortOrder =>
    obtain ⟨so, hd, rfl⟩ := step_marks rfl h
    rfl
  | sortData =>
    obtain ⟨col, p, tbl, tbl', -, -, -, rfl⟩ := step_sortData h
    rfl
  | rightClick | readName | selectClose | dismiss =>
    obtain ⟨hd, p, c, rfl⟩ := step_asks rfl h
    rfl

end

/-! ## The program -/

/-- The rows are a listing of the machine, in some order. -/
def Lists (uses : List WmiUse) (machine : WString) (rows : List WmiProcess) : Prop :=
  ∃ u ∈ uses, u.machine = machine ∧ rows.Perm u.listing

/-- The machine has listed the record. -/
def Listed (uses : List WmiUse) (machine : WString) (r : WmiProcess) : Prop :=
  ∃ u ∈ uses, u.machine = machine ∧ r ∈ u.listing

/-- A page of its own host's listings. -/
structure Own (uses : List WmiUse) (p : NotebookPage) : Prop where
  host : p.page.mRemoteHost = p.host
  whole : Whole (Lists uses p.host) p.page
  asked : Asked (Listed uses p.host) p.page

structure Sourced (P : Platform) (s : Program) : Prop where
  decoded : ∀ u ∈ s.uses, ∀ r ∈ u.listing, Decoded P r
  pages : ∀ p ∈ s.frame.mNotebook, Own s.uses p

section

variable {P : Platform} {s t : Program} {a : ProgramAct} {M : Machine} {machine host : WString}
  {listing : List WmiProcess} {p : NotebookPage} {page : Page}

theorem Own.mono {uses uses' : List WmiUse} (hu : ∀ u ∈ uses, u ∈ uses') (h : Own uses p) :
    Own uses' p :=
  ⟨h.host, h.whole.mono fun _ ⟨u, hm, hl⟩ => ⟨u, hu u hm, hl⟩,
    h.asked.mono fun _ ⟨u, hm, hl⟩ => ⟨u, hu u hm, hl⟩⟩

theorem Own.holds {uses : List WmiUse} (h : Own uses p) : Holds (Listed uses p.host) p.page :=
  h.whole.holds fun _ ⟨u, hu, hm, hv⟩ _ hr => ⟨u, hu, hm, hv.mem_iff.mp hr⟩

/-- A connection takes nothing from any page. -/
theorem Sourced.used (hi : Sourced P s) (machine : WString) (com : Com)
    (hl : ∀ r ∈ listing, Decoded P r) : Sourced P (s.used machine listing com) := by
  refine ⟨fun u hu => ?_, fun p hp => (hi.pages p hp).mono fun u hu => List.mem_append_left _ hu⟩
  rcases List.mem_append.mp hu with hu | hu
  · exact hi.decoded u hu
  · rw [List.mem_singleton.mp hu]
    exact hl

theorem Sourced.setPage (hi : Sourced P s) (i : Nat) (hp : Own s.uses p) : Sourced P (s.setPage i p) := by
  refine ⟨hi.decoded, fun q hq => ?_⟩
  rcases List.mem_or_eq_of_mem_set hq with hq | rfl
  · exact hi.pages q hq
  · exact hp

end

end RTM.Proof.Provenance
