import RemoteTaskManager.Impl.Window
import RemoteTaskManager.Proof.Page

/-!
# Closing the frame

A failed refresh deletes the table when its update is over. Closing the frame
deletes it whatever the update does, and only then waits for it: if one is
under way, every step left of it runs on the deleted table
(`close_in_flight`). So no step does if no frame is closed during an update,
and in a run that ends with everything destroyed only if none is
(`update_on_table`).
-/

namespace RTM.Proof.Closing

open RTM.Impl
open RTM.Impl.Window (step)

/-- A step of `update_data` is made while there is a table. -/
def OnTable (w : Window) : WindowAct → Prop
  | .page a => a.ofUpdate = true → w.tableDeleted = false
  | _ => True

/-- The frame is closed while no update is under way. -/
def ClosesIdle (w : Window) : WindowAct → Prop
  | .close => w.page.update.inFlight = false
  | _ => True

instance (w : Window) : ∀ a, Decidable (OnTable w a)
  | .page a => inferInstanceAs (Decidable (a.ofUpdate = true → w.tableDeleted = false))
  | .refreshThrows | .close | .destroyHandlers => isTrue trivial

instance (w : Window) : ∀ a, Decidable (ClosesIdle w a)
  | .close => inferInstanceAs (Decidable (w.page.update.inFlight = false))
  | .page _ | .refreshThrows | .destroyHandlers => isTrue trivial

section

variable {P : Platform} {p q : Page} {a : Act}

/-- Only an update that is under way makes steps. -/
theorem inFlight_of_ofUpdate (ha : a.ofUpdate = true) (h : p.step P a = some q) :
    p.update.inFlight = true := by
  cases a with
  | fetch listing =>
    rw [(Page.step_fetch h).1]
    rfl
  | fetchThrows e =>
    rw [(Page.step_fetchThrows h).1]
    rfl
  | readColumn =>
    obtain ⟨ptr, hu, -⟩ := Page.step_readColumn h
    rw [hu]
    rfl
  | sortNew =>
    obtain ⟨ptr, col, ptr', hu, -, -⟩ := Page.step_sortNew h
    rw [hu]
    rfl
  | publish =>
    obtain ⟨ptr, col, o, hu, -⟩ := Page.step_publish h
    rw [hu]
    rfl
  | _ => cases ha

/-- Once its table is detached, a page has no timer and no update. -/
def Detached (p : Page) : Prop :=
  p.attached = false → p.timer = false ∧ p.update.inFlight = false

theorem detached_tick (l : Launch) (hi : Detached p) (ht : p.timer = true) :
    Detached (p.tick l) := by
  have ha : p.attached = true := by
    cases h : p.attached with
    | true => rfl
    | false =>
      rw [(hi h).1] at ht
      cases ht
  unfold Page.tick
  split
  · exact fun h => absurd (ha.symm.trans h) nofun
  · exact fun h => absurd (ha.symm.trans h) nofun
  · exact fun _ => ⟨rfl, rfl⟩
  · exact fun h => absurd (ha.symm.trans h) nofun

/-- A page that is detached stays so. -/
theorem detached_step (hi : Detached p) (h : p.step P a = some q) :
    Detached q ∧ (p.attached = false → q.attached = false) := by
  have busy : a.ofUpdate = true → p.attached ≠ false := by
    intro ha hd
    have := inFlight_of_ofUpdate ha h
    rw [(hi hd).2] at this
    cases this
  cases a with
  | tick l =>
    obtain ⟨ht, -, rfl⟩ := Page.step_tick h
    refine ⟨detached_tick l hi ht, fun hd => ?_⟩
    rw [(hi hd).1] at ht
    cases ht
  | fetch | fetchThrows | readColumn | sortNew =>
    obtain ⟨u, rfl⟩ := Page.step_prepares rfl h
    exact ⟨fun hd => absurd hd (busy rfl), id⟩
  | publish =>
    have hd := busy rfl
    obtain ⟨ptr, col, o, -, rfl⟩ := Page.step_publish h
    exact ⟨fun hd' => absurd hd' hd, id⟩
  | takeData | writeColumn | writeSortOrder =>
    obtain ⟨so, hd, rfl⟩ := Page.step_marks rfl h
    exact ⟨hi, id⟩
  | sortData =>
    obtain ⟨col, r, tbl, tbl', -, -, -, rfl⟩ := Page.step_sortData h
    exact ⟨hi, id⟩
  | rightClick | readName | selectClose | dismiss =>
    obtain ⟨hd, r, c, rfl⟩ := Page.step_asks rfl h
    exact ⟨hi, id⟩

end

/-! ## Steps of the window -/

section

variable {P : Platform} {w v : Window} {a : WindowAct}

theorem step_page {b : Act} (h : step P w (.page b) = some v) :
    (w.lifetime = .opened ∧ ∃ p, w.page.step P b = some p ∧
        v = { w with page := p, tableDeleted := w.tableDeleted || !p.attached }) ∨
      (w.lifetime ≠ .opened ∧ b.ofUpdate = true ∧ ∃ p, w.page.step P b = some p ∧
        v = { w with page := p }) := by
  simp only [step] at h
  split at h
  · rename_i hl
    obtain ⟨p, hp, rfl⟩ := Option.map_eq_some_iff.mp h
    exact .inl ⟨hl, p, hp, rfl⟩
  · rename_i hl
    split at h
    · rename_i hb
      obtain ⟨p, hp, rfl⟩ := Option.map_eq_some_iff.mp h
      exact .inr ⟨hl, hb, p, hp, rfl⟩
    · cases h

theorem step_refreshThrows (h : step P w .refreshThrows = some v) :
    w.lifetime = .opened ∧ v = { w with
      page := { w.page with update := .none, attached := false, painted := [], timer := false }
      tableDeleted := true } := by
  simp only [step, Option.ite_none_right_eq_some, Option.some.injEq] at h
  exact ⟨h.1.1, h.2.symm⟩

theorem step_close (h : step P w .close = some v) :
    w.lifetime = .opened ∧ v = { w with lifetime := .closing, tableDeleted := true } := by
  simp only [step, Option.ite_none_right_eq_some, Option.some.injEq] at h
  exact ⟨h.1.1, h.2.symm⟩

theorem step_destroyHandlers (h : step P w .destroyHandlers = some v) :
    w.lifetime = .closing ∧ w.page.update.inFlight = false ∧
      v = { w with lifetime := .destroyed } := by
  simp only [step, Option.ite_none_right_eq_some, Option.some.injEq] at h
  exact ⟨h.1.1, h.1.2, h.2.symm⟩

/-- What every run keeps that closes the frame between updates: the table is
deleted when it is detached or the frame closed, and then no update is under
way. -/
structure Inv (w : Window) : Prop where
  detached : Detached w.page
  opened : w.lifetime = .opened → w.tableDeleted = !w.page.attached
  deleted : w.tableDeleted = true → w.page.update.inFlight = false
  closed : w.lifetime ≠ .opened → w.tableDeleted = true

/-- Nothing of an update is left once the table is deleted. -/
theorem Inv.no_update (hi : Inv w) {b : Act} {p : Page} (hb : b.ofUpdate = true)
    (h : w.page.step P b = some p) : w.tableDeleted = false := by
  cases hd : w.tableDeleted with
  | false => rfl
  | true =>
    have := inFlight_of_ofUpdate hb h
    rw [hi.deleted hd] at this
    cases this

theorem inv_step (hi : Inv w) (hc : ClosesIdle w a) (h : step P w a = some v) : Inv v := by
  cases a with
  | page b =>
    obtain ⟨hl, p, hp, rfl⟩ | ⟨hl, hb, p, hp, rfl⟩ := step_page h
    · obtain ⟨hd, hkeep⟩ := detached_step hi.detached hp
      have hdel : (w.tableDeleted || !p.attached) = !p.attached := by
        rw [hi.opened hl]
        cases ha : w.page.attached with
        | true => rfl
        | false => rw [hkeep ha]; rfl
      refine ⟨hd, fun _ => hdel, fun hdel' => ?_, fun hl' => absurd hl hl'⟩
      have hdel' : (w.tableDeleted || !p.attached) = true := hdel'
      rw [hdel] at hdel'
      exact (hd (by simpa using hdel')).2
    · have := hi.no_update hb hp
      rw [hi.closed hl] at this
      cases this
  | refreshThrows =>
    obtain ⟨hl, rfl⟩ := step_refreshThrows h
    exact ⟨fun _ => ⟨rfl, rfl⟩, fun _ => rfl, fun _ => rfl, fun _ => rfl⟩
  | close =>
    obtain ⟨-, rfl⟩ := step_close h
    exact ⟨hi.detached, nofun, fun _ => hc, fun _ => rfl⟩
  | destroyHandlers =>
    obtain ⟨hl, -, rfl⟩ := step_destroyHandlers h
    have hdel : w.tableDeleted = true := hi.closed (by rw [hl]; nofun)
    exact ⟨hi.detached, nofun, hi.deleted, fun _ => hdel⟩

theorem onTable_of_inv (hi : Inv w) (h : step P w a = some v) : OnTable w a := by
  cases a with
  | page b =>
    intro hb
    obtain ⟨-, p, hp, -⟩ | ⟨-, -, p, hp, -⟩ := step_page h
    · exact hi.no_update hb hp
    · exact hi.no_update hb hp
  | _ => trivial

theorem inv_ofTable (t : WmiProcessTable) : Inv { page := Page.ofTable t } :=
  ⟨nofun, fun _ => rfl, nofun, fun h => absurd rfl h⟩

/-- Closed during an update, the frame is not destroyed before the update has
made a step on the deleted table. -/
theorem close_in_flight {acts : List WindowAct} (hl : w.lifetime = .closing)
    (hd : w.tableDeleted = true) (hf : w.page.update.inFlight = true)
    (ho : AllSteps (step P) OnTable w acts) (h : run (step P) w acts = some v) :
    v.lifetime = .closing := by
  cases acts with
  | nil =>
    cases h
    exact hl
  | cons a acts =>
    obtain ⟨u, hu, -⟩ := run_cons_eq_some.mp h
    have hopen : w.lifetime ≠ .opened := by
      rw [hl]
      nofun
    cases a with
    | page b =>
      obtain ⟨hl', -⟩ | ⟨-, hb, -⟩ := step_page hu
      · exact absurd hl' hopen
      · have := ho.1 hb
        rw [hd] at this
        cases this
    | refreshThrows => exact absurd (step_refreshThrows hu).1 hopen
    | close => exact absurd (step_close hu).1 hopen
    | destroyHandlers =>
      have := (step_destroyHandlers hu).2.1
      rw [hf] at this
      cases this

/-- A run to the end makes no step on a deleted table only if it closes the
frame between updates. -/
theorem closesIdle_of_onTable {acts : List WindowAct} (ho : AllSteps (step P) OnTable w acts)
    (h : run (step P) w acts = some v) (hv : v.lifetime = .destroyed) :
    AllSteps (step P) ClosesIdle w acts := by
  induction acts generalizing w with
  | nil => trivial
  | cons a acts ih =>
    obtain ⟨u, hu, h⟩ := run_cons_eq_some.mp h
    obtain ⟨-, ho⟩ := (allSteps_cons hu).mp ho
    refine (allSteps_cons hu).mpr ⟨?_, ih ho h⟩
    cases a with
    | close =>
      obtain ⟨-, rfl⟩ := step_close hu
      show w.page.update.inFlight = false
      cases hf : w.page.update.inFlight with
      | false => rfl
      | true =>
        have := close_in_flight (w := { w with lifetime := .closing, tableDeleted := true })
          rfl rfl hf ho h
        rw [hv] at this
        cases this
    | _ => trivial

end

/-- In every run that closes the frame while no update is under way, no step
of an update is made after its table is deleted; and in a run to the end of
everything only if it is closed so. -/
theorem update_on_table (P : Platform) (t : WmiProcessTable) {acts : List WindowAct} {w : Window}
    (h : run (step P) { page := Page.ofTable t } acts = some w) :
    (AllSteps (step P) ClosesIdle { page := Page.ofTable t } acts →
      AllSteps (step P) OnTable { page := Page.ofTable t } acts) ∧
    (w.lifetime = .destroyed →
      (AllSteps (step P) OnTable { page := Page.ofTable t } acts ↔
        AllSteps (step P) ClosesIdle { page := Page.ofTable t } acts)) := by
  have enough : AllSteps (step P) ClosesIdle { page := Page.ofTable t } acts →
      AllSteps (step P) OnTable { page := Page.ofTable t } acts := by
    intro hc
    have cond : ∀ {w a v}, Inv w → ClosesIdle w a → step P w a = some v → OnTable w a :=
      fun hi _ h => onTable_of_inv hi h
    exact allSteps_of_inv cond inv_step (inv_ofTable t) hc h
  exact ⟨enough, fun hw => ⟨fun ho => closesIdle_of_onTable ho h hw, enough⟩⟩

/-- The steps of an update. -/
def updating : List WindowAct :=
  [.page (.fetch [{}]), .page .readColumn, .page .sortNew, .page .publish]

/-- The frame is closed after the update. -/
theorem update_on_table_closed_after :
    let acts := .page (.tick .async) :: updating ++ [.close, .destroyHandlers]
    (run (step .ascii) { page := Page.ofTable (.ofData [{}]) } acts).isSome ∧
      AllSteps (step .ascii) OnTable { page := Page.ofTable (.ofData [{}]) } acts := by
  have hrun : run (step .ascii) { page := Page.ofTable (.ofData [{}]) }
      (.page (.tick .async) :: updating ++ [.close, .destroyHandlers]) = some _ := rfl
  exact ⟨by decide, ((update_on_table .ascii (.ofData [{}]) hrun).2 rfl).mpr (by decide)⟩

/-- The frame is closed when the update has begun, and its handlers are not
destroyed before it has run to its end. -/
theorem closed_under_update :
    let acts := .page (.tick .async) :: .close :: updating ++ [.destroyHandlers]
    (run (step .ascii) { page := Page.ofTable (.ofData [{}]) } acts).isSome ∧
      ¬ AllSteps (step .ascii) OnTable { page := Page.ofTable (.ofData [{}]) } acts := by
  exact ⟨by decide, by decide⟩

end RTM.Proof.Closing
