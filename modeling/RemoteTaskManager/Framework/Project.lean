import RemoteTaskManager.Framework.Run

/-!
# A part of a system

`view` is what a part of a system is in a state, if it is there, and `own` the
events of the system that are events of the part. If the system's steps do to
the part what it would do alone on its own events, and nothing on the others,
a run of the system is a run of the part alone (`run_project`), and runs with
the same events of the part are the same to it (`run_project_congr`).
-/

namespace RTM

variable {σ α υ β : Type} {step : σ → α → Option σ} {alone : υ → β → Option υ}
  {view : σ → Option υ} {own : α → Option β} {I : σ → Prop}

/-- The steps that keep `I` are to the part what its own events make of it. -/
def Projects (step : σ → α → Option σ) (alone : υ → β → Option υ) (view : σ → Option υ)
    (own : α → Option β) (I : σ → Prop) : Prop :=
  ∀ s a s' v, I s → step s a = some s' → view s = some v →
    I s' ∧ ∃ v', view s' = some v' ∧ run alone v (own a).toList = some v'

theorem run_project (hp : Projects step alone view own I) {as : List α} {s s' : σ} {v : υ}
    (hi : I s) (hv : view s = some v) (h : run step s as = some s') :
    view s' = run alone v (as.filterMap own) := by
  induction as generalizing s v with
  | nil =>
    simp only [run_nil, Option.some.injEq] at h
    rw [← h, hv, List.filterMap_nil, run_nil]
  | cons a as ih =>
    obtain ⟨t, ht, h⟩ := run_cons_eq_some.mp h
    obtain ⟨hi, w, hw, hrun⟩ := hp s a t v hi ht hv
    have hcons : (a :: as).filterMap own = (own a).toList ++ as.filterMap own := by
      cases ha : own a with
      | none => rw [List.filterMap_cons_none ha, Option.toList_none, List.nil_append]
      | some b => rw [List.filterMap_cons_some ha, Option.toList_some, List.singleton_append]
    rw [ih hi hw h, hcons, run_append hrun]

/-- What the rest of the system does is nothing to the part. -/
theorem run_project_congr (hp : Projects step alone view own I) {as bs : List α} {s t s' t' : σ}
    {v : υ} (his : I s) (hit : I t) (hs : view s = some v) (ht : view t = some v)
    (hown : as.filterMap own = bs.filterMap own) (h : run step s as = some s')
    (h' : run step t bs = some t') : view s' = view t' := by
  rw [run_project hp his hs h, run_project hp hit ht h', hown]

end RTM
