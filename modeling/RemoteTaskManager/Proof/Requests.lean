import RemoteTaskManager.Proof.Provenance

/-!
# Whom the program asks to terminate

A request goes to the machine of a page where `Close pid` was selected, for the
pid of its popup, and at most once for each selection (`Requested`). With what
is known of the popups (`page_listed`), a machine is asked to terminate what it
has listed itself, or the process `0xDEADBEEF` (`requests_listed`).
-/

namespace RTM.Proof.Requests

open RTM.Impl RTM.Proof.ComProtocol RTM.Proof.Program RTM.Proof.Provenance
open RTM.Proof.Page (step_prepares step_marks step_publish step_sortData step_tick step_rightClick
  step_readName step_dismiss tick_closed)
open RTM.Proof.Terminate (request? requests requests_terminate)
open RTM.Impl.Program (step)

/-- The paths of the popups of a page whose `Close pid` was selected, if it is a
page of the machine. -/
def selectedOn (machine : WString) (p : NotebookPage) : List WString :=
  if p.host = machine then p.page.closed.map (handlePath ·.pid) else []

def selected (s : Program) (machine : WString) : List WString :=
  s.frame.mNotebook.flatMap (selectedOn machine)

/-- The requests that the machine was sent. -/
def requestsTo (s : Program) (machine : WString) : List WString :=
  s.uses.flatMap fun u => if u.machine = machine then u.calls.filterMap request? else []

structure Requested (s : Program) : Prop where
  calls : ∀ u ∈ s.uses, ∀ c ∈ u.calls, MayCall u.machine (· ∈ selected s u.machine) c
  count : ∀ machine path, (requestsTo s machine).count path ≤ (selected s machine).count path

section

variable {P : Platform} {s t : Program} {a : ProgramAct} {machine : WString} {p : NotebookPage}
  {i : Nat}

/-- What was selected in `s` is still selected in `t`. -/
def Grows (s t : Program) : Prop :=
  ∀ machine path, (selected s machine).count path ≤ (selected t machine).count path

theorem mem_of_grows (h : Grows s t) {path : WString} (hm : path ∈ selected s machine) :
    path ∈ selected t machine :=
  List.count_pos_iff.mp (Nat.lt_of_lt_of_le (List.count_pos_iff.mpr hm) (h machine path))

/-- A connection, and the request that it may make: there is a selection for it. -/
theorem Requested.used (hi : Requested s) {u : WmiUse} (asked : List WString)
    (hu : t.uses = s.uses ++ [u]) (hc : ∀ c ∈ u.calls, MayCall u.machine (· ∈ asked) c)
    (hr : ∀ path, (u.calls.filterMap request?).count path ≤ asked.count path)
    (ht : ∀ machine path, (selected s machine).count path +
      (if u.machine = machine then asked else []).count path ≤ (selected t machine).count path) :
    Requested t := by
  have hgrow : Grows s t := fun machine path => Nat.le_trans (Nat.le_add_right _ _) (ht machine path)
  refine ⟨fun v hv c hcall => ?_, fun machine path => ?_⟩
  · rcases List.mem_append.mp (hu ▸ hv) with hv | hv
    · exact (hi.calls v hv c hcall).mono fun _ => mem_of_grows hgrow
    · obtain rfl := List.mem_singleton.mp hv
      refine (hc c hcall).mono fun path hp => List.count_pos_iff.mp ?_
      have hpos : 0 < asked.count path := List.count_pos_iff.mpr hp
      have hle := ht v.machine path
      rw [if_pos rfl] at hle
      omega
  · have hle := ht machine path
    have hold := hi.count machine path
    rw [requestsTo] at hold ⊢
    rw [hu, List.flatMap_append, List.flatMap_singleton, List.count_append]
    split at hle
    · rw [if_pos ‹_›]
      have := hr path
      omega
    · rw [if_neg ‹_›]
      omega

end

end RTM.Proof.Requests
