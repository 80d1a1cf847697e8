import RemoteTaskManager.Proof.TableSafety

/-!
# Refreshes that fail

`update_data` does all that may throw before it assigns, and leaves the table
as it was (`updateData_cases`); `change_host` assigns the host first, and
leaves the table naming one whose processes it does not show, unless it named
it already (`changeHost_cases`). From there both halves of `failed_refresh`:
what one failing call leaves, and whose rows are shown along a run of calls.
-/

namespace RTM.Proof.FailedRefresh

open RTM.Impl RTM.Proof.WmiProcessTable RTM.Proof.TableSafety
open RTM.Impl.WmiProcessTable (sortColumn updateData changeHost ofHost)

/-! ## One call -/

/-- A call that fetches. -/
inductive Refresh where
  | updateData
  | changeHost (remoteHost : WString)
deriving DecidableEq

namespace Refresh

def exec (P : Platform) (fetch : Fetch) : Refresh → ExecM WmiProcessTable Exn Unit
  | updateData => WmiProcessTable.updateData P fetch
  | changeHost remoteHost => WmiProcessTable.changeHost P fetch remoteHost

/-- The host whose processes the call asks for. -/
def host (t : WmiProcessTable) : Refresh → WString
  | updateData => t.mRemoteHost
  | changeHost remoteHost => remoteHost

end Refresh

section

variable {P : Platform} {fetch : Fetch} {t : WmiProcessTable} {host : WString} {e : Exn}

theorem updateData_threw (hf : fetch t.mRemoteHost = .threw e) :
    updateData P fetch t = (.threw e, t) := by
  rw [updateData_eq, hf, Outcome.threw_bind]

/-- `update_data` throws what the fetch throws and leaves the table as it was,
returns with the rows of the listing, or ends the program. -/
theorem updateData_cases (P : Platform) (fetch : Fetch) (t : WmiProcessTable) :
    (∃ e, fetch t.mRemoteHost = .threw e ∧ updateData P fetch t = (.threw e, t)) ∨
    (∃ listing rows, fetch t.mRemoteHost = .ok listing ∧ rows.Perm listing ∧
      updateData P fetch t = (.ok (), { t with mData := some rows })) ∨
    (updateData P fetch t = (.terminated, t) ∨ updateData P fetch t = (.undefined, t)) := by
  cases hf : fetch t.mRemoteHost with
  | threw e => exact .inl ⟨e, rfl, updateData_threw hf⟩
  | terminated => exact .inr (.inr (.inl (by rw [updateData_eq, hf, Outcome.terminated_bind])))
  | undefined => exact .inr (.inr (.inr (by rw [updateData_eq, hf, Outcome.undefined_bind])))
  | ok listing =>
    rw [updateData_eq, hf, Outcome.ok_bind]
    obtain ⟨rows, hs⟩ | hs :=
      sortTableOnColumn_cases P listing t.sorted.column t.sorted.sortOrder
    · refine .inr (.inl ⟨listing, rows, rfl, sortTableOnColumn_perm hs, ?_⟩)
      rw [hs]
    · refine .inr (.inr (.inl ?_))
      rw [hs]

/-- A call whose fetch throws leaves a table that names the host asked for. -/
theorem exec_threw {r : Refresh} (hf : fetch (r.host t) = .threw e) :
    r.exec P fetch t = (.threw e, { t with mRemoteHost := r.host t }) := by
  cases r with
  | updateData => exact updateData_threw hf
  | changeHost host =>
    show changeHost P fetch host t = _
    rw [changeHost_eq]
    exact updateData_threw (t := { t with mRemoteHost := host }) hf

/-- Which changes nothing if and only if the table named that host. -/
theorem exec_threw_iff {r : Refresh} (hf : fetch (r.host t) = .threw e) :
    r.exec P fetch t = (.threw e, t) ↔ r.host t = t.mRemoteHost := by
  rw [exec_threw hf]
  constructor
  · intro h
    exact congrArg WmiProcessTable.mRemoteHost (Prod.mk.inj h).2
  · intro h
    rw [h]

end

/-! ## Runs -/

/-- A call, with what the machines give while it runs. -/
inductive Call where
  | sortColumn (col : BitVec 32) (sortOrder : SortOrder)
  | refresh (fetch : Fetch) (r : Refresh)

/-- A table, and the host and the listing of the fetch last made that
succeeded. -/
structure Shown where
  table : WmiProcessTable
  host : WString
  listing : List WmiProcess

namespace Call

def exec (P : Platform) : Call → ExecM WmiProcessTable Exn Unit
  | sortColumn col sortOrder => WmiProcessTable.sortColumn P col sortOrder
  | refresh fetch r => r.exec P fetch

/-- What is shown after the call has returned with the table `t`. -/
def returned (s : Shown) (t : WmiProcessTable) : Call → Shown
  | sortColumn .. => { s with table := t }
  | refresh fetch r =>
    match fetch (r.host s.table) with
    | .ok listing => ⟨t, r.host s.table, listing⟩
    | _ => { s with table := t }

/-- A call that returns, or that throws. -/
def step (P : Platform) (s : Shown) (c : Call) : Option Shown :=
  match c.exec P s.table with
  | (.ok (), t) => some (c.returned s t)
  | (.threw _, t) => some { s with table := t }
  | _ => none

end Call

/-- The rows are those fetched from the host that the table names. -/
def Agrees (s : Shown) : Prop :=
  s.table.mRemoteHost = s.host ∧ ∃ rows, s.table.mData = some rows ∧ rows.Perm s.listing

/-- If the call fails, the table named the host that it asks for. -/
def NamesHost (s : Shown) : Call → Prop
  | .sortColumn .. => True
  | .refresh fetch r => (fetch (r.host s.table)).Throws → r.host s.table = s.table.mRemoteHost

section

variable {P : Platform} {s s' : Shown} {c : Call}

theorem agrees_sortColumn {col : BitVec 32} {o : SortOrder} (hi : Agrees s)
    (h : Call.step P s (.sortColumn col o) = some s') : Agrees s' := by
  obtain ⟨hh, rows, hd, hp⟩ := hi
  rw [Call.step, Call.exec] at h
  by_cases ho : o = .Next
  · subst ho
    rw [sortColumn_next_eq hd] at h
    obtain ⟨rows', hs⟩ | hs := sortTableOnColumn_cases P rows col s.table.sorted.sortOrder.next
    · rw [hs] at h
      obtain rfl := Option.some.inj h
      exact ⟨hh, rows', rfl, (sortTableOnColumn_perm hs).trans hp⟩
    · rw [hs] at h
      cases h
  · rw [sortColumn_explicit col ho] at h
    obtain rfl := Option.some.inj h
    exact ⟨hh, rows, hd, hp⟩

/-- After a refresh the rows are those of the host named, unless it failed and
named another. -/
theorem agrees_refresh {fetch : Fetch} {r : Refresh} (hi : Agrees s)
    (h : Call.step P s (.refresh fetch r) = some s') :
    Agrees s' ↔ NamesHost s (.refresh fetch r) := by
  let t : WmiProcessTable := { s.table with mRemoteHost := r.host s.table }
  have he : r.exec P fetch s.table = updateData P fetch t := by
    cases r with
    | updateData => rfl
    | changeHost host => exact changeHost_eq ..
  rw [Call.step, Call.exec] at h
  rw [he] at h
  obtain ⟨e, hf, hu⟩ | ⟨listing, rows, hf, hp, hu⟩ | hu | hu := updateData_cases P fetch t
  · rw [hu] at h
    obtain rfl := Option.some.inj h
    have hn : NamesHost s (.refresh fetch r) ↔ r.host s.table = s.table.mRemoteHost :=
      ⟨fun h => h ⟨e, hf⟩, fun h _ => h⟩
    rw [hn, hi.1]
    exact ⟨fun h => h.1, fun h => ⟨h, hi.2⟩⟩
  · rw [hu] at h
    obtain rfl := Option.some.inj h
    have hf' : fetch (r.host s.table) = .ok listing := hf
    refine iff_of_true ?_ fun ⟨e, he⟩ => ?_
    · rw [Call.returned, hf']
      exact ⟨rfl, rows, rfl, hp⟩
    · rw [hf'] at he
      cases he
  · rw [hu] at h
    cases h
  · rw [hu] at h
    cases h

theorem agrees_step (hi : Agrees s) (h : Call.step P s c = some s') : Agrees s' ↔ NamesHost s c := by
  cases c with
  | sortColumn col o => exact iff_of_true (agrees_sortColumn hi h) trivial
  | refresh fetch r => exact agrees_refresh hi h

end

/-- A call whose fetch throws leaves the table as it was if and only if the
table named the host asked for; and the rows are those of the host named in
every state of a run if and only if every call of it that fails is such. -/
theorem failed_refresh (P : Platform) :
    (∀ (fetch : Fetch) (t : WmiProcessTable) (r : Refresh) (e : Exn),
      fetch (r.host t) = .threw e →
        (r.exec P fetch t = (.threw e, t) ↔ r.host t = t.mRemoteHost)) ∧
    (∀ (fetch : Fetch) (host : WString) (t : WmiProcessTable) (listing : List WmiProcess)
      (calls : List Call) (s : Shown),
      ofHost fetch host = .ok t → fetch host = .ok listing →
        run (Call.step P) ⟨t, host, listing⟩ calls = some s →
          (AllStates (Call.step P) Agrees ⟨t, host, listing⟩ calls ↔
            AllSteps (Call.step P) NamesHost ⟨t, host, listing⟩ calls)) := by
  refine ⟨fun fetch t r e hf => exec_threw_iff hf, fun fetch host t listing calls s ho hf h => ?_⟩
  have hi : Agrees ⟨t, host, listing⟩ := by
    rw [ofHost, hf, Outcome.ok_bind] at ho
    cases ho
    exact ⟨rfl, listing, rfl, .refl listing⟩
  exact allStates_iff_allSteps agrees_step hi h

/-- A table of the processes of `alpha`. -/
def ofAlpha : WmiProcessTable where
  mRemoteHost := wide "alpha"
  mData := some [process 4 1]

/-- What a host that cannot be reached gives. -/
def unreachable : Fetch := fun _ => .threw (.wmiError "Could not connect" 0x800706BA)

/-- `alpha` is lost, `beta` is opened, and lost in its turn. -/
def lostTwice : List Call :=
  [.refresh unreachable .updateData,
    .refresh (fun _ => .ok [process 8 2]) (.changeHost (wide "beta")),
    .refresh unreachable (.changeHost (wide "beta"))]

theorem failed_refresh_lostTwice :
    Refresh.updateData.exec .ascii unreachable ofAlpha =
        (.threw (.wmiError "Could not connect" 0x800706BA), ofAlpha) ∧
      AllStates (Call.step .ascii) Agrees ⟨ofAlpha, wide "alpha", [process 4 1]⟩ lostTwice := by
  obtain ⟨one, runs⟩ := failed_refresh .ascii
  refine ⟨(one unreachable ofAlpha .updateData _ rfl).mpr rfl, ?_⟩
  have hrun : run (Call.step .ascii) ⟨ofAlpha, wide "alpha", [process 4 1]⟩ lostTwice = some _ := rfl
  refine (runs (fun _ => .ok [process 4 1]) (wide "alpha") ofAlpha _ lostTwice _ rfl rfl hrun).mpr ?_
  refine ⟨fun _ => rfl, fun s₁ h₁ => ⟨fun ⟨e, he⟩ => ?_, fun s₂ h₂ => ⟨fun _ => ?_, fun _ _ => trivial⟩⟩⟩
  · cases he
  · cases h₁
    cases h₂
    rfl

/-- `beta` cannot be reached, and the table names it all the same. -/
theorem failed_changeHost :
    (Refresh.changeHost (wide "beta")).exec .ascii unreachable ofAlpha =
        (.threw (.wmiError "Could not connect" 0x800706BA),
          { ofAlpha with mRemoteHost := wide "beta" }) ∧
      ofAlpha.mRemoteHost ≠ wide "beta" := by
  refine ⟨rfl, ?_⟩
  decide

end RTM.Proof.FailedRefresh
