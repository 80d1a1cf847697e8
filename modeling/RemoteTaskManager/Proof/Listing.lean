import RemoteTaskManager.Proof.RightClick
import RemoteTaskManager.Proof.Win32Process
import RemoteTaskManager.Proof.WmiImpl

/-!
# The listing of a machine

`transform` stops where the enumeration stops giving records, for whatever
reason, and returns the records given so far (`transform_eq_ok`). So the
listing of a machine is complete or an error exactly when the enumeration ends
normally (`listing_complete_iff`). Null properties leave it whole exactly when
no creation date is null (`nulls_kept_iff`): that one throws, and takes the
other processes with it.
-/

namespace RTM.Proof.Listing

open RTM.Impl RTM.Spec RTM.Proof.Win32Process RTM.Proof.WmiImpl

/-! ## Enumerations -/

/-- The records an enumeration delivers before it ends. -/
def records : Enumeration → List ClassObject
  | .done _ => []
  | .next hr record rest =>
    match record with
    | none => []
    | some obj => if failed hr then [] else obj :: records rest

/-- The result of the call of `Next` that ends it. -/
def ending : Enumeration → HRESULT
  | .done hr => hr
  | .next hr record rest =>
    match record with
    | none => hr
    | some _ => if failed hr then hr else ending rest

/-- An enumeration of records that ends with a call of `Next`. -/
def enumerate (objs : List ClassObject) (hr : HRESULT) : Enumeration :=
  objs.foldr (fun obj rest => .next S_OK (some obj) rest) (.done hr)

theorem records_enumerate (objs : List ClassObject) (hr : HRESULT) :
    records (enumerate objs hr) = objs := by
  induction objs with
  | nil => rfl
  | cons obj objs ih => exact congrArg (obj :: ·) ih

/-- What is so of a record is so of all that are delivered, if it is the only
one. -/
theorem forall_records_enumerate {Q : ClassObject → Prop} {obj : ClassObject} (h : Q obj)
    (hr : HRESULT) : ∀ o ∈ records (enumerate [obj] hr), Q o := by
  intro o ho
  rw [records_enumerate] at ho
  rwa [List.mem_singleton.mp ho]

theorem ending_enumerate (objs : List ClassObject) (hr : HRESULT) :
    ending (enumerate objs hr) = hr := by
  induction objs with
  | nil => rfl
  | cons obj objs ih => exact ih

section

variable {α : Type} {f : ClassObject → Outcome Exn α} {e : Enumeration} {xs : List α}

/-- Where no record is given, none is listed. -/
theorem transform_eq_ok_of_nil (hr : records e = []) (ht : transform f e = .ok []) :
    transform f e = .ok xs ↔ (records e).map f = xs.map .ok := by
  rw [hr, ht, List.map_nil, Outcome.ok.injEq]
  cases xs with
  | nil => exact iff_of_true rfl rfl
  | cons x xs => exact iff_of_false (List.cons_ne_nil x xs).symm (List.cons_ne_nil _ _).symm

/-- One entry per record delivered, in their order. -/
theorem transform_eq_ok : transform f e = .ok xs ↔ (records e).map f = xs.map .ok := by
  induction e generalizing xs with
  | done hr => exact transform_eq_ok_of_nil rfl rfl
  | next hr record rest ih =>
    cases record with
    | none => exact transform_eq_ok_of_nil rfl rfl
    | some obj =>
      by_cases hf : failed hr = true
      · exact transform_eq_ok_of_nil (if_pos hf) (if_pos hf)
      · have hrec : records (.next hr (some obj) rest) = obj :: records rest := if_neg hf
        have ht : transform f (.next hr (some obj) rest) =
            f obj >>= fun x => transform f rest >>= fun ys => .ok (x :: ys) := if_neg hf
        rw [hrec, ht, List.map_cons]
        constructor
        · intro h
          obtain ⟨y, hy, h⟩ := Outcome.bind_eq_ok.mp h
          obtain ⟨ys, hys, h⟩ := Outcome.bind_eq_ok.mp h
          rw [← Outcome.ok.inj h, hy, ih.mp hys, List.map_cons]
        · intro h
          cases xs with
          | nil => cases h
          | cons x xs =>
            rw [List.map_cons, List.cons.injEq] at h
            rw [h.1, Outcome.ok_bind, ih.mpr h.2, Outcome.ok_bind]

/-- Records that all decode are listed, however the enumeration ends. -/
theorem transform_returns (h : ∀ obj ∈ records e, (f obj).Returns) : (transform f e).Returns := by
  have key : ∀ objs : List ClassObject, (∀ obj ∈ objs, (f obj).Returns) →
      ∃ xs : List α, objs.map f = xs.map .ok := by
    intro objs h
    induction objs with
    | nil => exact ⟨[], rfl⟩
    | cons obj objs ih =>
      obtain ⟨x, hx⟩ := h obj List.mem_cons_self
      obtain ⟨xs, hxs⟩ := ih fun o ho => h o (List.mem_cons_of_mem _ ho)
      exact ⟨x :: xs, by rw [List.map_cons, hx, hxs, List.map_cons]⟩
  obtain ⟨xs, hxs⟩ := key (records e) h
  exact ⟨xs, transform_eq_ok.mpr hxs⟩

/-- Entries beside their records. -/
theorem of_mem_zip {objs : List ClassObject} (h : objs.map f = xs.map .ok) :
    ∀ x ∈ objs.zip xs, f x.1 = .ok x.2 := by
  induction objs generalizing xs with
  | nil => exact fun x hx => by cases hx
  | cons obj objs ih =>
    cases xs with
    | nil => exact fun x hx => by cases hx
    | cons y ys =>
      rw [List.map_cons, List.map_cons, List.cons.injEq] at h
      intro x hx
      rcases List.mem_cons.mp hx with rfl | hx
      · exact h.1
      · exact ih h.2 x hx

end

/-! ## Complete or an error -/

section

variable {P : Platform} {M : Machine} {machine : WString} {e : Enumeration}

/-- The listing has one decoded entry per record, in order, if the enumeration
ends normally, and is an exception if it fails. -/
def CompleteOrError (P : Platform) (e : Enumeration) (listing : Outcome Exn (List WmiProcess)) :
    Prop :=
  (failed (ending e) = false →
    ∃ ps, listing = .ok ps ∧ (records e).map (makeWmiProcess P) = ps.map .ok) ∧
  (failed (ending e) = true → listing.Throws)

/-- Of records that decode, the listing is complete or an error exactly when
the enumeration ends normally. -/
theorem listing_complete_iff (hM : Connects M machine e)
    (hd : ∀ obj ∈ records e, (makeWmiProcess P obj).Returns) (s : Com) :
    CompleteOrError P e (getWmiWin32Process P M machine s).1 ↔ failed (ending e) = false := by
  obtain ⟨ps, hps⟩ := transform_returns hd
  rw [getWmiWin32Process_fst hM, hps, CompleteOrError]
  cases hf : failed (ending e) with
  | false =>
    refine iff_of_true ⟨fun _ => ⟨ps, rfl, transform_eq_ok.mp hps⟩, nofun⟩ rfl
  | true => exact iff_of_false (fun h => Outcome.not_throws_ok ps (h.2 rfl)) nofun

/-! ## Null properties -/

/-- The item is what the column is decoded to in every record that has the same
property there and no null property. -/
def DecodedAlone (P : Platform) (obj : ClassObject) (p : WmiProcess) (c : ColumnNumber) : Prop :=
  ∀ obj' : ClassObject, obj'.get (property c) = obj.get (property c) →
    (∀ d, ∃ v, Carries obj' d v ∧ WellFormed P d v) →
    ∃ p', makeWmiProcess P obj' = .ok p' ∧ p'.item c = p.item c

theorem decodedAlone_of_eq_ok {obj : ClassObject} {p : WmiProcess}
    (h : makeWmiProcess P obj = .ok p) (c : ColumnNumber) : DecodedAlone P obj p c := by
  intro obj' hc hw
  obtain ⟨p', hp'⟩ := makeWmiProcess_returns fun d => by
    obtain ⟨v, hv, hwf⟩ := hw d
    exact decode_returns (P := P) hv (.inl hwf)
  exact ⟨p', hp', item_of_decode hp' ((decode_congr hc).trans (decode_item h c))⟩

/-- Every property is well-formed or null. -/
def NullOrWellFormed (P : Platform) (obj : ClassObject) : Prop :=
  ∀ c, ∃ v, Carries obj c v ∧ (WellFormed P c v ∨ v = .VT_NULL)

/-- A record decodes exactly when its creation date is not null. -/
theorem makeWmiProcess_returns_iff_date {obj : ClassObject} (h : NullOrWellFormed P obj) :
    (makeWmiProcess P obj).Returns ↔ ¬ Carries obj .CreationDate .VT_NULL := by
  constructor
  · rintro ⟨p, hp⟩ hn
    have := decode_item hp .CreationDate
    rw [decode_null_date hn] at this
    cases this
  · intro hn
    refine makeWmiProcess_returns fun c => ?_
    obtain ⟨v, hv, hw⟩ := h c
    refine decode_returns hv (hw.imp_right fun e => ⟨e, ?_⟩)
    rintro rfl
    exact hn (e ▸ hv)

/-- Of records whose properties are well-formed or null, the listing has an
entry for each, with every property decoded as it is alone, exactly when no
creation date is null. -/
theorem nulls_kept_iff (hM : Connects M machine e)
    (hw : ∀ obj ∈ records e, NullOrWellFormed P obj) (s : Com) :
    (∃ ps, (getWmiWin32Process P M machine s).1 = .ok ps ∧ ps.length = (records e).length ∧
      ∀ x ∈ (records e).zip ps, ∀ c, DecodedAlone P x.1 x.2 c) ↔
    ∀ obj ∈ records e, ¬ Carries obj .CreationDate .VT_NULL := by
  rw [getWmiWin32Process_fst hM]
  constructor
  · rintro ⟨ps, hps, -, -⟩ obj hobj
    refine (makeWmiProcess_returns_iff_date (hw obj hobj)).mp ?_
    have hm : makeWmiProcess P obj ∈ (records e).map (makeWmiProcess P) :=
      List.mem_map_of_mem hobj
    rw [transform_eq_ok.mp hps] at hm
    obtain ⟨p, -, hp⟩ := List.mem_map.mp hm
    exact ⟨p, hp.symm⟩
  · intro h
    obtain ⟨ps, hps⟩ := transform_returns fun obj hobj =>
      (makeWmiProcess_returns_iff_date (hw obj hobj)).mpr (h obj hobj)
    have hmap := transform_eq_ok.mp hps
    refine ⟨ps, hps, ?_, fun x hx => decodedAlone_of_eq_ok (of_mem_zip hmap x hx)⟩
    simpa using (congrArg List.length hmap).symm

/-! ## The pids of a listing -/

/-- A process that was decoded shows its pid. -/
theorem pidText_of_eq_ok {obj : ClassObject} {p : WmiProcess} (h : makeWmiProcess P obj = .ok p) :
    RightClick.PidText p := by
  obtain ⟨n, -, hn⟩ := Outcome.bind_eq_ok.mp (decode_item h .ProcessId)
  have e := (ColumnItem.integer.inj (Outcome.ok.inj hn)).2
  rw [RightClick.PidText, ← eq_of_heq e]
  rfl

theorem pidText_of_listing {s : Com} {ps : List WmiProcess} (hM : Connects M machine e)
    (h : (getWmiWin32Process P M machine s).1 = .ok ps) : ∀ p ∈ ps, RightClick.PidText p := by
  rw [getWmiWin32Process_fst hM, transform_eq_ok] at h
  intro p hp
  have hm : Outcome.ok p ∈ (records e).map (makeWmiProcess P) := h ▸ List.mem_map_of_mem hp
  obtain ⟨obj, -, ho⟩ := List.mem_map.mp hm
  exact pidText_of_eq_ok ho

end

/-! ## On a machine that answers -/

/-- A machine whose calls succeed, and whose processes are those enumerated. -/
def answering (e : Enumeration) : Machine where
  coInitializeEx := S_OK
  coInitializeSecurity := S_OK
  coCreateInstance := S_OK
  connectServer _ := S_OK
  coSetProxyBlanket := S_OK
  execQuery _ := (S_OK, some e)

theorem connects_answering (e : Enumeration) (machine : WString) :
    Connects (answering e) machine e :=
  have ok : failed S_OK = false := rfl
  ⟨ok, ok, ok, ok, ok, S_OK, ok, rfl⟩

/-- A record without a creation date, as of the idle process. -/
def dateless : ClassObject :=
  ofColumns fun
    | .Name => .VT_BSTR (some (wide "System Idle Process"))
    | .ProcessId | .ParentProcessId | .SessionId => .VT_I4 (0 : BitVec 32)
    | _ => .VT_NULL

/-- A record of a name and a creation date. -/
def sparse : ClassObject :=
  ofColumns fun
    | .Name => .VT_BSTR (some (wide "smss.exe"))
    | .CreationDate => .VT_BSTR (some (wide "20240101120000.000000+000"))
    | _ => .VT_NULL

theorem nullOrWellFormed_sparse (P : Platform) : NullOrWellFormed P sparse := by
  intro c
  refine ⟨_, carries_ofColumns _ c, ?_⟩
  cases c <;> first | exact .inr rfl | exact .inl (Option.some_ne_none _)

theorem nullOrWellFormed_dateless (P : Platform) : NullOrWellFormed P dateless := by
  intro c
  refine ⟨_, carries_ofColumns _ c, ?_⟩
  cases c <;> first
    | exact .inr rfl
    | exact .inl (Option.some_ne_none _)
    | exact .inl ⟨rfl, by decide⟩

theorem not_carries_sparse : ¬ Carries sparse .CreationDate .VT_NULL := by
  rintro ⟨hr, -, h⟩
  rw [sparse, get_ofColumns] at h
  cases h

theorem sparse_returns (P : Platform) : (makeWmiProcess P sparse).Returns :=
  (makeWmiProcess_returns_iff_date (nullOrWellFormed_sparse P)).mpr not_carries_sparse

/-- One record, and the normal end. -/
theorem listing_complete_sparse :
    CompleteOrError .ascii (enumerate [sparse] 1)
      (getWmiWin32Process .ascii (answering (enumerate [sparse] 1)) [] {}).1 := by
  have hf : failed (ending (enumerate [sparse] 1)) = false := by
    rw [ending_enumerate]
    decide
  exact (listing_complete_iff (connects_answering _ [])
    (forall_records_enumerate (sparse_returns .ascii) 1) {}).mpr hf

/-- One record, and a server that has gone away. -/
def cutShort : Enumeration := enumerate [sparse] 0x800706BA

/-- The record is listed, and published as if it were all there is. -/
theorem listing_cut_short :
    failed (ending cutShort) = true ∧
      ¬ CompleteOrError .ascii cutShort (getWmiWin32Process .ascii (answering cutShort) [] {}).1 ∧
      ∃ p, makeWmiProcess .ascii sparse = .ok p ∧ ∀ t, WmiProcessTable.updateData .ascii
        (fun host => (getWmiWin32Process .ascii (answering cutShort) host {}).1) t =
          (.ok (), { t with mData := some [p] }) := by
  obtain ⟨p, hp⟩ := sparse_returns .ascii
  have hf : failed (ending cutShort) = true := by
    rw [cutShort, ending_enumerate]
    decide
  have hl : ∀ machine, (getWmiWin32Process .ascii (answering cutShort) machine {}).1 = .ok [p] := by
    intro machine
    rw [getWmiWin32Process_fst (connects_answering _ machine), transform_eq_ok, cutShort,
      records_enumerate]
    show [makeWmiProcess .ascii sparse] = [.ok p]
    rw [hp]
  have hsort : ∀ col o, sortTableOnColumn .ascii [p] col o = .ok [p] := by
    intro col o
    unfold sortTableOnColumn
    split <;> rfl
  refine ⟨hf, fun h => ?_, p, hp, fun t => ?_⟩
  · rw [hl []] at h
    exact Outcome.not_throws_ok _ (h.2 hf)
  · rw [WmiProcessTable.updateData, ExecM.bind_of_ok (ExecM.get_apply t)]
    simp only [hl, hsort, ExecM.bind_apply, ExecM.lift_apply, ExecM.modify_apply]

theorem nulls_kept_sparse :
    ∃ ps, (getWmiWin32Process .ascii (answering (enumerate [sparse] 1)) [] {}).1 = .ok ps ∧
      ps.length = 1 ∧ ∀ x ∈ [sparse].zip ps, ∀ c, DecodedAlone .ascii x.1 x.2 c := by
  have hw := forall_records_enumerate (nullOrWellFormed_sparse .ascii) 1
  have hd := forall_records_enumerate (Q := fun o => ¬ Carries o .CreationDate .VT_NULL)
    not_carries_sparse 1
  exact (nulls_kept_iff (connects_answering (enumerate [sparse] 1) []) hw {}).mpr hd

/-- A process without a creation date takes the listing with it. -/
theorem nulls_lose_listing :
    (∀ obj ∈ [sparse, dateless], NullOrWellFormed .ascii obj) ∧
      (getWmiWin32Process .ascii (answering (enumerate [sparse, dateless] 1)) [] {}).1 =
        .threw .badVariantAccess := by
  refine ⟨?_, ?_⟩
  · simp only [List.forall_mem_cons, nullOrWellFormed_sparse, nullOrWellFormed_dateless, true_and,
      List.not_mem_nil, false_imp_iff, implies_true]
  · obtain ⟨p, hp⟩ := sparse_returns .ascii
    rw [getWmiWin32Process_fst (connects_answering _ [])]
    show (makeWmiProcess .ascii sparse >>= _) = _
    rw [hp]
    rfl

end RTM.Proof.Listing
