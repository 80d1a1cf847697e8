import RemoteTaskManager.Framework.Balance
import RemoteTaskManager.Framework.Run
import RemoteTaskManager.Proof.WmiImpl

/-!
# The balance of COM initialisation

Objects are built, copied, moved, assigned and destroyed in any order
(`Thread.step`). Each of them uninitialises the thread once, so copies and
moves bring an uninitialisation of their own, and so does a constructor whose
`CoCreateInstance` fails. A run makes as many uninitialisations as
initialisations, and never more, exactly when it has no such step
(`com_balanced_iff`).
-/

namespace RTM.Proof.ComBalance

open RTM.Impl RTM.Proof.WmiImpl

/-! ## Levels of initialisation -/

/-- A successful `CoInitializeEx`. -/
def isInit : ComCall → Bool
  | .coInitializeEx hres => !failed hres
  | _ => false

def isUninit : ComCall → Bool
  | .coUninit => true
  | _ => false

/-- How often the thread is initialised. -/
def depth (s : Com) : Int := level isInit isUninit s.calls

/-- At no point are there more uninitialisations than initialisations. -/
def Safe (s : Com) : Prop := Guarded isInit isUninit s.calls

section

variable {M : Machine} {s : Com}

@[simp] theorem depth_log (s : Com) (c : ComCall) :
    depth (s.log c) = depth s + level isInit isUninit [c] := level_concat

theorem safe_log (s : Com) (c : ComCall) : Safe (s.log c) ↔ Safe s ∧ 0 ≤ depth (s.log c) :=
  guarded_concat

@[simp] theorem level_coInitializeEx (hres : HRESULT) :
    level isInit isUninit [.coInitializeEx hres] = if failed hres then 0 else 1 := by
  cases h : failed hres <;> simp [level, isInit, isUninit, h]

@[simp] theorem level_coUninit : level isInit isUninit [.coUninit] = -1 := rfl

@[simp] theorem level_coInitializeSecurity (hres : HRESULT) :
    level isInit isUninit [.coInitializeSecurity hres] = 0 := rfl

@[simp] theorem level_coCreateInstance (hres : HRESULT) :
    level isInit isUninit [.coCreateInstance hres] = 0 := rfl

@[simp] theorem level_release (i : Interface) : level isInit isUninit [.release i] = 0 := rfl

/-- Calls that are no initialisation. -/
@[simp] theorem depth_secured : depth (secured M s) = depth s := by
  unfold secured
  split
  · exact (depth_log _ _).trans (Int.add_zero _)
  · rfl

theorem safe_secured (h : Safe s) (hd : 0 ≤ depth s) : Safe (secured M s) := by
  unfold secured
  split
  · exact (safe_log _ _).mpr ⟨h, by simpa using hd⟩
  · exact h

/-- A `CoInitializeEx` that fails changes nothing. -/
theorem log_init_fails (h : failed M.coInitializeEx = true) (s : Com) :
    depth (s.log (.coInitializeEx M.coInitializeEx)) = depth s ∧
      (Safe s → 0 ≤ depth s → Safe (s.log (.coInitializeEx M.coInitializeEx))) := by
  have hd : depth (s.log (.coInitializeEx M.coInitializeEx)) = depth s := by
    rw [depth_log, level_coInitializeEx, if_pos h, Int.add_zero]
  exact ⟨hd, fun hs h0 => (safe_log _ _).mpr ⟨hs, by rwa [hd]⟩⟩

/-- One that succeeds initialises the thread once more. -/
theorem log_init_ok (h : failed M.coInitializeEx = false) (s : Com) :
    depth (s.log (.coInitializeEx M.coInitializeEx)) = depth s + 1 ∧
      (Safe s → 0 ≤ depth s → Safe (s.log (.coInitializeEx M.coInitializeEx))) := by
  have hd : depth (s.log (.coInitializeEx M.coInitializeEx)) = depth s + 1 := by
    rw [depth_log, level_coInitializeEx, h]
    rfl
  exact ⟨hd, fun hs h0 => (safe_log _ _).mpr ⟨hs, by omega⟩⟩

@[simp] theorem depth_releaseIf (b : Bool) (i : Interface) : depth (releaseIf b i s) = depth s := by
  cases b <;> simp [releaseIf]

theorem safe_releaseIf {b : Bool} {i : Interface} (h : Safe s) (hd : 0 ≤ depth s) :
    Safe (releaseIf b i s) := by
  cases b with
  | false => exact h
  | true => exact (safe_log _ _).mpr ⟨h, by simpa using hd⟩

end

/-! ## Objects -/

inductive Obj where
  | co (o : WmiStateCo)
  | t (o : WmiStateT)
deriving DecidableEq, Repr

/-- The `has_init` of an object, or of its `init`. -/
def Obj.hasInit : Obj → Bool
  | .co o => o.hasInit
  | .t o => o.init.hasInit

def Obj.dtor : Obj → Com → Com
  | .co o => o.dtor
  | .t o => o.dtor

/-- A thread: the objects that live on it, and its calls of COM. -/
structure Thread where
  live : List Obj := []
  com : Com := {}
deriving DecidableEq, Repr

/-- An operation on the objects, which are counted from 0. -/
inductive ObjOp where
  | constructCo (M : Machine)
  | constructT (M : Machine)
  | copy (i : Nat)
  | move (i : Nat)
  | copyAssign (i j : Nat)
  | moveAssign (i j : Nat)
  | destroy (i : Nat)

namespace Thread

/-- The object built lives, if its constructor returns. -/
def construct {α : Type} (s : Thread) (obj : α → Obj) : Outcome Exn α × Com → Option Thread
  | (.ok o, com) => some ⟨s.live ++ [obj o], com⟩
  | (.threw _, com) => some ⟨s.live, com⟩
  | _ => none

def step (s : Thread) : ObjOp → Option Thread
  | .constructCo M => s.construct .co (WmiStateCo.ctor M s.com)
  | .constructT M => s.construct .t (WmiStateT.ctor M s.com)
  -- The copy constructor of `wmi_state_t` is deleted
  | .copy i =>
    match s.live[i]? with
    | some (.co o) => some { s with live := s.live ++ [.co o.copy] }
    | _ => none
  | .move i =>
    match s.live[i]? with
    | some (.co o) => some { s with live := s.live ++ [.co o.copy] }
    | some (.t o) => some { s with live := s.live.set i (.t o.move.2) ++ [.t o.move.1] }
    | none => none
  -- So is its copy assignment
  | .copyAssign i j =>
    match s.live[i]?, s.live[j]? with
    | some (.co o), some (.co other) => some { s with live := s.live.set i (.co (o.assign other)) }
    | _, _ => none
  | .moveAssign i j =>
    match s.live[i]?, s.live[j]? with
    | some (.co o), some (.co other) => some { s with live := s.live.set i (.co (o.assign other)) }
    | some (.t o), some (.t other) =>
      if i = j then some s
      else
        let (o, other, com) := o.moveAssign other s.com
        some ⟨(s.live.set i (.t o)).set j (.t other), com⟩
    | _, _ => none
  | .destroy i =>
    match s.live[i]? with
    | some obj => some ⟨s.live.eraseIdx i, obj.dtor s.com⟩
    | none => none

end Thread

/-- No object is built from another, and none fails to create its locator. -/
def Sound (s : Thread) : ObjOp → Prop
  | .copy _ | .move _ => False
  | .constructT M =>
    failed M.coInitializeEx = true ∨ SecurityFails M s.com ∨ failed M.coCreateInstance = false
  | _ => True

instance (s : Thread) : ∀ a, Decidable (Sound s a)
  | .copy _ | .move _ => inferInstanceAs (Decidable False)
  | .constructT _ => inferInstanceAs (Decidable (_ ∨ _ ∨ _))
  | .constructCo _ | .copyAssign .. | .moveAssign .. | .destroy _ => inferInstanceAs (Decidable True)

/-! ## What a step keeps -/

/-- Every live object has initialised the thread, for all it knows. -/
def Held (s : Thread) : Prop := ∀ obj ∈ s.live, obj.hasInit = true

/-- The initialisations that no live object is to undo. -/
def slack (s : Thread) : Int := depth s.com - s.live.length

section

variable {s t : Thread} {a : ObjOp} {M : Machine}

theorem depth_dtor {obj : Obj} {c : Com} (h : obj.hasInit = true) :
    depth (obj.dtor c) = depth c - 1 := by
  cases obj with
  | co o =>
    simp only [Obj.hasInit] at h
    simp [Obj.dtor, WmiStateCo.dtor, h, Int.sub_eq_add_neg]
  | t o =>
    simp only [Obj.hasInit] at h
    simp [Obj.dtor, WmiStateT.dtor, WmiStateCo.dtor, h, Int.sub_eq_add_neg]

theorem safe_dtor {obj : Obj} {c : Com} (h : obj.hasInit = true) (hs : Safe c) (hd : 1 ≤ depth c) :
    Safe (obj.dtor c) := by
  have hu : Safe (c.log .coUninit) ∧ 0 ≤ depth (c.log .coUninit) := by
    have : 0 ≤ depth (c.log .coUninit) := by
      simp only [depth_log, level_coUninit]
      omega
    exact ⟨(safe_log _ _).mpr ⟨hs, this⟩, this⟩
  cases obj with
  | co o =>
    simp only [Obj.hasInit] at h
    simpa only [Obj.dtor, WmiStateCo.dtor, h, ↓reduceIte] using hu.1
  | t o =>
    simp only [Obj.hasInit] at h
    simp only [Obj.dtor, WmiStateT.dtor, WmiStateCo.dtor, h, ↓reduceIte]
    refine safe_releaseIf (safe_releaseIf hu.1 hu.2) ?_
    rw [depth_releaseIf]
    exact hu.2

/-- What a step that leaves `n` initialisations short does. -/
structure Kept (s t : Thread) (n : Int) : Prop where
  held : Held t
  slack : slack t = slack s - n
  safe : n = 0 → Safe s.com → 0 ≤ depth s.com → (s.live ≠ [] → 1 ≤ depth s.com) → Safe t.com

theorem held_append {live : List Obj} {obj : Obj} (hi : ∀ o ∈ live, o.hasInit = true)
    (ho : obj.hasInit = true) : ∀ o ∈ live ++ [obj], o.hasInit = true := by
  intro o hm
  rcases List.mem_append.mp hm with hm | hm
  · exact hi o hm
  · rw [List.mem_singleton.mp hm]
    exact ho

theorem held_set {live : List Obj} {obj : Obj} {i : Nat} (hi : ∀ o ∈ live, o.hasInit = true)
    (ho : obj.hasInit = true) : ∀ o ∈ live.set i obj, o.hasInit = true := by
  intro o hm
  rcases List.mem_or_eq_of_mem_set hm with hm | rfl
  · exact hi o hm
  · exact ho

/-- A step that changes the objects only, `n` of them being new. -/
theorem kept_of_live {live : List Obj} {n : Int} (hl : ∀ o ∈ live, o.hasInit = true)
    (hn : (live.length : Int) = s.live.length + n) : Kept s { s with live := live } n :=
  ⟨hl, by simp only [ComBalance.slack]; omega, fun _ hs _ _ => hs⟩

/-- A constructor that throws, and leaves `n` initialisations short. -/
theorem kept_of_thrown {com : Com} {n : Int} (hi : Held s) (hd : depth com = depth s.com - n)
    (hs : n = 0 → Safe s.com → 0 ≤ depth s.com → Safe com) : Kept s ⟨s.live, com⟩ n := by
  refine ⟨hi, ?_, fun hn h h0 _ => hs hn h h0⟩
  show depth com - s.live.length = depth s.com - s.live.length - n
  omega

/-- A constructor that builds an object, and initialises the thread for it. -/
theorem kept_of_built {com : Com} {obj : Obj} (hi : Held s) (ho : obj.hasInit = true)
    (hd : depth com = depth s.com + 1) (hs : Safe s.com → 0 ≤ depth s.com → Safe com) :
    Kept s ⟨s.live ++ [obj], com⟩ 0 := by
  refine ⟨held_append hi ho, ?_, fun _ h h0 _ => hs h h0⟩
  show depth com - (s.live ++ [obj]).length = depth s.com - s.live.length - 0
  rw [List.length_append, List.length_singleton]
  omega

theorem kept_constructCo (hi : Held s) (h : Thread.step s (.constructCo M) = some t) :
    Kept s t 0 := by
  rw [Thread.step] at h
  cases hf : failed M.coInitializeEx with
  | true =>
    rw [coCtor_fails hf, Thread.construct, Option.some.injEq] at h
    subst h
    obtain ⟨hd, hs⟩ := log_init_fails (M := M) hf s.com
    exact kept_of_thrown hi (by omega) fun _ => hs
  | false =>
    rw [coCtor_ok hf, Thread.construct, Option.some.injEq] at h
    subst h
    obtain ⟨hd, hs⟩ := log_init_ok (M := M) hf s.com
    exact kept_of_built hi rfl hd hs

theorem kept_constructT (hi : Held s) (h : Thread.step s (.constructT M) = some t) :
    Kept s t (if Sound s (.constructT M) then 0 else 1) := by
  rw [Thread.step] at h
  cases hf : failed M.coInitializeEx with
  | true =>
    rw [ctor_init_fails hf, Thread.construct, Option.some.injEq] at h
    subst h
    rw [if_pos (.inl hf)]
    obtain ⟨hd, hs⟩ := log_init_fails (M := M) hf s.com
    exact kept_of_thrown hi (by omega) fun _ => hs
  | false =>
    obtain ⟨hd, hs⟩ := log_init_ok (M := M) hf s.com
    by_cases hsec : SecurityFails M s.com
    · have hsec' : SecurityFails M (s.com.log (.coInitializeEx M.coInitializeEx)) := hsec
      rw [ctor_security_fails hf hsec', Thread.construct, Option.some.injEq] at h
      subst h
      rw [if_pos (.inr (.inl hsec))]
      refine kept_of_thrown hi ?_ fun _ hsafe h0 => ?_
      · rw [depth_log, depth_log, hd, level_coInitializeSecurity, level_coUninit]
        omega
      · have hs₁ := (safe_log _ (.coInitializeSecurity M.coInitializeSecurity)).mpr
          ⟨hs hsafe h0, by rw [depth_log, hd, level_coInitializeSecurity]; omega⟩
        refine (safe_log _ _).mpr ⟨hs₁, ?_⟩
        rw [depth_log, depth_log, hd, level_coInitializeSecurity, level_coUninit]
        omega
    · have hsec' : ¬ SecurityFails M (s.com.log (.coInitializeEx M.coInitializeEx)) := hsec
      have hcreate : depth ((secured M (s.com.log (.coInitializeEx M.coInitializeEx))).log
          (.coCreateInstance M.coCreateInstance)) = depth s.com + 1 := by
        rw [depth_log, depth_secured, hd, level_coCreateInstance, Int.add_zero]
      cases hc : failed M.coCreateInstance with
      | true =>
        -- The thread is uninitialised twice.
        rw [ctor_create_fails hf hsec' hc, Thread.construct, Option.some.injEq] at h
        subst h
        rw [if_neg (by simp [Sound, hf, hsec, hc])]
        refine kept_of_thrown hi ?_ nofun
        rw [depth_log, depth_log, hcreate, level_coUninit]
        omega
      | false =>
        rw [ctor_ok hf hsec' hc, Thread.construct, Option.some.injEq] at h
        subst h
        rw [if_pos (.inr (.inr hc))]
        refine kept_of_built hi rfl hcreate fun hsafe h0 => (safe_log _ _).mpr ⟨?_, ?_⟩
        · exact safe_secured (hs hsafe h0) (by omega)
        · rw [hcreate]
          omega

theorem kept_copy {i : Nat} (hi : Held s) (h : Thread.step s (.copy i) = some t) :
    Kept s t 1 := by
  simp only [Thread.step] at h
  split at h
  · rename_i o ho
    rw [← Option.some.inj h]
    exact kept_of_live (held_append hi (hi _ (List.mem_of_getElem? ho))) (by simp)
  · cases h

theorem kept_move {i : Nat} (hi : Held s) (h : Thread.step s (.move i) = some t) :
    Kept s t 1 := by
  simp only [Thread.step] at h
  split at h
  · rename_i o ho
    rw [← Option.some.inj h]
    exact kept_of_live (held_append hi (hi _ (List.mem_of_getElem? ho))) (by simp)
  · rename_i o ho
    have hinit := hi _ (List.mem_of_getElem? ho)
    rw [← Option.some.inj h]
    exact kept_of_live (held_append (held_set hi hinit) hinit) (by simp)
  · cases h

theorem kept_copyAssign {i j : Nat} (hi : Held s) (h : Thread.step s (.copyAssign i j) = some t) :
    Kept s t 0 := by
  simp only [Thread.step] at h
  split at h
  · rename_i o other ho hother
    rw [← Option.some.inj h]
    exact kept_of_live (held_set hi (hi _ (List.mem_of_getElem? hother))) (by simp)
  · cases h

theorem kept_moveAssign {i j : Nat} (hi : Held s) (h : Thread.step s (.moveAssign i j) = some t) :
    Kept s t 0 := by
  simp only [Thread.step] at h
  split at h
  · rename_i o other ho hother
    rw [← Option.some.inj h]
    exact kept_of_live (held_set hi (hi _ (List.mem_of_getElem? hother))) (by simp)
  · rename_i o other ho hother
    have hinit := hi _ (List.mem_of_getElem? hother)
    split at h
    · rw [← Option.some.inj h]
      exact kept_of_live hi (by simp)
    · rw [← Option.some.inj h]
      refine ⟨held_set (held_set hi hinit) hinit, ?_, fun _ hs hd _ => ?_⟩
      · simp [ComBalance.slack, WmiStateT.moveAssign]
      · refine safe_releaseIf (safe_releaseIf hs hd) ?_
        rw [depth_releaseIf]
        exact hd
  · cases h

theorem kept_destroy {i : Nat} (hi : Held s) (h : Thread.step s (.destroy i) = some t) :
    Kept s t 0 := by
  simp only [Thread.step] at h
  split at h
  · rename_i obj ho
    have hm := List.mem_of_getElem? ho
    have hlt := (List.getElem?_eq_some_iff.mp ho).1
    rw [← Option.some.inj h]
    refine ⟨fun o hmem => hi o (List.mem_of_mem_eraseIdx hmem), ?_, fun _ hs _ hd => ?_⟩
    · simp only [ComBalance.slack, depth_dtor (hi obj hm), List.length_eraseIdx, hlt, ↓reduceIte]
      omega
    · exact safe_dtor (hi obj hm) hs (hd (List.ne_nil_of_mem hm))
  · cases h

/-- A step leaves one initialisation short, or none if it is sound. -/
theorem kept_step (hi : Held s) (h : Thread.step s a = some t) :
    Kept s t (if Sound s a then 0 else 1) := by
  cases a with
  | constructCo M => exact kept_constructCo hi h
  | constructT M => exact kept_constructT hi h
  | copy i => exact kept_copy hi h
  | move i => exact kept_move hi h
  | copyAssign i j => exact kept_copyAssign hi h
  | moveAssign i j => exact kept_moveAssign hi h
  | destroy i => exact kept_destroy hi h

end

/-! ## Runs -/

section

variable {s t : Thread} {ops : List ObjOp}

/-- A run falls short exactly if a step of it does. -/
theorem slack_run (hi : Held s) (h : run Thread.step s ops = some t) :
    slack t ≤ slack s ∧ (slack t = slack s ↔ AllSteps Thread.step Sound s ops) := by
  induction ops generalizing s with
  | nil =>
    cases h
    exact ⟨Int.le_refl _, iff_of_true rfl trivial⟩
  | cons a ops ih =>
    obtain ⟨u, hu, h⟩ := run_cons_eq_some.mp h
    have hk := kept_step hi hu
    obtain ⟨hle, hiff⟩ := ih hk.held h
    have hs := hk.slack
    rw [allSteps_cons hu]
    by_cases ha : Sound s a
    · rw [if_pos ha] at hs
      exact ⟨by omega, by rw [and_iff_right ha, ← hiff]; omega⟩
    · rw [if_neg ha] at hs
      exact ⟨by omega, iff_of_false (by omega) fun h => ha h.1⟩

theorem safe_step {a : ObjOp} (hi : Held s) (hs : Safe s.com) (h0 : slack s = 0) (ha : Sound s a)
    (h : Thread.step s a = some t) : Held t ∧ Safe t.com ∧ slack t = 0 := by
  have hk := kept_step hi h
  rw [if_pos ha] at hk
  have hd : depth s.com = s.live.length := by
    unfold slack at h0
    omega
  refine ⟨hk.held, hk.safe rfl hs (by omega) fun hl => ?_, by rw [hk.slack, h0]; rfl⟩
  have := List.length_pos_iff.mpr hl
  omega

/-- What a run of sound steps keeps. -/
theorem safe_run (hi : Held s) (hs : Safe s.com) (h0 : slack s = 0)
    (hg : AllSteps Thread.step Sound s ops) (h : run Thread.step s ops = some t) : Safe t.com :=
  (run_inv_of_allSteps (I := fun s => Held s ∧ Safe s.com ∧ slack s = 0) (G := Sound)
    (fun hi hg h => safe_step hi.1 hi.2.1 hi.2.2 hg h) ⟨hi, hs, h0⟩ hg h).2.1

end

/-- On a thread that nothing else has initialised: in a run of sound steps the
uninitialisations are never more than the initialisations; and once all objects
are destroyed the two are equal exactly when every step was sound. -/
theorem com_balanced_iff (secRes : Option HRESULT) {ops : List ObjOp} {t : Thread}
    (h : run Thread.step ⟨[], ⟨secRes, []⟩⟩ ops = some t) :
    (AllSteps Thread.step Sound ⟨[], ⟨secRes, []⟩⟩ ops →
      ∀ p, p <+: t.com.calls → p.countP isUninit ≤ p.countP isInit) ∧
    (t.live = [] → (t.com.calls.countP isUninit = t.com.calls.countP isInit ↔
      AllSteps Thread.step Sound ⟨[], ⟨secRes, []⟩⟩ ops)) := by
  have hi : Held ⟨[], ⟨secRes, []⟩⟩ := fun o ho => by cases ho
  refine ⟨fun hg => safe_run hi guarded_nil rfl hg h, fun hl => ?_⟩
  rw [← (slack_run hi h).2]
  have e : slack t = (t.com.calls.countP isInit : Int) - t.com.calls.countP isUninit := by
    simp only [slack, hl, List.length_nil, depth, level]
    omega
  have e₀ : slack ⟨[], ⟨secRes, []⟩⟩ = 0 := rfl
  omega

/-! ## On a machine whose calls succeed -/

/-- A machine whose calls succeed, but for `CoCreateInstance`. -/
def creating (coCreateInstance : HRESULT) : Machine where
  coInitializeEx := S_OK
  coInitializeSecurity := S_OK
  coCreateInstance := coCreateInstance
  connectServer _ := S_OK
  coSetProxyBlanket := S_OK
  execQuery _ := (S_OK, none)

/-- Two objects, destroyed in the order they were built. -/
def twoObjects : List ObjOp :=
  [.constructCo (creating S_OK), .constructT (creating S_OK), .moveAssign 1 1, .destroy 0, .destroy 0]

theorem com_balanced_two :
    ∃ t ∈ run Thread.step ⟨[], ⟨none, []⟩⟩ twoObjects,
      t.com.calls.countP isUninit = t.com.calls.countP isInit := by
  obtain ⟨t, ht⟩ := Option.isSome_iff_exists.mp
    (show (run Thread.step ⟨[], ⟨none, []⟩⟩ twoObjects).isSome by decide)
  have hl : ∀ t ∈ run Thread.step ⟨[], ⟨none, []⟩⟩ twoObjects, t.live = [] := by decide
  exact ⟨t, ht, ((com_balanced_iff none ht).2 (hl t ht)).mpr (by decide)⟩

/-- A run that destroys all its objects and uninitialises the thread once too
often. -/
def Unbalanced (ops : List ObjOp) : Prop :=
  ∃ t ∈ run Thread.step ⟨[], ⟨none, []⟩⟩ ops, t.live = [] ∧
    t.com.calls.countP isInit = 1 ∧ t.com.calls.countP isUninit = 2

instance (ops : List ObjOp) : Decidable (Unbalanced ops) :=
  inferInstanceAs (Decidable (∃ t ∈ run Thread.step _ ops, _))

/-- So do a copy, a move and a failing `CoCreateInstance`. -/
theorem com_unbalanced :
    Unbalanced [.constructCo (creating S_OK), .copy 0, .destroy 0, .destroy 0] ∧
    Unbalanced [.constructT (creating S_OK), .move 0, .destroy 0, .destroy 0] ∧
    Unbalanced [.constructT (creating 0x80040154)] := by
  decide

end RTM.Proof.ComBalance
