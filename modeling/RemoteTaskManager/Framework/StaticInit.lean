import Mathlib.Algebra.Order.BigOperators.Group.Finset
import Mathlib.Data.Fintype.Card
import Mathlib.Data.List.Basic
import RemoteTaskManager.Framework.Run

/-!
# A static variable, and the threads that meet at it

Threads that share one local static variable, and come to its declaration once
each at most (`Job`). Whoever comes while it has no value initialises it, whoever
comes meanwhile waits, and an initialiser that throws leaves it to the next one
(`StaticInit.step`).

* The threads behave as one after another: each ends with what it gives when they
  run alone, in the order in which they pass the declaration or end before it
  (`order`, `Serial.of_run`), and one that ends before another begins comes first
  (`idxOf_order_lt`).
* One of them at most sets the variable (`Sets.unique`).
* None waits for ever: a run is no longer than four steps a thread (`length_le`),
  and where no thread has a step all have ended (`Serial.ended_of_stuck`). One that
  finds no other in the initialiser can end with no step of another
  (`endsWith_alone`).
-/

namespace RTM

/-- What a thread does before the declaration, in the initialiser of the static,
which gives its value, and after the declaration. What ends the thread gives a
result. -/
structure Job (V L ρ : Type) where
  before : Except ρ L
  init : L → Except ρ (V × L)
  after : V → L → ρ

variable {ι V L ρ : Type}

namespace Job

/-- As far as past the declaration, where no other thread runs. -/
def pass (j : Job V L ρ) (v : Option V) : Except ρ (V × L) :=
  match j.before with
  | .error r => .error r
  | .ok l =>
    match v with
    | some v => .ok (v, l)
    | none => j.init l

/-- The thread where no other one runs: its result, and the value it leaves. -/
def alone (j : Job V L ρ) (v : Option V) : ρ × Option V :=
  match j.pass v with
  | .error r => (r, v)
  | .ok (v, l) => (j.after v l, some v)

theorem alone_of_ok {j : Job V L ρ} {v : Option V} {w : V} {l : L} (h : j.pass v = .ok (w, l)) :
    j.alone v = (j.after w l, some w) := by
  rw [alone, h]

theorem alone_of_error {j : Job V L ρ} {v : Option V} {r : ρ} (h : j.pass v = .error r) :
    j.alone v = (r, v) := by
  rw [alone, h]

theorem pass_of_error {j : Job V L ρ} {r : ρ} (h : j.before = .error r) (v : Option V) :
    j.pass v = .error r := by
  rw [pass, h]

theorem pass_some {j : Job V L ρ} {l : L} (h : j.before = .ok l) (v : V) :
    j.pass (some v) = .ok (v, l) := by
  rw [pass, h]

theorem pass_none {j : Job V L ρ} {l : L} (h : j.before = .ok l) : j.pass none = j.init l := by
  rw [pass, h]

/-- A value stays. -/
theorem alone_some (j : Job V L ρ) (v : V) : (j.alone (some v)).2 = some v := by
  cases h : j.before with
  | error r => rw [alone_of_error (pass_of_error h _)]
  | ok l => rw [alone_of_ok (pass_some h v)]

end Job

/-- How far a thread is. -/
inductive Phase (L ρ : Type) where
  | begun
  /-- At the declaration. -/
  | arrived (l : L)
  | initialising (l : L)
  | passed (l : L)
  | ended (r : ρ)

structure StaticInit (ι V L ρ : Type) where
  value : Option V
  /-- The thread in the initialiser. -/
  guard : Option ι := none
  phase : ι → Phase L ρ := fun _ => .begun

/-- The value that the threads leave, each run alone after those before it. -/
def valueAfter (jobs : ι → Job V L ρ) (v : Option V) (order : List ι) : Option V :=
  order.foldl (fun v i => ((jobs i).alone v).2) v

theorem valueAfter_append (jobs : ι → Job V L ρ) (v : Option V) (o₁ o₂ : List ι) :
    valueAfter jobs v (o₁ ++ o₂) = valueAfter jobs (valueAfter jobs v o₁) o₂ :=
  List.foldl_append

theorem valueAfter_concat (jobs : ι → Job V L ρ) (v : Option V) (order : List ι) (i : ι) :
    valueAfter jobs v (order ++ [i]) = ((jobs i).alone (valueAfter jobs v order)).2 := by
  rw [valueAfter_append]
  rfl

/-- A value stays. -/
theorem valueAfter_some (jobs : ι → Job V L ρ) (v : V) (order : List ι) :
    valueAfter jobs (some v) order = some v := by
  induction order with
  | nil => rfl
  | cons i order ih =>
    show valueAfter jobs ((jobs i).alone (some v)).2 order = some v
    rw [Job.alone_some, ih]

/-- The thread `i` gives the static its value, where the threads of `order` run one
after another. -/
def Sets (jobs : ι → Job V L ρ) (v₀ : Option V) (order : List ι) (i : ι) : Prop :=
  ∃ pre post, order = pre ++ i :: post ∧ valueAfter jobs v₀ pre = none ∧
    ((jobs i).alone none).2 ≠ none

section

variable {jobs : ι → Job V L ρ} {v₀ : Option V} {order : List ι} {i k : ι}

/-- Once a thread has left a value, no later one finds none. -/
theorem valueAfter_ne_none {pre mid : List ι}
    (hi : ((jobs i).alone (valueAfter jobs v₀ pre)).2 ≠ none) :
    valueAfter jobs v₀ (pre ++ i :: mid) ≠ none := by
  obtain ⟨v, hv⟩ := Option.ne_none_iff_exists'.mp hi
  rw [List.append_cons, valueAfter_append, valueAfter_concat, hv, valueAfter_some]
  exact Option.some_ne_none v

/-- One thread at most sets it. -/
theorem Sets.unique (hi : Sets jobs v₀ order i) (hk : Sets jobs v₀ order k) : i = k := by
  obtain ⟨pre, post, rfl, hpre, hi⟩ := hi
  obtain ⟨pre', post', ho, hpre', hk⟩ := hk
  rcases List.append_eq_append_iff.mp ho with ⟨mid, hmid, hrest⟩ | ⟨mid, hmid, hrest⟩
  · cases mid with
    | nil => exact (List.cons.inj hrest).1
    | cons a mid =>
      obtain ⟨rfl, -⟩ := List.cons.inj hrest
      exact absurd (hmid ▸ hpre') (valueAfter_ne_none (hpre.symm ▸ hi))
  · cases mid with
    | nil => exact (List.cons.inj hrest).1.symm
    | cons a mid =>
      obtain ⟨rfl, -⟩ := List.cons.inj hrest
      exact absurd (hmid ▸ hpre) (valueAfter_ne_none (hpre'.symm ▸ hk))

theorem Sets.mem (h : Sets jobs v₀ order i) : i ∈ order := by
  obtain ⟨pre, post, rfl, -⟩ := h
  simp

/-- Some thread sets it, if it has a value in the end and had none. -/
theorem exists_sets_iff :
    (∃ i, Sets jobs v₀ order i) ↔ v₀ = none ∧ valueAfter jobs v₀ order ≠ none := by
  constructor
  · rintro ⟨i, pre, post, rfl, hpre, hi⟩
    refine ⟨?_, valueAfter_ne_none (hpre.symm ▸ hi)⟩
    cases v₀ with
    | none => rfl
    | some v =>
      rw [valueAfter_some] at hpre
      cases hpre
  · rintro ⟨rfl, h⟩
    induction order using List.reverseRecOn with
    | nil => exact absurd rfl h
    | append_singleton order i ih =>
      cases hv : valueAfter jobs none order with
      | none =>
        rw [valueAfter_concat, hv] at h
        exact ⟨i, order, [], rfl, hv, h⟩
      | some v =>
        obtain ⟨k, pre, post, rfl, hpre, hk⟩ := ih (by simp [hv])
        exact ⟨k, pre, post ++ [i], by simp, hpre, hk⟩

end

namespace StaticInit

variable [DecidableEq ι] {jobs : ι → Job V L ρ} {s t : StaticInit ι V L ρ} {i k : ι}

/-- No thread has made a step. -/
def start (v₀ : Option V) : StaticInit ι V L ρ := { value := v₀ }

def set (s : StaticInit ι V L ρ) (i : ι) (p : Phase L ρ) : StaticInit ι V L ρ :=
  { s with phase := Function.update s.phase i p }

@[simp] theorem set_guard (p : Phase L ρ) : (s.set i p).guard = s.guard := rfl
@[simp] theorem set_phase_self (p : Phase L ρ) : (s.set i p).phase i = p := Function.update_self ..
theorem set_phase_of_ne (p : Phase L ρ) (h : k ≠ i) : (s.set i p).phase k = s.phase k :=
  Function.update_of_ne h ..

/-- A step of the thread `i`, if it need not wait. -/
def step (jobs : ι → Job V L ρ) (s : StaticInit ι V L ρ) (i : ι) : Option (StaticInit ι V L ρ) :=
  match s.phase i with
  | .begun =>
    match (jobs i).before with
    | .ok l => some (s.set i (.arrived l))
    | .error r => some (s.set i (.ended r))
  | .arrived l =>
    if s.guard.isSome then none
    else if s.value.isSome then some (s.set i (.passed l))
    else some { s.set i (.initialising l) with guard := some i }
  | .initialising l =>
    match (jobs i).init l with
    | .ok (v, l) => some { s.set i (.passed l) with value := some v, guard := none }
    -- The static is not initialised
    | .error r => some { s.set i (.ended r) with guard := none }
  | .passed l => s.value.map fun v => s.set i (.ended ((jobs i).after v l))
  | .ended _ => none

/-- The thread `i`, if its step passes the declaration, or ends before it. -/
def settles (jobs : ι → Job V L ρ) (s : StaticInit ι V L ρ) (i : ι) : List ι :=
  match s.phase i with
  | .begun =>
    match (jobs i).before with
    | .ok _ => []
    | .error _ => [i]
  | .arrived _ => if s.value.isSome then [i] else []
  | .initialising _ => [i]
  | .passed _ => []
  | .ended _ => []

/-- The threads in the order in which the steps pass the declaration, or end
before it. -/
def order (jobs : ι → Job V L ρ) (s : StaticInit ι V L ρ) : List ι → List ι
  | [] => []
  | i :: as =>
    settles jobs s i ++
      match step jobs s i with
      | some t => order jobs t as
      | none => []

theorem order_cons {as : List ι} (h : step jobs s i = some t) :
    order jobs s (i :: as) = settles jobs s i ++ order jobs t as := by
  rw [order, h]

/-- The order is that of the steps. -/
theorem order_append {as : List ι} (h : run (step jobs) s as = some t) (bs : List ι) :
    order jobs s (as ++ bs) = order jobs s as ++ order jobs t bs := by
  induction as generalizing s with
  | nil =>
    cases h
    rfl
  | cons i as ih =>
    obtain ⟨u, hu, h⟩ := run_cons_eq_some.mp h
    rw [List.cons_append, order_cons hu, order_cons hu, ih h, List.append_assoc]

/-! ## What a step does -/

/-- The steps of the thread `i`, by what they settle and where they lead. -/
inductive Steps (jobs : ι → Job V L ρ) (s : StaticInit ι V L ρ) (i : ι) :
    List ι → StaticInit ι V L ρ → Prop
  | arrive {l : L} (hp : s.phase i = .begun) (hb : (jobs i).before = .ok l) :
    Steps jobs s i [] (s.set i (.arrived l))
  | stop {r : ρ} (hp : s.phase i = .begun) (hb : (jobs i).before = .error r) :
    Steps jobs s i [i] (s.set i (.ended r))
  | pass {l : L} {v : V} (hp : s.phase i = .arrived l) (hg : s.guard = none) (hv : s.value = some v) :
    Steps jobs s i [i] (s.set i (.passed l))
  | enter {l : L} (hp : s.phase i = .arrived l) (hg : s.guard = none) (hv : s.value = none) :
    Steps jobs s i [] { s.set i (.initialising l) with guard := some i }
  | init {l l' : L} {v : V} (hp : s.phase i = .initialising l) (hi : (jobs i).init l = .ok (v, l')) :
    Steps jobs s i [i] { s.set i (.passed l') with value := some v, guard := none }
  | throw {l : L} {r : ρ} (hp : s.phase i = .initialising l) (hi : (jobs i).init l = .error r) :
    Steps jobs s i [i] { s.set i (.ended r) with guard := none }
  | finish {l : L} {v : V} (hp : s.phase i = .passed l) (hv : s.value = some v) :
    Steps jobs s i [] (s.set i (.ended ((jobs i).after v l)))

theorem steps_of_step (h : step jobs s i = some t) : Steps jobs s i (settles jobs s i) t := by
  rw [step] at h
  rw [settles]
  cases hp : s.phase i with
  | begun =>
    rw [hp] at h
    cases hb : (jobs i).before with
    | ok l =>
      rw [hb] at h
      cases h
      exact .arrive hp hb
    | error r =>
      rw [hb] at h
      cases h
      exact .stop hp hb
  | arrived l =>
    simp only [hp] at h
    cases hg : s.guard with
    | some k => simp [hg] at h
    | none =>
      cases hv : s.value with
      | some v =>
        simp only [hg, hv, Option.isSome_none, Option.isSome_some, Bool.false_eq_true, ↓reduceIte,
          Option.some.injEq] at h
        exact h ▸ .pass hp hg hv
      | none =>
        simp only [hg, hv, Option.isSome_none, Bool.false_eq_true, ↓reduceIte,
          Option.some.injEq] at h
        exact h ▸ .enter hp hg hv
  | initialising l =>
    rw [hp] at h
    rcases hi : (jobs i).init l with r | ⟨v, l'⟩
    · simp only [hi, Option.some.injEq] at h
      exact h ▸ .throw hp hi
    · simp only [hi, Option.some.injEq] at h
      exact h ▸ .init hp hi
  | passed l =>
    rw [hp] at h
    obtain ⟨v, hv, rfl⟩ := Option.map_eq_some_iff.mp h
    exact .finish hp hv
  | ended r =>
    rw [hp] at h
    cases h

/-! ## One after another -/

/-- What is so of the thread `i` in a phase, once the threads of `order` are
settled; `v₀` is the value of the static at first. -/
def Fits (jobs : ι → Job V L ρ) (v₀ : Option V) (order : List ι) (s : StaticInit ι V L ρ) (i : ι) :
    Phase L ρ → Prop
  | .begun => i ∉ order
  | .arrived l => i ∉ order ∧ (jobs i).before = .ok l
  | .initialising l =>
    (i ∉ order ∧ (jobs i).before = .ok l) ∧ s.guard = some i ∧ s.value = none
  | .passed l => ∃ pre post v, order = pre ++ i :: post ∧
    (jobs i).pass (valueAfter jobs v₀ pre) = .ok (v, l) ∧ s.value = some v
  | .ended r => ∃ pre post, order = pre ++ i :: post ∧
    ((jobs i).alone (valueAfter jobs v₀ pre)).1 = r

/-- The threads of `order` are settled, and are so as if they had run alone, one
after another. -/
structure Serial (jobs : ι → Job V L ρ) (v₀ : Option V) (order : List ι)
    (s : StaticInit ι V L ρ) : Prop where
  nodup : order.Nodup
  value : s.value = valueAfter jobs v₀ order
  guard : ∀ i, s.guard = some i → ∃ l, s.phase i = .initialising l
  fits : ∀ i, Fits jobs v₀ order s i (s.phase i)

variable {v₀ : Option V} {o new : List ι}

omit [DecidableEq ι] in
theorem serial_start (jobs : ι → Job V L ρ) (v₀ : Option V) : Serial jobs v₀ [] (start v₀) where
  nodup := List.nodup_nil
  value := rfl
  guard _ h := by cases h
  fits _ := List.not_mem_nil

omit [DecidableEq ι] in
/-- What others do. -/
theorem Fits.mono {p : Phase L ρ} (h : Fits jobs v₀ o s k p) (hnew : k ∉ new)
    (hguard : s.guard = some k → t.guard = some k ∧ t.value = s.value)
    (hvalue : ∀ v, s.value = some v → t.value = some v) : Fits jobs v₀ (o ++ new) t k p := by
  have hmem (hk : k ∉ o) : k ∉ o ++ new := List.not_mem_append hk hnew
  cases p with
  | begun => exact hmem h
  | arrived l => exact ⟨hmem h.1, h.2⟩
  | initialising l =>
    obtain ⟨⟨hk, hb⟩, hg, hv⟩ := h
    obtain ⟨hg', hv'⟩ := hguard hg
    exact ⟨⟨hmem hk, hb⟩, hg', hv'.trans hv⟩
  | passed l =>
    obtain ⟨pre, post, v, rfl, hp, hv⟩ := h
    exact ⟨pre, post ++ new, v, by simp, hp, hvalue v hv⟩
  | ended r =>
    obtain ⟨pre, post, rfl, hr⟩ := h
    exact ⟨pre, post ++ new, by simp, hr⟩

/-- A step that puts the thread `i` in a phase that fits, and tells the others
nothing new. -/
theorem Serial.set {p : Phase L ρ} (h : Serial jobs v₀ o s) (hnew : new = [] ∨ new = [i] ∧ i ∉ o)
    (hphase : t.phase = (s.set i p).phase)
    (hfits : Fits jobs v₀ (o ++ new) t i p)
    (hvalue : t.value = valueAfter jobs v₀ (o ++ new))
    (hguard : ∀ k, k ≠ i → (t.guard = some k ↔ s.guard = some k))
    (hself : t.guard = some i → ∃ l, p = .initialising l)
    (hkept : t.value = s.value ∨ s.guard = some i ∧ s.value = none) : Serial jobs v₀ (o ++ new) t where
  nodup := by
    rcases hnew with rfl | ⟨rfl, hi⟩
    · rw [List.append_nil]
      exact h.nodup
    · refine List.nodup_append.mpr ⟨h.nodup, List.nodup_singleton i, fun a ha b hb hab => hi ?_⟩
      rwa [← List.mem_singleton.mp hb, ← hab]
  value := hvalue
  guard k hk := by
    rw [hphase]
    by_cases hki : k = i
    · subst hki
      rw [set_phase_self]
      exact hself hk
    · rw [set_phase_of_ne p hki]
      exact h.guard k ((hguard k hki).mp hk)
  fits k := by
    rw [hphase]
    by_cases hki : k = i
    · subst hki
      rw [set_phase_self]
      exact hfits
    · rw [set_phase_of_ne p hki]
      have hother : k ∉ new := by
        rcases hnew with rfl | ⟨rfl, -⟩
        · exact List.not_mem_nil
        · exact fun hk => hki (List.mem_singleton.mp hk)
      refine (h.fits k).mono hother (fun hk => ?_) fun v hv => ?_
      · refine ⟨(hguard k hki).mpr hk, hkept.resolve_right fun hi => hki ?_⟩
        exact Option.some.inj (hk.symm.trans hi.1)
      · rcases hkept with hkept | ⟨-, hnone⟩
        · rw [hkept, hv]
        · rw [hnone] at hv
          cases hv

omit [DecidableEq ι] in
/-- A thread of the order sets the value if it finds none at its place, and gives one. -/
theorem Serial.sets_iff (h : Serial jobs v₀ o s) {pre post : List ι} (ho : o = pre ++ i :: post) :
    Sets jobs v₀ o i ↔ valueAfter jobs v₀ pre = none ∧ ((jobs i).alone none).2 ≠ none := by
  constructor
  · rintro ⟨pre', post', ho', hpre', hi⟩
    have hmem := (List.nodup_cons.mp (List.nodup_middle.mp (ho ▸ h.nodup))).1
    obtain ⟨rfl, -, -⟩ := (List.append_cons_inj_of_notMem
      (fun hm => hmem (List.mem_append_left _ hm))
      (fun hm => hmem (List.mem_append_right _ hm))).mp (ho.symm.trans ho')
    exact ⟨hpre', hi⟩
  · rintro ⟨hpre, hi⟩
    exact ⟨pre, post, ho, hpre, hi⟩

omit [DecidableEq ι] in
/-- Only the thread in the initialiser holds the guard. -/
theorem Serial.guard_ne (h : Serial jobs v₀ o s) (hp : ∀ l, s.phase i ≠ .initialising l) :
    s.guard ≠ some i := fun hg =>
  have ⟨l, hl⟩ := h.guard i hg
  hp l hl

theorem Serial.after_step (h : Serial jobs v₀ o s) (hs : Steps jobs s i new t) :
    Serial jobs v₀ (o ++ new) t := by
  have hfits := h.fits i
  have hval := h.value
  cases hs with
  | @arrive l hp hb =>
    rw [hp] at hfits
    refine h.set (i := i) (p := .arrived l) (.inl rfl) rfl ?_ ?_ (fun _ _ => Iff.rfl)
      (fun hg => absurd hg (h.guard_ne (by simp [hp]))) (.inl rfl)
    · exact ⟨by rwa [List.append_nil], hb⟩
    · rw [List.append_nil]
      exact hval
  | @stop r hp hb =>
    rw [hp] at hfits
    have halone := Job.alone_of_error (Job.pass_of_error hb (valueAfter jobs v₀ o))
    refine h.set (i := i) (p := .ended r) (.inr ⟨rfl, hfits⟩) rfl ?_ ?_ (fun _ _ => Iff.rfl)
      (fun hg => absurd hg (h.guard_ne (by simp [hp]))) (.inl rfl)
    · exact ⟨o, [], rfl, by rw [halone]⟩
    · rw [valueAfter_concat, halone]
      exact hval
  | @pass l v hp hg hv =>
    rw [hp] at hfits
    rw [hv] at hval
    refine h.set (i := i) (p := .passed l) (.inr ⟨rfl, hfits.1⟩) rfl ?_ ?_ (fun _ _ => Iff.rfl)
      (fun hi => absurd hi (by simp [hg])) (.inl rfl)
    · exact ⟨o, [], v, rfl, by rw [← hval, Job.pass_some hfits.2], hv⟩
    · rw [valueAfter_concat, ← hval, Job.alone_some]
      exact hv
  | @enter l hp hg hv =>
    rw [hp] at hfits
    refine h.set (i := i) (p := .initialising l) (.inl rfl) rfl ?_ ?_ (fun k hk => ?_)
      (fun _ => ⟨l, rfl⟩) (.inl rfl)
    · exact ⟨by rwa [List.append_nil], rfl, hv⟩
    · rw [List.append_nil]
      exact hval
    · simp [hg, Ne.symm hk]
  | @init l l' v hp hi =>
    rw [hp] at hfits
    obtain ⟨⟨hmem, hb⟩, hg, hv⟩ := hfits
    have hpass : (jobs i).pass (valueAfter jobs v₀ o) = .ok (v, l') := by
      rw [← hval, hv, Job.pass_none hb, hi]
    refine h.set (i := i) (p := .passed l') (.inr ⟨rfl, hmem⟩) rfl ?_ ?_ (fun k hk => ?_) nofun
      (.inr ⟨hg, hv⟩)
    · exact ⟨o, [], v, rfl, hpass, rfl⟩
    · rw [valueAfter_concat, Job.alone_of_ok hpass]
    · simp [hg, Ne.symm hk]
  | @throw l r hp hi =>
    rw [hp] at hfits
    obtain ⟨⟨hmem, hb⟩, hg, hv⟩ := hfits
    have halone : (jobs i).alone (valueAfter jobs v₀ o) = (r, s.value) := by
      rw [← hval, hv, Job.alone_of_error (by rw [Job.pass_none hb, hi])]
    refine h.set (i := i) (p := .ended r) (.inr ⟨rfl, hmem⟩) rfl ?_ ?_ (fun k hk => ?_) nofun (.inl rfl)
    · exact ⟨o, [], rfl, by rw [halone]⟩
    · rw [valueAfter_concat, halone]
      rfl
    · simp [hg, Ne.symm hk]
  | @finish l v hp hv =>
    rw [hp] at hfits
    obtain ⟨pre, post, w, hw, hpass, hvw⟩ := hfits
    obtain rfl : v = w := Option.some.inj (hv.symm.trans hvw)
    refine h.set (i := i) (p := .ended ((jobs i).after v l)) (.inl rfl) rfl ?_ ?_
      (fun _ _ => Iff.rfl) (fun hg => absurd hg (h.guard_ne (by simp [hp]))) (.inl rfl)
    · exact ⟨pre, post, by rw [List.append_nil, hw], by rw [Job.alone_of_ok hpass]⟩
    · rw [List.append_nil]
      exact hval

theorem Serial.after_run {as : List ι} (h : Serial jobs v₀ o s) (hrun : run (step jobs) s as = some t) :
    Serial jobs v₀ (o ++ order jobs s as) t := by
  induction as generalizing o s with
  | nil =>
    cases hrun
    rw [order, List.append_nil]
    exact h
  | cons i as ih =>
    obtain ⟨u, hu, hrun⟩ := run_cons_eq_some.mp hrun
    have ih := ih (h.after_step (steps_of_step hu)) hrun
    rwa [List.append_assoc, ← order_cons hu] at ih

/-- A run behaves as its threads one after another. -/
theorem Serial.of_run {as : List ι} (hrun : run (step jobs) (start v₀) as = some t) :
    Serial jobs v₀ (order jobs (start v₀) as) t :=
  (serial_start jobs v₀).after_run hrun

/-- The order is that of time: who has ended comes before who has not begun. -/
theorem idxOf_order_lt {as bs : List ι} {r : ρ}
    (hrun : run (step jobs) (start v₀) as = some t)
    (hi : t.phase i = .ended r) (hk : t.phase k = .begun) :
    (order jobs (start v₀) (as ++ bs)).idxOf i <
      (order jobs (start v₀) (as ++ bs)).idxOf k := by
  have h := Serial.of_run hrun
  have hfi := h.fits i
  have hfk := h.fits k
  rw [hi] at hfi
  rw [hk] at hfk
  obtain ⟨pre, post, ho, -⟩ := hfi
  have hmem : i ∈ order jobs (start v₀) as := by simp [ho]
  have hlt := List.idxOf_lt_length_of_mem hmem
  rw [order_append hrun, List.idxOf_append, if_pos hmem, List.idxOf_append, if_neg hfk]
  omega

/-! ## Waiting -/

/-- How many steps a thread has before it. -/
def stepsLeft : Phase L ρ → Nat
  | .begun => 4
  | .arrived _ => 3
  | .initialising _ => 2
  | .passed _ => 1
  | .ended _ => 0

theorem Steps.lt (h : Steps jobs s i new t) : stepsLeft (t.phase i) < stepsLeft (s.phase i) := by
  cases h <;> simp [*, stepsLeft, StaticInit.set]

theorem Steps.of_ne (h : Steps jobs s i new t) (hk : k ≠ i) : t.phase k = s.phase k := by
  cases h <;> exact set_phase_of_ne _ hk

/-- A run takes no more steps than its threads have before them. -/
theorem length_le [Fintype ι] {as : List ι} (hrun : run (step jobs) s as = some t) :
    as.length + ∑ k, stepsLeft (t.phase k) ≤ ∑ k, stepsLeft (s.phase k) := by
  induction as generalizing s with
  | nil =>
    cases hrun
    rw [List.length_nil, Nat.zero_add]
  | cons i as ih =>
    obtain ⟨u, hu, hrun⟩ := run_cons_eq_some.mp hrun
    have hsteps := steps_of_step hu
    have hlt : ∑ k, stepsLeft (u.phase k) < ∑ k, stepsLeft (s.phase k) := by
      refine Finset.sum_lt_sum (fun k _ => ?_) ⟨i, Finset.mem_univ i, hsteps.lt⟩
      by_cases hk : k = i
      · exact hk ▸ hsteps.lt.le
      · rw [hsteps.of_ne hk]
    have ih := ih hrun
    rw [List.length_cons]
    omega

/-- The thread `i` comes, by steps of its own, to end with `r`, and leaves `v`. -/
def EndsWith (jobs : ι → Job V L ρ) (s : StaticInit ι V L ρ) (i : ι) (r : ρ) (v : Option V) : Prop :=
  ∃ n t, run (step jobs) s (List.replicate n i) = some t ∧ t.guard = none ∧
    t.phase i = .ended r ∧ t.value = v

theorem EndsWith.of_step {r : ρ} {v : Option V} (hs : step jobs s i = some t)
    (h : EndsWith jobs t i r v) : EndsWith jobs s i r v := by
  obtain ⟨n, u, hrun, h⟩ := h
  exact ⟨n + 1, u, run_cons_eq_some.mpr ⟨t, hs, hrun⟩, h⟩

theorem endsWith_passed {l : L} {v : V} (hp : s.phase i = .passed l) (hg : s.guard = none)
    (hv : s.value = some v) : EndsWith jobs s i ((jobs i).after v l) (some v) := by
  have hs : step jobs s i = some (s.set i (.ended ((jobs i).after v l))) := by
    rw [step, hp, hv]
    rfl
  exact .of_step hs ⟨0, _, rfl, hg, set_phase_self _, hv⟩

theorem endsWith_initialising {l : L} (hb : (jobs i).before = .ok l)
    (hp : s.phase i = .initialising l) (hv : s.value = none) :
    EndsWith jobs s i ((jobs i).alone none).1 ((jobs i).alone none).2 := by
  rcases hi : (jobs i).init l with r | ⟨v, l'⟩
  · have hs : step jobs s i = some { s.set i (.ended r) with guard := none } := by
      simp only [step, hp, hi]
    rw [Job.alone_of_error ((Job.pass_none hb).trans hi)]
    exact .of_step hs ⟨0, _, rfl, rfl, set_phase_self _, hv⟩
  · have hs : step jobs s i =
        some { s.set i (.passed l') with value := some v, guard := none } := by
      simp only [step, hp, hi]
    rw [Job.alone_of_ok ((Job.pass_none hb).trans hi)]
    exact .of_step hs (endsWith_passed (set_phase_self _) rfl rfl)

theorem endsWith_arrived {l : L} (hb : (jobs i).before = .ok l) (hp : s.phase i = .arrived l)
    (hg : s.guard = none) : EndsWith jobs s i ((jobs i).alone s.value).1 ((jobs i).alone s.value).2 := by
  cases hv : s.value with
  | some v =>
    have hs : step jobs s i = some (s.set i (.passed l)) := by simp [step, hp, hg, hv]
    rw [Job.alone_of_ok (Job.pass_some hb v)]
    exact .of_step hs (endsWith_passed (set_phase_self _) hg hv)
  | none =>
    have hs : step jobs s i = some { s.set i (.initialising l) with guard := some i } := by
      simp [step, hp, hg, hv]
    exact .of_step hs (endsWith_initialising hb (set_phase_self _) hv)

/-- A thread that no other one is before in the initialiser ends as it does alone. -/
theorem endsWith_alone (hp : s.phase i = .begun) (hg : s.guard = none) :
    EndsWith jobs s i ((jobs i).alone s.value).1 ((jobs i).alone s.value).2 := by
  cases hb : (jobs i).before with
  | error r =>
    have hs : step jobs s i = some (s.set i (.ended r)) := by simp only [step, hp, hb]
    rw [Job.alone_of_error (Job.pass_of_error hb s.value)]
    exact .of_step hs ⟨0, _, rfl, hg, set_phase_self _, rfl⟩
  | ok l =>
    have hs : step jobs s i = some (s.set i (.arrived l)) := by simp only [step, hp, hb]
    exact .of_step hs (endsWith_arrived hb (set_phase_self _) hg)

/-- Where no thread has a step, all have ended. -/
theorem Serial.ended_of_stuck (h : Serial jobs v₀ o s) (hstuck : ∀ i, step jobs s i = none) (i : ι) :
    ∃ r, s.phase i = .ended r := by
  have hguard : s.guard = none := by
    -- The thread in the initialiser has a step.
    by_contra hg
    obtain ⟨k, hk⟩ := Option.ne_none_iff_exists'.mp hg
    obtain ⟨l, hl⟩ := h.guard k hk
    have hno := hstuck k
    rw [step, hl] at hno
    rcases hi : (jobs k).init l with r | ⟨v, l'⟩ <;> simp [hi] at hno
  have hfits := h.fits i
  have hno := hstuck i
  rw [step] at hno
  cases hp : s.phase i with
  | begun => cases hb : (jobs i).before <;> simp [hp, hb] at hno
  | arrived l => cases hv : s.value <;> simp [hp, hguard, hv] at hno
  | initialising l =>
    rw [hp] at hfits
    rw [hfits.2.1] at hguard
    cases hguard
  | passed l =>
    rw [hp] at hfits
    obtain ⟨-, -, v, -, -, hv⟩ := hfits
    simp [hp, hv] at hno
  | ended r => exact ⟨r, rfl⟩

end StaticInit

end RTM
