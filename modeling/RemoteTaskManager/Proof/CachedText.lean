import RemoteTaskManager.Framework.Objects
import RemoteTaskManager.Impl.ColumnItems
import RemoteTaskManager.Proof.ColumnItems
import RemoteTaskManager.Proof.MemoryText

/-!
# The cached text of an item

`Memory` and `Integer<T>` keep a value and its text as two members. The
constructor of a value and the assignment of one set both, and a copy copies
both, but a default constructed item has the value 0 and no text: an object
shows its value if and only if it was given one, directly or through copies
(`cached_text_iff`).
-/

namespace RTM.Proof.CachedText

open RTM.Impl RTM.Proof.ColumnItems RTM.Proof.MemoryText

/-- A class of items that keep their text: `text` is what `to_string` gives,
`render` the text of the value that the item has. -/
structure CachedClass (α : Type) extends ObjectClass α (BitVec 64) where
  text : α → WString
  render : α → WString
  compare : α → α → Int
  text_construct : ∀ v, text (construct v) = render (construct v)
  text_default : text default = []
  render_ne_nil : ∀ a, render a ≠ []
  render_congr : ∀ a b, compare a b = 0 → render a = render b

section

variable {α : Type} {K : CachedClass α} {ops : List (ObjectOp (BitVec 64))} {s : Nat → Option α}

/-- After a run of `ops`, an object shows its value if and only if it was given
one, and objects that compare equal show the same text if and only if both were
or none was. -/
def TextsKept (K : CachedClass α) (ops : List (ObjectOp (BitVec 64))) : Prop :=
  ∀ s, run K.step (fun _ => none) ops = some s →
    (∀ x a, s x = some a → (K.text a = K.render a ↔ given ops x ≠ none)) ∧
    ∀ x y a b, s x = some a → s y = some b → K.compare a b = 0 →
      (K.text a = K.text b ↔ (given ops x = none ↔ given ops y = none))

theorem text_of_given (o : Option (BitVec 64)) (h : o ≠ none) :
    K.text (K.made o) = K.render (K.made o) := by
  obtain ⟨v, rfl⟩ := Option.ne_none_iff_exists'.mp h
  exact K.text_construct v

/-- Without a value there is no text. -/
theorem text_eq_nil_iff (o : Option (BitVec 64)) : K.text (K.made o) = [] ↔ o = none := by
  constructor
  · intro h
    by_contra ho
    rw [text_of_given o ho] at h
    exact K.render_ne_nil _ h
  · rintro rfl
    exact K.text_default

theorem text_eq_render_iff (o : Option (BitVec 64)) :
    K.text (K.made o) = K.render (K.made o) ↔ o ≠ none := by
  refine ⟨fun h ho => ?_, text_of_given o⟩
  rw [(text_eq_nil_iff o).mpr ho] at h
  exact K.render_ne_nil _ h.symm

theorem textsKept (K : CachedClass α) (ops : List (ObjectOp (BitVec 64))) : TextsKept K ops := by
  intro s h
  refine ⟨fun x a hx => ?_, fun x y a b hx hy hc => ?_⟩
  · rw [run_made h hx]
    exact text_eq_render_iff _
  · have ha := run_made h hx
    have hb := run_made h hy
    rw [ha, hb] at hc ⊢
    constructor
    · intro e
      rw [← text_eq_nil_iff (K := K), ← text_eq_nil_iff (K := K), e]
    · intro e
      by_cases hn : given ops x = none
      · rw [(text_eq_nil_iff _).mpr hn, (text_eq_nil_iff _).mpr (e.mp hn)]
      · rw [text_of_given _ hn, text_of_given _ (fun hy => hn (e.mpr hy))]
        exact K.render_congr _ _ hc

end

/-! ## The classes -/

theorem compareValues_eq_zero {a b : Int} : compareValues a b = 0 ↔ a = b := by
  unfold compareValues
  split
  · omega
  · split <;> omega

theorem memoryValueToWstring_ne_nil (v : BitVec 64) : memoryValueToWstring v ≠ [] := by
  intro h
  have hread := readSize_memoryValueToWstring v
  rw [h] at hread
  cases hread

theorem toWstring_ne_nil (n : Int) : SignedIntegerItem.toWstring n ≠ [] := by
  unfold SignedIntegerItem.toWstring
  split
  · exact List.append_ne_nil_of_left_ne_nil (by decide) _
  · exact decimal_ne_nil _

/-- `Memory`. -/
def memory : CachedClass MemoryItem where
  default := {}
  construct := .ofUInt64
  assign := .assign
  assign_eq _ _ := rfl
  text x := (ColumnItem.memory x).toString
  render x := memoryValueToWstring x.value
  compare := MemoryItem.compare
  text_construct _ := rfl
  text_default := rfl
  render_ne_nil _ := memoryValueToWstring_ne_nil _
  render_congr _ _ h := by
    rw [BitVec.eq_of_toNat_eq (Int.ofNat_inj.mp (compareValues_eq_zero.mp h))]

/-- `Integer<T>`, for an unsigned `T` of `w` bits. -/
def integer (w : Nat) : CachedClass (IntegerItem w) where
  default := {}
  construct := .ofUInt64
  assign := .assign
  assign_eq _ _ := rfl
  text x := (ColumnItem.integer w x).toString
  render x := decimal x.value.toNat
  compare := IntegerItem.compare
  text_construct _ := rfl
  text_default := rfl
  render_ne_nil _ := decimal_ne_nil _
  render_congr _ _ h := by
    rw [Int.ofNat_inj.mp (compareValues_eq_zero.mp h)]

/-- `Integer<T>`, for a signed `T` of `w` bits. -/
def signedInteger (w : Nat) : CachedClass (SignedIntegerItem w) where
  default := {}
  construct := .ofUInt64
  assign := .assign
  assign_eq _ _ := rfl
  text x := x.strValue
  render x := SignedIntegerItem.toWstring x.value.toInt
  compare := SignedIntegerItem.compare
  text_construct _ := rfl
  text_default := rfl
  render_ne_nil _ := toWstring_ne_nil _
  render_congr _ _ h := by
    rw [compareValues_eq_zero.mp h]

/-- After every run, the items of each class show their values exactly as far as
they were given any. -/
theorem cached_text_iff (w : Nat) (ops : List (ObjectOp (BitVec 64))) :
    TextsKept memory ops ∧ TextsKept (integer w) ops ∧ TextsKept (signedInteger w) ops :=
  ⟨textsKept memory ops, textsKept (integer w) ops, textsKept (signedInteger w) ops⟩

/-- A default constructed item and one of the value 0 compare equal, and show
different texts. -/
theorem default_shows_nothing :
    (∃ s x y, run memory.step (fun _ => none) [.default 0, .construct 1 0] = some s ∧
      s 0 = some x ∧ s 1 = some y ∧ x.compare y = 0 ∧ (ColumnItem.memory x).toString = [] ∧
      memoryValueToWstring x.value = wide "0B" ∧ (ColumnItem.memory y).toString = wide "0B") ∧
    ∃ s x y, run (integer 32).step (fun _ => none) [.default 0, .construct 1 0] = some s ∧
      s 0 = some x ∧ s 1 = some y ∧ x.compare y = 0 ∧ (ColumnItem.integer 32 x).toString = [] ∧
      decimal x.value.toNat = wide "0" ∧ (ColumnItem.integer 32 y).toString = wide "0" :=
  ⟨⟨_, {}, .ofUInt64 0, rfl, rfl, rfl, by decide, rfl, by decide, by decide⟩,
    ⟨_, {}, .ofUInt64 0, rfl, rfl, rfl, by decide, rfl, by decide, by decide⟩⟩

end RTM.Proof.CachedText
