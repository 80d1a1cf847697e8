import RemoteTaskManager.Framework.StableSort
import RemoteTaskManager.Impl.WmiProcessTable

/-!
# Rows in order

What the sorting of a table is for, said without the code's comparators: every
column that is not text has a key (`key`), rows are in order of a column and a
direction (`InOrder`), and a sort gives the same rows, in order, those of one
key as they were (`SortedFrom`).
-/

namespace RTM.Spec

open RTM.Impl

/-- Whether a column is text (`String`). -/
def isText : ColumnNumber → Bool
  | .Name | .Handle | .CommandLine => true
  | _ => false

/-- The number a column that is not text is ordered by. -/
def key (c : ColumnNumber) (r : WmiProcess) : Int :=
  match r.item c with
  | .memory x => x.value.toNat
  | .date x => x.value.m_time
  | .integer _ x => x.value.toNat
  | .string _ => 0

/-- The text of a record in a column. -/
def text (c : ColumnNumber) (r : WmiProcess) : WString := (r.item c).toString

/-- The rows are in order of the column, upwards for `Ascending` and downwards
for the other values of `SortOrder`, which the code sorts alike. -/
def InOrder (c : ColumnNumber) (o : SortOrder) (rows : List WmiProcess) : Prop :=
  rows.Pairwise fun a b => if o = .Ascending then key c a ≤ key c b else key c b ≤ key c a

/-- `rows` are the rows of `source`, in order, those of one key as they were. -/
structure SortedFrom (c : ColumnNumber) (o : SortOrder) (source rows : List WmiProcess) : Prop where
  perm : rows.Perm source
  order : InOrder c o rows
  ties : ∀ k, (rows.filter fun r => key c r = k) = source.filter fun r => key c r = k

/-- The column of an index that is not text. -/
def Sortable (col : BitVec 32) : Prop := ∃ c, isText c = false ∧ col = ColumnNumber.toInt c

/-- The rows are in the order a table records. -/
def Ordered (so : Sorted) (rows : List WmiProcess) : Prop :=
  ∃ c, isText c = false ∧ so.column = ColumnNumber.toInt c ∧ InOrder c so.sortOrder rows

theorem mem_all (c : ColumnNumber) : c ∈ ColumnNumber.all := by
  cases c <;> decide

instance (c : ColumnNumber) (o : SortOrder) (rows : List WmiProcess) :
    Decidable (InOrder c o rows) :=
  inferInstanceAs (Decidable (rows.Pairwise _))

instance (col : BitVec 32) : Decidable (Sortable col) :=
  decidable_of_iff (∃ c ∈ ColumnNumber.all, isText c = false ∧ col = c.toInt)
    ⟨fun ⟨c, _, h⟩ => ⟨c, h⟩, fun ⟨c, h⟩ => ⟨c, mem_all c, h⟩⟩

instance (so : Sorted) (rows : List WmiProcess) : Decidable (Ordered so rows) :=
  decidable_of_iff
    (∃ c ∈ ColumnNumber.all, isText c = false ∧ so.column = c.toInt ∧ InOrder c so.sortOrder rows)
    ⟨fun ⟨c, _, h⟩ => ⟨c, h⟩, fun ⟨c, h⟩ => ⟨c, mem_all c, h⟩⟩

/-- Whether `a` comes before `b`. -/
def before (c : ColumnNumber) (o : SortOrder) (a b : WmiProcess) : Bool :=
  if o = .Ascending then key c a < key c b else key c b < key c a

theorem before_weak (c : ColumnNumber) (o : SortOrder) (s : WmiProcess → Prop) :
    StrictWeakOn (before c o) s := by
  by_cases h : o = .Ascending
  · have e : before c o = fun a b => decide (key c a < key c b) := by
      funext a b
      rw [before, if_pos h]
    rw [e]
    exact StrictWeakOn.of_key (key c)
  · have e : before c o = fun a b => decide (-key c a < -key c b) := by
      funext a b
      rw [before, if_neg h]
      simp only [Int.neg_lt_neg_iff]
    rw [e]
    exact StrictWeakOn.of_key fun r => -key c r

theorem tied_before (c : ColumnNumber) (o : SortOrder) (a b : WmiProcess) :
    tied (before c o) a b = decide (key c b = key c a) := by
  rw [Bool.eq_iff_iff, tied_iff]
  unfold before
  split <;> simp only [decide_eq_false_iff_not, decide_eq_true_eq] <;> omega

theorem inOrder_iff {c : ColumnNumber} {o : SortOrder} {rows : List WmiProcess} :
    InOrder c o rows ↔ rows.Pairwise fun a b => before c o b a = false := by
  unfold InOrder before
  by_cases h : o = .Ascending
  · simp only [h, ↓reduceIte, decide_eq_false_iff_not, Int.not_lt]
  · simp only [h, ↓reduceIte, decide_eq_false_iff_not, Int.not_lt]

/-- A stable sort by the code's comparator is a sort by the key. -/
theorem SortedFrom.of_isStableSort {c : ColumnNumber} {o : SortOrder} {source rows : List WmiProcess}
    (h : IsStableSort (before c o) source rows) : SortedFrom c o source rows := by
  refine ⟨h.perm, inOrder_iff.mpr h.sorted, fun k => ?_⟩
  by_cases hk : ∃ a ∈ source, key c a = k
  · obtain ⟨a, ha, rfl⟩ := hk
    have e : tied (before c o) a = fun r => decide (key c r = key c a) :=
      funext (tied_before c o a)
    have := h.stable a ha
    rwa [e] at this
  · have none : ∀ l : List WmiProcess, (∀ r ∈ l, r ∈ source) →
        (l.filter fun r => key c r = k) = [] := fun l hl =>
      List.filter_eq_nil_iff.mpr fun r hr he => hk ⟨r, hl r hr, by simpa using he⟩
    rw [none rows fun r hr => h.perm.mem_iff.mp hr, none source fun _ hr => hr]

/-- The rows sorted by the key are those of a stable sort by the comparator. -/
theorem SortedFrom.isStableSort {c : ColumnNumber} {o : SortOrder} {source rows : List WmiProcess}
    (h : SortedFrom c o source rows) : IsStableSort (before c o) source rows := by
  refine ⟨h.perm, inOrder_iff.mp h.order, fun a _ => ?_⟩
  rw [show tied (before c o) a = fun r => decide (key c r = key c a) from funext (tied_before c o a)]
  exact h.ties (key c a)

end RTM.Spec
