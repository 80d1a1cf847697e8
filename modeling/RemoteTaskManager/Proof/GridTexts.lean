import RemoteTaskManager.Proof.Columns
import RemoteTaskManager.Proof.MemorySize
import RemoteTaskManager.Proof.Program
import RemoteTaskManager.Proof.RightClick

/-!
# What a grid reads

An item keeps its value and its text apart, and one that was given no value
shows none. But a record that the program has was decoded, which gives every
item of it a value (`rendered_of_decoded`); so a grid shows what it is sorted by.
Rows of one key show one text, and the numbers and sizes of a column in order
read in order (`grid_reads`).
-/

namespace RTM.Proof.GridTexts

open RTM.Impl RTM.Spec RTM.Proof.Columns RTM.Proof.MemoryText RTM.Proof.MemorySize
open RTM.Proof.Program RTM.Proof.RightClick
open RTM.Proof.Win32Process (decode_item)
open RTM.Impl.Program (step)

/-! ## Items -/

/-- The item shows the value that it has. -/
def Rendered (P : Platform) : ColumnItem → Prop
  | .memory x => x.strValue = memoryValueToWstring x.value
  | .date x => x.strValue = P.format x.value (wide "%Y-%m-%d %H:%M")
  | .integer _ x => x.strValue = decimal x.value.toNat
  | .string _ => True

/-- The columns of sizes, and those of numbers. -/
def isSize : ColumnNumber → Bool
  | .PageFileUsage | .PeakPageFileUsage | .WorkingSetSize | .PeakWorkingSetSize
  | .ReadTransferCount | .WriteTransferCount => true
  | _ => false

def isCount : ColumnNumber → Bool
  | .ProcessId | .ParentProcessId | .SessionId | .ThreadCount | .PageFaults => true
  | _ => false

/-- The number that a cell of a column says. -/
def reading (c : ColumnNumber) (s : WString) : Option ℚ :=
  if isSize c then (readSize s).map Size.value else readNumeral s

/-- The number that is shown for a key. -/
def shownKey (c : ColumnNumber) (k : Int) : ℚ :=
  if isSize c then (shownBytes (round53 k.toNat) : ℚ) / 100 else k

section

variable {P : Platform} {r r' : WmiProcess} {c : ColumnNumber}

theorem rendered_of_decoded (h : Decoded P r) (c : ColumnNumber) : Rendered P (r.item c) := by
  obtain ⟨obj, h⟩ := h
  have hd := decode_item h c
  cases c <;> obtain ⟨v, -, hv⟩ := Outcome.bind_eq_ok.mp hd <;> rw [← Outcome.ok.inj hv] <;>
    first | rfl | trivial

/-- The key of a column determines its text. -/
theorem text_congr (hc : isText c = false) (hr : Rendered P (r.item c))
    (hr' : Rendered P (r'.item c)) (hk : key c r = key c r') : text c r = text c r' := by
  unfold text
  unfold key at hk
  have sizes {x y : MemoryItem} (hx : Rendered P (.memory x)) (hy : Rendered P (.memory y))
      (h : (x.value.toNat : Int) = y.value.toNat) : x.strValue = y.strValue := by
    rw [show x.strValue = _ from hx, show y.strValue = _ from hy,
      BitVec.eq_of_toNat_eq (Int.ofNat_inj.mp h)]
  have counts {x y : IntegerItem 32} (hx : Rendered P (.integer 32 x))
      (hy : Rendered P (.integer 32 y)) (h : (x.value.toNat : Int) = y.value.toNat) :
      x.strValue = y.strValue := by
    rw [show x.strValue = _ from hx, show y.strValue = _ from hy, Int.ofNat_inj.mp h]
  have dates {x y : DateItem} (hx : Rendered P (.date x)) (hy : Rendered P (.date y))
      (h : x.value.m_time = y.value.m_time) : x.strValue = y.strValue := by
    rw [show x.strValue = _ from hx, show y.strValue = _ from hy,
      show x.value = y.value from congrArg DateTime.mk h]
  cases c
  case Name | Handle | CommandLine => cases hc
  case CreationDate => exact dates hr hr' hk
  case ProcessId | ParentProcessId | SessionId | ThreadCount | PageFaults => exact counts hr hr' hk
  all_goals exact sizes hr hr' hk

theorem reading_text (hc : isSize c = true ∨ isCount c = true) (hr : Rendered P (r.item c)) :
    reading c (text c r) = some (shownKey c (key c r)) := by
  have sizes {x : MemoryItem} (hx : Rendered P (.memory x)) :
      (readSize x.strValue).map Size.value =
        some ((shownBytes (round53 (x.value.toNat : Int).toNat) : ℚ) / 100) := by
    rw [show x.strValue = _ from hx, readSize_memoryValueToWstring, Option.map_some,
      value_shownSize, Int.toNat_natCast]
  have counts {x : IntegerItem 32} (hx : Rendered P (.integer 32 x)) :
      readNumeral x.strValue = some ((x.value.toNat : Int) : ℚ) := by
    rw [show x.strValue = _ from hx, readNumeral_decimal, Int.cast_natCast]
  cases c
  case Name | Handle | CommandLine | CreationDate => rcases hc with hc | hc <;> cases hc
  case ProcessId | ParentProcessId | SessionId | ThreadCount | PageFaults => exact counts hr
  all_goals exact sizes hr

/-- A greater key does not show less. -/
theorem shownKey_mono (c : ColumnNumber) {k k' : Int} (h : k ≤ k') : shownKey c k ≤ shownKey c k' := by
  unfold shownKey
  split
  · have hle := shownBytes_mono (round53_mono (Int.toNat_le_toNat h))
    have hle' : (shownBytes (round53 k.toNat) : ℚ) ≤ shownBytes (round53 k'.toNat) := by
      exact_mod_cast hle
    linarith
  · exact_mod_cast h

end

/-! ## The grid -/

/-- A cell of the grid, read as a number. -/
def Reads (t : WmiProcessTable) (c : ColumnNumber) (row : BitVec 32) (x : ℚ) : Prop :=
  ∃ s, t.getValue row c.toInt = .ok s ∧ reading c s = some x

/-- The cells of a column are in order, read as numbers. -/
def ReadsInOrder (t : WmiProcessTable) (c : ColumnNumber) (o : SortOrder) : Prop :=
  ∀ i j, InRows t i → InRows t j → i.toNat < j.toNat → ∃ x y, Reads t c i x ∧ Reads t c j y ∧
    if o = .Ascending then x ≤ y else y ≤ x

section

variable {P : Platform} {t : WmiProcessTable} {rows : List WmiProcess} {c : ColumnNumber}
  {o : SortOrder} {row : BitVec 32}

/-- A cell shows the key of the record in its row. -/
theorem reads_of_rendered (hd : t.mData = some rows) (hr : ∀ r ∈ rows, ∀ c, Rendered P (r.item c))
    (hc : isSize c = true ∨ isCount c = true) (h : InRows t row) :
    ∃ r, rows[row.toNat]? = some r ∧ Reads t c row (shownKey c (key c r)) := by
  obtain ⟨r, hrow, hrow'⟩ := h.record hd
  have hm := List.mem_of_getElem? hrow
  exact ⟨r, hrow, text c r, getValue_of_record hd hrow' c, reading_text hc (hr r hm c)⟩

/-- Rows in order read in order. -/
theorem readsInOrder_of_inOrder (hd : t.mData = some rows)
    (hr : ∀ r ∈ rows, ∀ c, Rendered P (r.item c)) (hc : isSize c = true ∨ isCount c = true)
    (h : InOrder c o rows) : ReadsInOrder t c o := by
  intro i j hi hj hij
  obtain ⟨r, hri, hx⟩ := reads_of_rendered hd hr hc hi
  obtain ⟨r', hrj, hy⟩ := reads_of_rendered hd hr hc hj
  refine ⟨_, _, hx, hy, ?_⟩
  obtain ⟨hilt, rfl⟩ := List.getElem?_eq_some_iff.mp hri
  obtain ⟨hjlt, rfl⟩ := List.getElem?_eq_some_iff.mp hrj
  have hkeys := List.pairwise_iff_getElem.mp h _ _ hilt hjlt hij
  split
  · rename_i ho
    rw [if_pos ho] at hkeys
    exact shownKey_mono c hkeys
  · rename_i ho
    rw [if_neg ho] at hkeys
    exact shownKey_mono c hkeys

end

/-- In every run of the program, on every page: rows of one key in a column show
one text there, and a column of numbers or sizes whose rows are in order is in
order as its cells read. -/
theorem grid_reads {P : Platform} {acts : List ProgramAct} {s : Program}
    (h : run (step P) {} acts = some s) :
    ∀ p ∈ s.frame.mNotebook, ∀ rows, p.page.table.mData = some rows → ∀ c, isText c = false →
      (∀ r ∈ rows, ∀ r' ∈ rows, key c r = key c r' → text c r = text c r') ∧
      ∀ o, c ≠ .CreationDate → InOrder c o rows → ReadsInOrder p.page.table c o := by
  intro p hp rows hd c hc
  have hheld : Holds (Decoded P) p.page :=
    pages_run (P := P) (I := Holds (Decoded P)) (fun hrows => holds_ofTable hrows) holds_step h p hp
  have hr : ∀ r ∈ rows, ∀ c, Rendered P (r.item c) := by
    intro r hr
    refine rendered_of_decoded (holds_rows hheld r ?_)
    rw [show p.page.rows = some rows from hd]
    exact hr
  refine ⟨fun r hm r' hm' hk => text_congr hc (hr r hm c) (hr r' hm' c) hk, fun o hdate ho => ?_⟩
  refine readsInOrder_of_inOrder hd hr ?_ ho
  cases c
  case Name | Handle | CommandLine => cases hc
  case CreationDate => exact absurd rfl hdate
  case ProcessId | ParentProcessId | SessionId | ThreadCount | PageFaults => exact .inr rfl
  all_goals exact .inl rfl

/-- A process of the given working set. -/
def working (bytes : BitVec 32) : ClassObject :=
  Win32Process.ofColumns fun
    | .CreationDate => .VT_BSTR (some (wide "20240101120000.000000+000"))
    | .WorkingSetSize => .VT_I4 bytes
    | _ => .VT_NULL

/-- Two processes are listed, and sorted on their working sets, downwards. -/
def sizesClicked : List ProgramAct :=
  [.addPage (wide "near") (Listing.answering (Listing.enumerate [working 1500, working 1023] 1)),
    .page 0 (.takeData ColumnNumber.WorkingSetSize.toInt), .page 0 .sortData, .page 0 .writeColumn,
    .page 0 .writeSortOrder]

theorem grid_reads_sizes :
    ∃ s ∈ run (step .ascii) {} sizesClicked, ∃ p ∈ s.frame.mNotebook[0]?,
      p.page.table.getNumberRows = 2 ∧ ReadsInOrder p.page.table .WorkingSetSize .Descending := by
  obtain ⟨s, hs⟩ := Option.isSome_iff_exists.mp
    (show (run (step .ascii) {} sizesClicked).isSome by decide +kernel)
  have hsorted : ∀ s ∈ run (step .ascii) {} sizesClicked, ∃ p ∈ s.frame.mNotebook[0]?,
      p.page.table.getNumberRows = 2 ∧ ∃ rows ∈ p.page.table.mData,
        InOrder .WorkingSetSize .Descending rows := by
    decide +kernel
  obtain ⟨p, hp, hn, rows, hd, ho⟩ := hsorted s hs
  obtain ⟨-, hreads⟩ :=
    grid_reads hs p (List.mem_of_getElem? hp) rows hd .WorkingSetSize rfl
  exact ⟨s, hs, p, hp, hn, hreads .Descending nofun ho⟩

end RTM.Proof.GridTexts
