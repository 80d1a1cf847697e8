import RemoteTaskManager.Impl.ColumnItems

/-!
# `wmi_process.h`

A process, its columns, the item of a column (`WmiProcess.index`) and its label
(`WmiProcess.columnNames`).
-/

namespace RTM.Impl

/-- `column_number`. -/
inductive ColumnNumber where
  | Name
  | ProcessId
  | ParentProcessId
  | SessionId
  | Handle
  | CreationDate
  | ThreadCount
  | PageFaults
  | WorkingSetSize
  | PeakWorkingSetSize
  | PageFileUsage
  | PeakPageFileUsage
  | ReadTransferCount
  | WriteTransferCount
  | CommandLine
deriving DecidableEq, Repr

/-- `wmi_process`. -/
structure WmiProcess where
  name : StringItem := {}
  commandLine : StringItem := {}
  processId : IntegerItem 32 := {}
  parentProcessId : IntegerItem 32 := {}
  sessionId : IntegerItem 32 := {}
  handle : StringItem := {}
  creationDate : DateItem := {}
  threadCount : IntegerItem 32 := {}
  pageFaults : IntegerItem 32 := {}
  pageFileUsage : MemoryItem := {}
  peakPageFileUsage : MemoryItem := {}
  workingSetSize : MemoryItem := {}
  peakWorkingSetSize : MemoryItem := {}
  readTransferCount : MemoryItem := {}
  writeTransferCount : MemoryItem := {}
deriving DecidableEq, Repr

namespace ColumnNumber

/-- The enumerators, in order. -/
def all : List ColumnNumber :=
  [Name, ProcessId, ParentProcessId, SessionId, Handle, CreationDate, ThreadCount, PageFaults,
    WorkingSetSize, PeakWorkingSetSize, PageFileUsage, PeakPageFileUsage, ReadTransferCount,
    WriteTransferCount, CommandLine]

/-- The enumerator's value. -/
def toInt (c : ColumnNumber) : BitVec 32 := BitVec.ofNat 32 (all.idxOf c)

/-- The enumerator of a value, if it has one. -/
def ofInt (n : BitVec 32) : Option ColumnNumber := all[n.toNat]?

theorem ofInt_toInt (c : ColumnNumber) : ofInt c.toInt = some c := by
  cases c <;> rfl

end ColumnNumber

namespace WmiProcess

/-- The member `operator[]` selects for an enumerator. -/
def item (r : WmiProcess) : ColumnNumber → ColumnItem
  | .Name => .string r.name
  | .ProcessId => .integer 32 r.processId
  | .ParentProcessId => .integer 32 r.parentProcessId
  | .SessionId => .integer 32 r.sessionId
  | .Handle => .string r.handle
  | .CreationDate => .date r.creationDate
  | .ThreadCount => .integer 32 r.threadCount
  | .PageFaults => .integer 32 r.pageFaults
  | .PageFileUsage => .memory r.pageFileUsage
  | .PeakPageFileUsage => .memory r.peakPageFileUsage
  | .WorkingSetSize => .memory r.workingSetSize
  | .PeakWorkingSetSize => .memory r.peakWorkingSetSize
  | .ReadTransferCount => .memory r.readTransferCount
  | .WriteTransferCount => .memory r.writeTransferCount
  | .CommandLine => .string r.commandLine

/-- `operator[]`: the `size_t` is converted to the enumeration's `int`. -/
def index (r : WmiProcess) (n : BitVec 64) : Outcome Exn ColumnItem :=
  match ColumnNumber.ofInt (n.setWidth 32) with
  | some c => .ok (r.item c)
  | none => .terminated

/-- `record[col]` for an `int` column: it is converted to `size_t`. -/
def indexInt (r : WmiProcess) (col : BitVec 32) : Outcome Exn ColumnItem :=
  r.index (col.signExtend 64)

/-- An `int` converted to `size_t` and back. -/
theorem setWidth_signExtend (n : BitVec 32) : (n.signExtend 64).setWidth 32 = n := by
  ext i hi
  rw [BitVec.getElem_setWidth, BitVec.getLsbD_signExtend, BitVec.getLsbD_eq_getElem hi]
  simp only [show i < 64 by omega, hi, decide_true, Bool.true_and, ↓reduceIte]

/-- An `int` that is not negative, converted to `size_t`. -/
theorem toNat_signExtend_of_msb {n : BitVec 32} (h : n.msb = false) :
    (n.signExtend 64).toNat = n.toNat := by
  have hlt : n.toNat < 2 ^ 64 := Nat.lt_of_lt_of_le n.isLt (by decide)
  rw [BitVec.signExtend_eq_setWidth_of_msb_false h, BitVec.toNat_setWidth, Nat.mod_eq_of_lt hlt]

theorem indexInt_eq (r : WmiProcess) (col : BitVec 32) :
    r.indexInt col = match ColumnNumber.ofInt col with
      | some c => .ok (r.item c)
      | none => .terminated := by
  rw [indexInt, index, setWidth_signExtend]

@[simp] theorem indexInt_toInt (r : WmiProcess) (c : ColumnNumber) :
    r.indexInt c.toInt = .ok (r.item c) := by
  rw [indexInt_eq, ColumnNumber.ofInt_toInt]

/-- The assignments of the initialiser of `column_names`, in order. -/
def columnLabels : List (ColumnNumber × WString) :=
  [(.Name, wide "Name"),
    (.ProcessId, wide "Process Id"),
    (.ParentProcessId, wide "Parent Process Id"),
    (.SessionId, wide "Session Id"),
    (.Handle, wide "Handle"),
    (.CreationDate, wide "Creation Date"),
    (.ThreadCount, wide "Thread Count"),
    (.PageFaults, wide "Page Faults"),
    (.PageFileUsage, wide "Page File"),
    (.PeakPageFileUsage, wide "Peak Page File"),
    (.WorkingSetSize, wide "Working Set"),
    (.PeakWorkingSetSize, wide "Peak Working Set"),
    (.ReadTransferCount, wide "Read Transfer"),
    (.WriteTransferCount, wide "Write Transfer"),
    (.CommandLine, wide "CommandLine")]

/-- `result[k] = label`, where the array has that element; past its end, where
the assignment has undefined behaviour, the elements are taken to stay. -/
def assignLabel (result : List WString) (k : ColumnNumber × WString) : List WString :=
  result.set k.1.toInt.toNat k.2

/-- `column_names`, of 14 elements. -/
def columnNames : List WString := columnLabels.foldl assignLabel (List.replicate 14 [])

end WmiProcess

end RTM.Impl
