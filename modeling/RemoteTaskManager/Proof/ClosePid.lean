import RemoteTaskManager.Impl.PopupMenu
import RemoteTaskManager.Proof.Columns
import RemoteTaskManager.Proof.RightClick
import RemoteTaskManager.Proof.Terminate

/-!
# Whom `Close pid` terminates

The pid of a row goes through its text: `GetValue` gives the text that the item
keeps, `to_uint32` reads it, and the request names the decimal text of what was
read. On a record whose pid was given a value that is its pid, but on a row
without a record the text is empty, the failure to read it is discarded and the
request goes out for the process `0xDEADBEEF` (`close_pid_iff`).
-/

namespace RTM.Proof.ClosePid

open RTM.Impl RTM.Proof.Page RTM.Proof.Terminate
open RTM.Proof.RightClick (known shells refreshed ascii_toULong)
open RTM.Proof.ComBalance (creating)

/-- The record in a row; `row` is a `size_t` when it is looked up. -/
def recordAt (t : WmiProcessTable) (row : BitVec 32) : Option WmiProcess :=
  t.mData.bind fun rows => rows[(row.signExtend 64).toNat]?

/-- The text of the pid reads as the pid. -/
def TextReads (P : Platform) (r : WmiProcess) : Prop :=
  toUInt32 P r.processId.strValue = r.processId.value

/-- The click is defined, and asks to terminate the process in the row, if there
is one and the machine lets the request come so far, and no other. -/
def NamesListed (P : Platform) (M : Machine) (R : ClassMethods) (secRes : Option HRESULT)
    (host : WString) (t : WmiProcessTable) (row : BitVec 32) : Prop :=
  (onCellRightClick P t row).Returns ∧
    requests (closePid P M R host t row ⟨secRes, []⟩).2 =
      match recordAt t row with
      | some r => if Opens M secRes host ∧ Reaches R then [handlePath r.processId.value] else []
      | none => []

section

variable {P : Platform} {M : Machine} {R : ClassMethods} {secRes : Option HRESULT} {host : WString}
  {t : WmiProcessTable} {rows : List WmiProcess} {row : BitVec 32} {r : WmiProcess}

/-! ## The menu -/

theorem recordAt_of_data (hd : t.mData = some rows) :
    recordAt t row = rows[(row.signExtend 64).toNat]? := by
  rw [recordAt, hd, Option.bind_some]

/-- A row is counted from 0. -/
theorem recordAt_of_nonneg (hd : t.mData = some rows) (h : 0 ≤ row.toInt) :
    recordAt t row = rows[row.toNat]? := by
  rw [recordAt_of_data hd, Columns.toNat_signExtend_of_nonneg h]

/-- There is no record in a negative row, if the rows can be counted in an `int`. -/
theorem recordAt_of_neg (hd : t.mData = some rows) (hl : rows.length < 2 ^ 31)
    (h : row.toInt < 0) : recordAt t row = none := by
  have hrow := Columns.toNat_signExtend_of_neg h
  rw [recordAt_of_data hd]
  exact List.getElem?_eq_none (by omega)

theorem getValue_of_recordAt (h : recordAt t row = some r) (c : ColumnNumber) :
    t.getValue row c.toInt = .ok (r.item c).toString := by
  obtain ⟨rows, hd, h⟩ := Option.bind_eq_some_iff.mp h
  simp only [WmiProcessTable.getValue, hd, h, WmiProcess.indexInt_toInt, Outcome.ok_bind,
    Outcome.pure_eq]

theorem onCellRightClick_of_null (hd : t.mData = none) :
    onCellRightClick P t row = .undefined := by
  simp only [onCellRightClick, WmiProcessTable.getValue, hd, Outcome.undefined_bind]

theorem onCellRightClick_of_recordAt (h : recordAt t row = some r) :
    onCellRightClick P t row = .ok ⟨⟨toUInt32 P r.processId.strValue, r.name.value⟩,
      wide "Close pid " ++ r.processId.strValue, wide "Close all " ++ r.name.value⟩ := by
  simp only [onCellRightClick, getValue_of_recordAt h, Outcome.ok_bind, Outcome.pure_eq]
  rfl

/-- In a row without a record, the pid is what an empty text reads as. -/
theorem onCellRightClick_of_none (hd : t.mData = some rows) (h : recordAt t row = none) :
    onCellRightClick P t row =
      .ok ⟨⟨toUInt32 P [], []⟩, wide "Close pid ", wide "Close all "⟩ := by
  rw [recordAt_of_data hd] at h
  simp only [onCellRightClick, WmiProcessTable.getValue, hd, h, Outcome.ok_bind, Outcome.pure_eq,
    List.append_nil]

/-! ## The request -/

theorem handlePath_inj {a b : BitVec 32} : handlePath a = handlePath b ↔ a = b := by
  refine ⟨fun h => ?_, fun h => h ▸ rfl⟩
  have hd : decimal a.toNat = decimal b.toNat :=
    List.append_cancel_left (List.append_cancel_right h)
  have hv := congrArg decimalValue hd
  rw [decimalValue_decimal, decimalValue_decimal] at hv
  exact BitVec.eq_of_toNat_eq hv

theorem requests_closePid {menu : PopupMenu} (h : onCellRightClick P t row = .ok menu) :
    requests (closePid P M R host t row ⟨secRes, []⟩).2 =
      if Opens M secRes host ∧ Reaches R then [handlePath menu.clientData.pid] else [] := by
  rw [closePid, h, ExecM.bind_of_ok (ExecM.lift_apply _ _)]
  exact requests_terminate

/-- A text that a value was given to reads as that value. -/
theorem textReads_of_given (hP : ∀ n : BitVec 32, P.toULong (decimal n.toNat) = some n)
    {v : BitVec 64} (h : r.processId = .ofUInt64 v) : TextReads P r := by
  rw [TextReads, h, toUInt32, IntegerItem.ofUInt64, hP, Option.getD_some]

/-- No text reads as `0xDEADBEEF`. -/
theorem not_textReads_of_default (hn : P.toULong [] = none) (h : r.processId = {}) :
    ¬ TextReads P r := by
  rw [TextReads, h, toUInt32, hn, Option.getD_none]
  decide

/-- The page's steps of a click hand over what the handler makes of its table. -/
theorem page_closes {s s' : Page}
    (h : run (Page.step P) s [.rightClick row, .readName, .selectClose] = some s') :
    ∃ menu shown, onCellRightClick P s.table row = .ok menu ∧
      s'.closed = ⟨menu.clientData.pid, menu.clientData.name, shown⟩ :: s.closed := by
  obtain ⟨s₁, h₁, h⟩ := run_cons_eq_some.mp h
  obtain ⟨s₂, h₂, h⟩ := run_cons_eq_some.mp h
  obtain ⟨s₃, h₃, h⟩ := run_cons_eq_some.mp h
  cases h
  obtain ⟨-, -, -, shown, pid, -, hpid, rfl⟩ := step_rightClick h₁
  obtain ⟨row', shown', pid', name, hh, hname, rfl⟩ := step_readName h₂
  cases hh
  obtain ⟨p, hp, rfl⟩ := step_selectClose h₃
  cases hp
  refine ⟨⟨⟨toUInt32 P pid, name⟩, wide "Close pid " ++ pid, wide "Close all " ++ name⟩, shown, ?_, rfl⟩
  simp only [onCellRightClick, hpid, Outcome.ok_bind, Outcome.pure_eq]
  have hname : s.table.getValue row ColumnNumber.Name.toInt = .ok name := hname
  rw [hname]
  rfl

/-- A right click and `Close pid` name the process in the row exactly when there
is a record there whose pid reads back, or the machine stops the request. The
pid of every record that was given one reads back. -/
theorem close_pid_iff (hP : ∀ n : BitVec 32, P.toULong (decimal n.toNat) = some n)
    (hn : P.toULong [] = none) (M : Machine) (R : ClassMethods) (secRes : Option HRESULT)
    (host : WString) (t : WmiProcessTable) (row : BitVec 32) :
    (NamesListed P M R secRes host t row ↔ t.mData ≠ none ∧
      (Opens M secRes host ∧ Reaches R → ∃ r, recordAt t row = some r ∧ TextReads P r)) ∧
    ∀ r : WmiProcess, (∀ v, r.processId = .ofUInt64 v → TextReads P r) ∧
      (r.processId = {} → ¬ TextReads P r) := by
  refine ⟨?_, fun r => ⟨fun v h => textReads_of_given hP h, not_textReads_of_default hn⟩⟩
  cases hd : t.mData with
  | none =>
    rw [NamesListed, onCellRightClick_of_null hd]
    exact iff_of_false (fun h => by obtain ⟨⟨_, h⟩, -⟩ := h; cases h) fun h => h.1 rfl
  | some rows =>
    cases hr : recordAt t row with
    | none =>
      have hm := onCellRightClick_of_none (P := P) hd hr
      rw [NamesListed, requests_closePid hm, hr, hm]
      by_cases hg : Opens M secRes host ∧ Reaches R <;> simp [hg, Outcome.Returns]
    | some r =>
      have hm := onCellRightClick_of_recordAt (P := P) hr
      rw [NamesListed, requests_closePid hm, hr, hm]
      by_cases hg : Opens M secRes host ∧ Reaches R <;>
        simp [hg, Outcome.Returns, handlePath_inj, TextReads]

end

/-! ## On a machine that connects -/

theorem close_pid_first :
    NamesListed .ascii (creating S_OK) (methods S_OK S_OK S_OK S_OK S_OK) none []
      (.ofData [known 4 "cmd.exe"]) 0 :=
  ((close_pid_iff ascii_toULong rfl (creating S_OK) (methods S_OK S_OK S_OK S_OK S_OK) none []
    (.ofData [known 4 "cmd.exe"]) 0).1).mpr ⟨by decide, fun _ => ⟨_, rfl, textReads_of_given ascii_toULong rfl⟩⟩

/-- A click on the row below the last: the process `0xDEADBEEF` is to be
terminated. A refresh that finds fewer processes, and has come to its end,
leaves the grid such a row. -/
theorem close_pid_no_record :
    recordAt (.ofData [known 4 "cmd.exe"]) 1 = none ∧
    requests (closePid .ascii (creating S_OK) (methods S_OK S_OK S_OK S_OK S_OK) []
        (.ofData [known 4 "cmd.exe"]) 1 ⟨none, []⟩).2 =
      [wide "Win32_Process.Handle=\"3735928559\""] ∧
    ¬ NamesListed .ascii (creating S_OK) (methods S_OK S_OK S_OK S_OK S_OK) none []
      (.ofData [known 4 "cmd.exe"]) 1 ∧
    ∃ s ∈ run (Page.step .ascii) (Page.ofTable shells) (refreshed ++ [.publish]),
      s.update = .returned ∧ recordAt s.table 1 = none ∧
        ∃ s' ∈ run (Page.step .ascii) s [.rightClick 1, .readName, .selectClose],
          ∃ p ∈ s'.closed, p.pid = 0xDEADBEEF := by
  have hreq : requests (closePid .ascii (creating S_OK) (methods S_OK S_OK S_OK S_OK S_OK) []
      (.ofData [known 4 "cmd.exe"]) 1 ⟨none, []⟩).2 =
        [wide "Win32_Process.Handle=\"3735928559\""] := by
    rw [requests_closePid (onCellRightClick_of_none rfl rfl), if_pos (by decide)]
    decide +kernel
  refine ⟨rfl, hreq, fun h => ?_, by decide +kernel⟩
  rw [NamesListed, hreq] at h
  cases h.2

end RTM.Proof.ClosePid
