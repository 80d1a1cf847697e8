import RemoteTaskManager.Proof.FromCharRange
import RemoteTaskManager.Proof.Win32Process
import RemoteTaskManager.Spec.Rows

/-!
# The width of a counter

A 64-bit counter arrives as decimal text and is read modulo `2^w`
(`fromCharRange_decimal`); a 32-bit one arrives in a signed `long`, which is
extended to `w` bits with its sign. Which values survive depends on the `w`
that a column is read with: the working set only below `2^32`
(`counters_survive_iff`), the sizes in kilobytes only below `2^31`
(`longs_survive_iff`).
-/

namespace RTM.Proof.Counters

open RTM.Impl RTM.Spec RTM.Proof.FromCharRange RTM.Proof.Win32Process

/-! ## Decimal text -/

/-- An integer encoded as a string. -/
theorem variantVisit_decimal (w n : Nat) :
    variantVisit (.VT_BSTR (some (decimal n))) (integerVisitors w) = .ok (BitVec.ofNat w n) := by
  show Outcome.ok (unsignedFromBstr w (some (decimal n))) = _
  rw [unsignedFromBstr_eq, Option.getD_some, fromCharRange_decimal]

/-- An integer in a `long`. -/
theorem variantVisit_long (w : Nat) (n : BitVec 32) :
    variantVisit (.VT_I4 n) (integerVisitors w) = .ok (n.signExtend w) := rfl

/-! ## 64-bit counters -/

section

variable {P : Platform} {obj : ClassObject} {p : WmiProcess} {c : ColumnNumber} {n : Nat}

/-- The counters read in 64 bits. -/
def transfers : List ColumnNumber := [.ReadTransferCount, .WriteTransferCount]

theorem getInteger_decimal (w : Nat) (h : Carries obj c (.VT_BSTR (some (decimal n)))) :
    getInteger w obj (property c) = .ok (BitVec.ofNat w n) := by
  rw [getInteger_of_carries h, variantVisit_decimal]

theorem decode_workingSetSize (h : Carries obj .WorkingSetSize (.VT_BSTR (some (decimal n)))) :
    decode P obj .WorkingSetSize =
      .ok (.memory (.ofUInt64 ((BitVec.ofNat 32 n).setWidth 64))) := by
  rw [decode, getInteger_decimal 32 h, Outcome.ok_bind, Outcome.pure_eq]

theorem decode_transfer (hc : c ∈ transfers) (h : Carries obj c (.VT_BSTR (some (decimal n)))) :
    decode P obj c = .ok (.memory (.ofUInt64 (BitVec.ofNat 64 n))) := by
  have e := getInteger_decimal 64 h
  simp only [transfers, List.mem_cons, List.not_mem_nil, or_false] at hc
  rcases hc with rfl | rfl <;> rw [decode, e, Outcome.ok_bind, Outcome.pure_eq]

/-- The working set is read modulo `2^32`. -/
theorem key_workingSetSize (hp : makeWmiProcess P obj = .ok p)
    (h : Carries obj .WorkingSetSize (.VT_BSTR (some (decimal n)))) :
    key .WorkingSetSize p = (n % 2 ^ 32 : Nat) := by
  have e := item_of_decode hp (decode_workingSetSize h)
  have hn : n % 2 ^ 32 < 2 ^ 64 := by omega
  simp only [key, e, MemoryItem.ofUInt64, BitVec.toNat_setWidth, BitVec.toNat_ofNat,
    Nat.mod_eq_of_lt hn]

/-- The others are read modulo `2^64`. -/
theorem key_transfer (hp : makeWmiProcess P obj = .ok p) (hc : c ∈ transfers)
    (h : Carries obj c (.VT_BSTR (some (decimal n)))) : key c p = (n % 2 ^ 64 : Nat) := by
  have e := item_of_decode hp (decode_transfer hc h)
  simp only [key, e, MemoryItem.ofUInt64, BitVec.toNat_ofNat]

/-- The three counters never keep a record from being decoded; they survive
exactly when the working set is below `2^32`, and then order the rows by the
true sizes. -/
theorem counters_survive_iff (P : Platform) {obj : ClassObject} {n₁ n₂ n₃ : Nat}
    (h₁ : Carries obj .WorkingSetSize (.VT_BSTR (some (decimal n₁))))
    (h₂ : Carries obj .ReadTransferCount (.VT_BSTR (some (decimal n₂))))
    (h₃ : Carries obj .WriteTransferCount (.VT_BSTR (some (decimal n₃))))
    (hn₂ : n₂ < 2 ^ 64) (hn₃ : n₃ < 2 ^ 64) :
    ((makeWmiProcess P obj).Returns ↔
      ∀ c, c ∉ [.WorkingSetSize, .ReadTransferCount, .WriteTransferCount] →
        (decode P obj c).Returns) ∧
    ∀ p, makeWmiProcess P obj = .ok p →
      ((p.workingSetSize.value.toNat = n₁ ∧ p.readTransferCount.value.toNat = n₂ ∧
        p.writeTransferCount.value.toNat = n₃) ↔ n₁ < 2 ^ 32) ∧
      ((key .WorkingSetSize p = n₁ ∧ key .ReadTransferCount p = n₂ ∧
        key .WriteTransferCount p = n₃) ↔ n₁ < 2 ^ 32) := by
  refine ⟨makeWmiProcess_returns_iff fun c hc => ?_, fun p hp => ?_⟩
  · simp only [List.mem_cons, List.not_mem_nil, or_false] at hc
    rcases hc with rfl | rfl | rfl
    · exact ⟨_, decode_workingSetSize h₁⟩
    · exact ⟨_, decode_transfer List.mem_cons_self h₂⟩
    · exact ⟨_, decode_transfer (List.mem_cons_of_mem _ List.mem_cons_self) h₃⟩
  · have e₁ := key_workingSetSize hp h₁
    have e₂ := key_transfer hp List.mem_cons_self h₂
    have e₃ := key_transfer hp (List.mem_cons_of_mem _ List.mem_cons_self) h₃
    have hn₁ : n₁ % 2 ^ 32 = n₁ ↔ n₁ < 2 ^ 32 := by omega
    simp only [key, WmiProcess.item] at e₁ e₂ e₃ ⊢
    omega

end

/-- A record of the three counters, and of a creation date. -/
def counting (n₁ n₂ n₃ : Nat) : ClassObject :=
  ofColumns fun
    | .WorkingSetSize => .VT_BSTR (some (decimal n₁))
    | .ReadTransferCount => .VT_BSTR (some (decimal n₂))
    | .WriteTransferCount => .VT_BSTR (some (decimal n₃))
    | .CreationDate => .VT_BSTR (some (wide "20240101120000.000000+000"))
    | _ => .VT_NULL

theorem counting_returns (P : Platform) (n₁ n₂ n₃ : Nat) :
    ∀ c, (decode P (counting n₁ n₂ n₃) c).Returns := fun c => by
  refine decode_returns (carries_ofColumns _ c) ?_
  cases c <;> first | exact .inl (Option.some_ne_none _) | exact .inr ⟨rfl, by decide⟩

theorem counters_survive_largest :
    ∃ p, makeWmiProcess .ascii (counting (2 ^ 32 - 1) (2 ^ 64 - 1) (2 ^ 64 - 1)) = .ok p ∧
      p.workingSetSize.value.toNat = 2 ^ 32 - 1 ∧ p.readTransferCount.value.toNat = 2 ^ 64 - 1 ∧
      p.writeTransferCount.value.toNat = 2 ^ 64 - 1 := by
  have carries : ∀ c, Carries (counting (2 ^ 32 - 1) (2 ^ 64 - 1) (2 ^ 64 - 1)) c _ :=
    carries_ofColumns _
  obtain ⟨hr, hv⟩ := counters_survive_iff .ascii (carries .WorkingSetSize)
    (carries .ReadTransferCount) (carries .WriteTransferCount) (by decide) (by decide)
  obtain ⟨p, hp⟩ := hr.mpr fun c _ => counting_returns .ascii _ _ _ c
  exact ⟨p, hp, (hv p hp).1.mpr (by decide)⟩

/-- A working set of 4 GiB is read as 0, and sorted below one of a byte. -/
theorem counters_wrap :
    ∃ p q, makeWmiProcess .ascii (counting (2 ^ 32) 0 0) = .ok p ∧
      makeWmiProcess .ascii (counting 1 0 0) = .ok q ∧
      p.workingSetSize.value.toNat = 0 ∧ key .WorkingSetSize p < key .WorkingSetSize q := by
  obtain ⟨p, hp⟩ := makeWmiProcess_returns (counting_returns .ascii (2 ^ 32) 0 0)
  obtain ⟨q, hq⟩ := makeWmiProcess_returns (counting_returns .ascii 1 0 0)
  have ep : key .WorkingSetSize p = 0 :=
    key_workingSetSize hp (carries_ofColumns _ .WorkingSetSize)
  have eq : key .WorkingSetSize q = 1 :=
    key_workingSetSize hq (carries_ofColumns _ .WorkingSetSize)
  refine ⟨p, q, hp, hq, ?_, ?_⟩
  · simp only [key, WmiProcess.item] at ep
    omega
  · rw [ep, eq]
    decide

/-! ## 32-bit properties -/

section

variable {P : Platform} {obj : ClassObject} {p : WmiProcess} {c : ColumnNumber} {n : BitVec 32}

/-- The columns read in 32 bits, and those of kilobytes, read in 64. -/
def longs : List ColumnNumber :=
  [.ProcessId, .ParentProcessId, .SessionId, .ThreadCount, .PageFaults]
def kilobytes : List ColumnNumber := [.PageFileUsage, .PeakPageFileUsage, .PeakWorkingSetSize]

theorem decode_long (hc : c ∈ longs) (h : Carries obj c (.VT_I4 n)) :
    decode P obj c = .ok (.integer 32 (.ofUInt64 (n.setWidth 64))) := by
  have e : getInteger 32 obj (property c) = .ok n := by
    rw [getInteger_of_carries h, variantVisit_long, BitVec.signExtend_eq]
  simp only [longs, List.mem_cons, List.not_mem_nil, or_false] at hc
  rcases hc with rfl | rfl | rfl | rfl | rfl <;>
    rw [decode, e, Outcome.ok_bind, Outcome.pure_eq]

theorem decode_kilobytes (hc : c ∈ kilobytes) (h : Carries obj c (.VT_I4 n)) :
    decode P obj c = .ok (.memory (.ofUInt64 (fromKilobytes (n.signExtend 64)))) := by
  have e : getInteger 64 obj (property c) = .ok (n.signExtend 64) := by
    rw [getInteger_of_carries h, variantVisit_long]
  simp only [kilobytes, List.mem_cons, List.not_mem_nil, or_false] at hc
  rcases hc with rfl | rfl | rfl <;> rw [decode, e, Outcome.ok_bind, Outcome.pure_eq]

/-- The 32 bits come through. -/
theorem key_long (hp : makeWmiProcess P obj = .ok p) (hc : c ∈ longs)
    (h : Carries obj c (.VT_I4 n)) : key c p = n.toNat := by
  have e := item_of_decode hp (decode_long hc h)
  have hn := n.isLt
  simp only [key, e, IntegerItem.ofUInt64, BitVec.toNat_setWidth]
  omega

/-- A sign extended to 64 bits puts a number of kilobytes out of reach. -/
theorem toNat_fromKilobytes_signExtend (n : BitVec 32) :
    (fromKilobytes (n.signExtend 64)).toNat = 1024 * n.toNat ↔ n.toNat < 2 ^ 31 := by
  have hn := n.isLt
  rw [fromKilobytes, BitVec.toNat_mul, BitVec.toNat_signExtend, BitVec.toNat_setWidth,
    BitVec.msb_eq_decide]
  by_cases h : n.toNat < 2 ^ 31
  · rw [if_neg (by simpa using h)]
    simp only [BitVec.reduceToNat]
    omega
  · rw [if_pos (by simpa using h)]
    simp only [BitVec.reduceToNat]
    omega

theorem key_kilobytes (hp : makeWmiProcess P obj = .ok p) (hc : c ∈ kilobytes)
    (h : Carries obj c (.VT_I4 n)) : key c p = (1024 * n.toNat : Nat) ↔ n.toNat < 2 ^ 31 := by
  have e := item_of_decode hp (decode_kilobytes hc h)
  simp only [key, e, MemoryItem.ofUInt64, Int.natCast_inj]
  exact toNat_fromKilobytes_signExtend n

/-- The eight properties never keep a record from being decoded; they survive
exactly when the three of kilobytes are below `2^31`. -/
theorem longs_survive_iff (P : Platform) {obj : ClassObject} {n : ColumnNumber → BitVec 32}
    (h : ∀ c ∈ longs ++ kilobytes, Carries obj c (.VT_I4 (n c))) :
    ((makeWmiProcess P obj).Returns ↔ ∀ c, c ∉ longs ++ kilobytes → (decode P obj c).Returns) ∧
    ∀ p, makeWmiProcess P obj = .ok p →
      ((p.processId.value = n .ProcessId ∧ p.parentProcessId.value = n .ParentProcessId ∧
        p.sessionId.value = n .SessionId ∧ p.threadCount.value = n .ThreadCount ∧
        p.pageFaults.value = n .PageFaults ∧
        p.pageFileUsage.value.toNat = 1024 * (n .PageFileUsage).toNat ∧
        p.peakPageFileUsage.value.toNat = 1024 * (n .PeakPageFileUsage).toNat ∧
        p.peakWorkingSetSize.value.toNat = 1024 * (n .PeakWorkingSetSize).toNat) ↔
      ∀ c ∈ kilobytes, (n c).toNat < 2 ^ 31) := by
  refine ⟨makeWmiProcess_returns_iff fun c hc => ?_, fun p hp => ?_⟩
  · rcases List.mem_append.mp hc with hl | hk
    · exact ⟨_, decode_long hl (h c hc)⟩
    · exact ⟨_, decode_kilobytes hk (h c hc)⟩
  · have long : ∀ c ∈ longs, key c p = (n c).toNat := fun c hc =>
      key_long hp hc (h c (List.mem_append_left _ hc))
    have kilobyte : ∀ c ∈ kilobytes, (key c p = (1024 * (n c).toNat : Nat) ↔ (n c).toNat < 2 ^ 31) :=
      fun c hc => key_kilobytes hp hc (h c (List.mem_append_right _ hc))
    simp only [longs, kilobytes, List.forall_mem_cons, List.not_mem_nil, false_imp_iff, implies_true,
      and_true, key, WmiProcess.item, Int.natCast_inj, BitVec.toNat_inj] at long kilobyte ⊢
    obtain ⟨h₁, h₂, h₃, h₄, h₅⟩ := long
    obtain ⟨k₁, k₂, k₃⟩ := kilobyte
    simp only [h₁, h₂, h₃, h₄, h₅, true_and, k₁, k₂, k₃]

end

/-- A record of one number in all the properties of 32 bits, and of a creation
date. -/
def counted (n : BitVec 32) : ClassObject :=
  ofColumns fun
    | .ProcessId | .ParentProcessId | .SessionId | .ThreadCount | .PageFaults | .PageFileUsage
    | .PeakPageFileUsage | .PeakWorkingSetSize => .VT_I4 n
    | .CreationDate => .VT_BSTR (some (wide "20240101120000.000000+000"))
    | _ => .VT_NULL

theorem carries_counted (n : BitVec 32) {c : ColumnNumber} (hc : c ∈ longs ++ kilobytes) :
    Carries (counted n) c (.VT_I4 n) := by
  refine ⟨S_OK, rfl, (get_ofColumns _ c).trans ?_⟩
  cases c <;> first | rfl | exact absurd hc (by decide)

theorem counted_returns (P : Platform) (n : BitVec 32) : ∀ c, (decode P (counted n) c).Returns :=
  fun c => by
    refine decode_returns (carries_ofColumns _ c) ?_
    cases c <;> first
      | exact .inl (Option.some_ne_none _)
      | exact .inl ⟨rfl, by decide⟩
      | exact .inr ⟨rfl, by decide⟩

theorem longs_survive_largest :
    ∃ p, makeWmiProcess .ascii (counted 0x7FFFFFFF) = .ok p ∧ p.processId.value = 0x7FFFFFFF ∧
      p.pageFileUsage.value.toNat = 1024 * (2 ^ 31 - 1) := by
  obtain ⟨hr, hv⟩ := @longs_survive_iff .ascii (counted 0x7FFFFFFF) (fun _ => 0x7FFFFFFF)
    fun c hc => carries_counted _ hc
  obtain ⟨p, hp⟩ := hr.mpr fun c _ => counted_returns .ascii _ c
  have h := (hv p hp).mpr (by decide)
  exact ⟨p, hp, h.1, h.2.2.2.2.2.1⟩

/-- Two TiB of page file are read as almost `2^64` bytes. -/
theorem longs_extended :
    ∃ p, makeWmiProcess .ascii (counted 0x80000000) = .ok p ∧
      p.processId.value = 0x80000000 ∧ p.pageFileUsage.value.toNat = 2 ^ 64 - 2 ^ 41 := by
  obtain ⟨p, hp⟩ := makeWmiProcess_returns (counted_returns .ascii 0x80000000)
  have e₁ := item_of_decode hp (decode_long (c := .ProcessId) (by decide) (carries_counted _ (by decide)))
  have e₂ := item_of_decode hp
    (decode_kilobytes (c := .PageFileUsage) (by decide) (carries_counted _ (by decide)))
  simp only [WmiProcess.item, ColumnItem.integer.injEq, heq_eq_eq, true_and,
    ColumnItem.memory.injEq] at e₁ e₂
  refine ⟨p, hp, ?_, ?_⟩
  · rw [e₁]
    rfl
  · rw [e₂]
    rfl

end RTM.Proof.Counters
