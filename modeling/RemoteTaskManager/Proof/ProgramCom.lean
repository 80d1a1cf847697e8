import RemoteTaskManager.Proof.Program

/-!
# The calls of COM that the program makes

Over a whole run, however its connections end, the calls of COM are in order
(`ComHeld.step`): no connection goes without the security, which is initialised
once in the process, and none leaves an interface behind.
-/

namespace RTM.Proof.ProgramCom

open RTM.Impl RTM.Spec RTM.Proof.ComProtocol RTM.Proof.Program
open RTM.Impl.Program (step)

/-- The calls of all connections, in the order in which these come to `sec_res`. -/
def calls (s : Program) : List ComCall := s.uses.flatMap (·.calls)

/-- The calls of a connection alone, in a process that is secured or is not. -/
def Closed (u : WmiUse) : Prop :=
  ∃ secured secured', run ComHeld.step { secured } u.calls = some { secured := secured' }

structure CallsInOrder (s : Program) : Prop where
  calls : run ComHeld.step {} (calls s) = some { secured := s.secRes.isSome }
  closed : ∀ u ∈ s.uses, Closed u

section

variable {P : Platform} {s t : Program} {a : ProgramAct} {M : Machine} {machine : WString}

/-- What the process holds between two connections. -/
def between (s : Program) : ComHeld := { secured := s.secRes.isSome }

theorem held_com (s : Program) : Held (between s) false false false s.com := rfl

theorem CallsInOrder.used (hi : CallsInOrder s) {com : Com} (machine : WString) (listing : List WmiProcess)
    (h : Held (between s) false false false com) :
    CallsInOrder (s.used machine listing com) := by
  refine ⟨?_, fun u hu => ?_⟩
  · have hc : ProgramCom.calls (s.used machine listing com) = ProgramCom.calls s ++ com.calls := by
      simp [ProgramCom.calls, Program.used]
    rw [hc, run_append hi.calls]
    exact h
  · rcases List.mem_append.mp hu with hu | hu
    · exact hi.closed u hu
    · rw [List.mem_singleton.mp hu]
      exact ⟨_, _, h⟩

/-- A listing, as far as the program goes on after it. -/
theorem CallsInOrder.listing (hi : CallsInOrder s) (hM : Gives M) (listing : List WmiProcess)
    (he : (answer P M (s.secRes = none) machine).Returns ∨
      (answer P M (s.secRes = none) machine).Throws) :
    CallsInOrder (s.used machine listing (getWmiWin32Process P M machine s.com).2) := by
  have ha : (getWmiWin32Process P M machine s.com).1 = answer P M (s.secRes = none) machine :=
    getWmiWin32Process_answer P M machine s.com
  rw [← ha] at he
  exact hi.used machine listing ((getWmiWin32Process_held P hM machine).of_ends (held_com s) he)

end

end RTM.Proof.ProgramCom
