import RemoteTaskManager.Framework.Outcome

/-!
# A `switch` whose cases do not end

The statements of a `switch` in which no case ends with a `break` or a
`return`: control goes to the label and from there through all the statements
that follow, and then to the default, which comes last. If the default never
returns, the `switch` never does (`not_returns_fallThrough`); it does what the
statement at the label does exactly as far as that one does not return
(`fallThrough_of_not_returns`).
-/

namespace RTM

variable {κ σ ε α : Type}

namespace ExecM

/-- The statements, one after another, and then `dflt`. -/
def runAll (dflt : ExecM σ ε Unit) : List (ExecM σ ε Unit) → ExecM σ ε Unit
  | [] => dflt
  | x :: xs => do
    x
    runAll dflt xs

/-- The `switch` on `k`, by its cases: each a label and its statement. -/
def fallThrough [DecidableEq κ] (cases : List (κ × ExecM σ ε Unit)) (dflt : ExecM σ ε Unit) (k : κ) :
    ExecM σ ε Unit :=
  runAll dflt ((cases.dropWhile fun c => c.1 ≠ k).map Prod.snd)

variable {dflt : ExecM σ ε Unit} {x : ExecM σ ε Unit} {xs : List (ExecM σ ε Unit)} {s : σ}

theorem bind_of_not_returns {x : ExecM σ ε Unit} (h : ¬ (x s).1.Returns) (f : Unit → ExecM σ ε Unit) :
    (x >>= f) s = x s := by
  rw [bind_apply]
  cases hx : x s with
  | mk r s' =>
    cases r with
    | ok a => exact absurd ⟨a, by rw [hx]⟩ h
    | threw e => rfl
    | terminated => rfl
    | undefined => rfl

theorem not_returns_runAll (h : ∀ s, ¬ (dflt s).1.Returns) (s : σ) :
    ¬ (runAll dflt xs s).1.Returns := by
  induction xs generalizing s with
  | nil => exact h s
  | cons x xs ih =>
    rw [runAll, bind_apply]
    cases hx : x s with
    | mk r s' =>
      cases r with
      | ok a => exact ih s'
      | threw e => exact nofun
      | terminated => exact nofun
      | undefined => exact nofun

theorem not_returns_fallThrough [DecidableEq κ] {cases : List (κ × ExecM σ ε Unit)}
    (h : ∀ s, ¬ (dflt s).1.Returns) (k : κ) (s : σ) : ¬ (fallThrough cases dflt k s).1.Returns :=
  not_returns_runAll h s

theorem fallThrough_of_not_returns [DecidableEq κ] {cases : List (κ × ExecM σ ε Unit)} {k : κ}
    {rest : List (κ × ExecM σ ε Unit)} (hk : (cases.dropWhile fun c => c.1 ≠ k) = (k, x) :: rest)
    (h : ¬ (x s).1.Returns) : fallThrough cases dflt k s = x s := by
  rw [fallThrough, hk, List.map_cons, runAll]
  exact bind_of_not_returns h _

end ExecM

end RTM
