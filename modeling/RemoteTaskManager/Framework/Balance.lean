/-!
# Balance of a sequence of events

Some events go up a level and some go down. A sequence is `Guarded` if it
never goes below the level it starts from, and the events of a kind are
`Within` it if they happen above that level only. Both are decided event by
event, as a sequence grows (`guarded_concat`, `within_concat`).
-/

namespace RTM

variable {α : Type} {up down use : α → Bool} {a : α} {l : List α}

/-- How many levels a sequence goes up. -/
def level (up down : α → Bool) (l : List α) : Int := (l.countP up : Int) - l.countP down

/-- At no point do more events go down than up. -/
def Guarded (up down : α → Bool) (l : List α) : Prop :=
  ∀ p, p <+: l → p.countP down ≤ p.countP up

/-- At every event of `use`, more events went up than down. -/
def Within (up down use : α → Bool) (l : List α) : Prop :=
  ∀ p a, p ++ [a] <+: l → use a = true → p.countP down < p.countP up

theorem level_concat : level up down (l ++ [a]) = level up down l + level up down [a] := by
  simp only [level, List.countP_append]
  omega

theorem guarded_nil : Guarded up down ([] : List α) := by
  intro p hp
  rw [List.prefix_nil.mp hp]
  exact Nat.le_refl _

theorem guarded_concat :
    Guarded up down (l ++ [a]) ↔ Guarded up down l ∧ 0 ≤ level up down (l ++ [a]) := by
  have hl : 0 ≤ level up down (l ++ [a]) ↔ (l ++ [a]).countP down ≤ (l ++ [a]).countP up := by
    unfold level
    omega
  rw [hl]
  constructor
  · exact fun h => ⟨fun p hp => h p (hp.trans (List.prefix_append l [a])), h _ (List.prefix_refl _)⟩
  · rintro ⟨h, hla⟩ p hp
    rcases List.prefix_concat_iff.mp hp with rfl | hp
    · exact hla
    · exact h p hp

theorem within_concat :
    Within up down use (l ++ [a]) ↔
      Within up down use l ∧ (use a = true → 0 < level up down l) := by
  have hl : 0 < level up down l ↔ l.countP down < l.countP up := by
    unfold level
    omega
  rw [hl]
  constructor
  · exact fun h => ⟨fun p b hp => h p b (hp.trans (List.prefix_append l [a])),
      h l a (List.prefix_refl _)⟩
  · rintro ⟨h, hla⟩ p b hp hb
    rcases List.prefix_concat_iff.mp hp with he | hp
    · obtain ⟨rfl, hba⟩ := List.append_inj' he rfl
      cases hba
      exact hla hb
    · exact h p b hp hb

end RTM
