import Mathlib.Order.Monotone.Defs
import Mathlib.Tactic.Ring
import RemoteTaskManager.Framework.Double

/-!
# Rounding to nearest

`divRoundEven n d` is determined by which integers it is at least
(`le_divRoundEven_iff`): it depends only on the fraction `n / d`, is monotone,
and is at most half a unit away from it. An integer cast to a `double` is
rounded to 53 bits (`round53`), which is monotone and exact below `2^53`; what a
`double` that stands for a fraction (`Double.Is`) compares with and rounds to
is then a matter of that fraction.
-/

namespace RTM

/-! ## Division, rounded -/

theorem le_divRoundEven_iff {n d k : Nat} (hd : 0 < d) :
    k ≤ divRoundEven n d ↔
      2 * (k * d) ≤ 2 * n + d ∧ (2 * (k * d) = 2 * n + d → k % 2 = 0) := by
  have e := Nat.div_add_mod' n d
  have hr := Nat.mod_lt n hd
  dsimp only [divRoundEven]
  generalize n / d = q at e
  generalize n % d = r at e hr
  have hs : (q + 1) * d = q * d + d := Nat.succ_mul q d
  rcases Nat.lt_trichotomy k (q + 1) with h | rfl | h
  · have hk : k * d ≤ q * d := Nat.mul_le_mul_right d (by omega)
    have hq : k ≤ if 2 * r < d then q else if d < 2 * r then q + 1 else
        if q % 2 = 0 then q else q + 1 := by
      split <;> (try split) <;> (try split) <;> omega
    exact ⟨fun _ => by omega, fun _ => hq⟩
  · split
    · omega
    · split
      · omega
      · split <;> omega
  · have hk : (q + 2) * d ≤ k * d := Nat.mul_le_mul_right d (by omega)
    have ht : (q + 2) * d = q * d + 2 * d := Nat.add_mul q 2 d
    have hq : ¬ k ≤ if 2 * r < d then q else if d < 2 * r then q + 1 else
        if q % 2 = 0 then q else q + 1 := by
      split <;> (try split) <;> (try split) <;> omega
    exact ⟨fun h => absurd h hq, fun h => by omega⟩

section

variable {n n' d d' k q : Nat}

/-- Fractions that are equal round alike. -/
theorem divRoundEven_congr (hd : 0 < d) (hd' : 0 < d') (h : n * d' = n' * d) :
    divRoundEven n d = divRoundEven n' d' := by
  -- The two sides of each comparison, times the other denominator.
  have scale : ∀ k, (2 * (k * d) ≤ 2 * n + d ↔ 2 * (k * d') ≤ 2 * n' + d') ∧
      (2 * (k * d) = 2 * n + d ↔ 2 * (k * d') = 2 * n' + d') := by
    intro k
    have e₁ : 2 * (k * d) * d' = 2 * (k * d') * d := by ring
    have e₂ : (2 * n + d) * d' = (2 * n' + d') * d := by
      rw [Nat.add_mul, Nat.add_mul, Nat.mul_assoc, Nat.mul_assoc, h, Nat.mul_comm d d']
    constructor
    · rw [← Nat.mul_le_mul_right_iff hd', e₁, e₂, Nat.mul_le_mul_right_iff hd]
    · rw [← Nat.mul_left_inj (Nat.ne_of_gt hd'), e₁, e₂, Nat.mul_left_inj (Nat.ne_of_gt hd)]
  have hk : ∀ k, k ≤ divRoundEven n d ↔ k ≤ divRoundEven n' d' := by
    intro k
    rw [le_divRoundEven_iff hd, le_divRoundEven_iff hd', (scale k).1, (scale k).2]
  exact Nat.le_antisymm ((hk _).mp (Nat.le_refl _)) ((hk _).mpr (Nat.le_refl _))

theorem divRoundEven_mono (hd : 0 < d) (h : n ≤ n') : divRoundEven n d ≤ divRoundEven n' d := by
  obtain ⟨hle, heven⟩ := (le_divRoundEven_iff hd).mp (Nat.le_refl (divRoundEven n d))
  exact (le_divRoundEven_iff hd).mpr ⟨by omega, fun e => heven (by omega)⟩

/-- A multiple is not rounded. -/
@[simp] theorem divRoundEven_mul (hd : 0 < d) : divRoundEven (q * d) d = q := by
  rw [divRoundEven, Nat.mul_div_cancel _ hd, Nat.mul_mod_left]
  simp only [Nat.mul_zero, hd, ↓reduceIte]

@[simp] theorem divRoundEven_one : divRoundEven n 1 = n := by
  have h := divRoundEven_mul (d := 1) (q := n) (by omega)
  rwa [Nat.mul_one] at h

theorem divRoundEven_le (hd : 0 < d) (h : n ≤ q * d) : divRoundEven n d ≤ q :=
  Nat.le_trans (divRoundEven_mono hd h) (Nat.le_of_eq (divRoundEven_mul hd))

theorem le_divRoundEven (hd : 0 < d) (h : q * d ≤ n) : q ≤ divRoundEven n d :=
  Nat.le_trans (Nat.le_of_eq (divRoundEven_mul hd).symm) (divRoundEven_mono hd h)

/-- The result is at most half a unit above the fraction. -/
theorem two_mul_divRoundEven_le (hd : 0 < d) : 2 * (divRoundEven n d * d) ≤ 2 * n + d :=
  ((le_divRoundEven_iff hd).mp (Nat.le_refl _)).1

/-- The result is at most half a unit below the fraction. -/
theorem le_two_mul_divRoundEven (hd : 0 < d) : 2 * n ≤ 2 * (divRoundEven n d * d) + d := by
  have h := mt (le_divRoundEven_iff (n := n) (k := divRoundEven n d + 1) hd).mpr (by omega)
  have hs : (divRoundEven n d + 1) * d = divRoundEven n d * d + d := Nat.succ_mul _ d
  omega

end

/-! ## Rounding to 53 bits -/

/-- The integer that is `n` rounded to 53 significant bits. -/
def round53 (n : Nat) : Nat :=
  divRoundEven n (2 ^ (Nat.log2 n - 52)) * 2 ^ (Nat.log2 n - 52)

section

variable {n n' k t : Nat}

theorem round53_of_lt (h : n < 2 ^ 53) : round53 n = n := by
  have hs : Nat.log2 n - 52 = 0 := by
    by_cases h0 : n = 0
    · rw [h0, Nat.log2_zero]
    · have := (Nat.log2_lt h0).mpr h
      omega
  rw [round53, hs, Nat.pow_zero, divRoundEven_one, Nat.mul_one]

/-- Rounding does not cross a power of two from below. -/
theorem round53_le_two_pow (h : n < 2 ^ k) : round53 n ≤ 2 ^ k := by
  by_cases hn : n < 2 ^ 53
  · rw [round53_of_lt hn]
    omega
  · have h0 : n ≠ 0 := by omega
    have hk := (Nat.log2_lt h0).mpr h
    have h53 : ¬ n.log2 < 53 := fun hl => hn ((Nat.log2_lt h0).mp hl)
    have e : 2 ^ k = 2 ^ (k - (n.log2 - 52)) * 2 ^ (n.log2 - 52) := by
      rw [← Nat.pow_add]
      congr 1
      omega
    rw [round53, e]
    refine Nat.mul_le_mul_right _ (divRoundEven_le (Nat.two_pow_pos _) ?_)
    rw [← e]
    omega

/-- Nor from above. -/
theorem two_pow_le_round53 (h : 2 ^ k ≤ n) : 2 ^ k ≤ round53 n := by
  by_cases hn : n < 2 ^ 53
  · rw [round53_of_lt hn]
    exact h
  · have h0 : n ≠ 0 := by omega
    have hk : k ≤ n.log2 := (Nat.le_log2 h0).mpr h
    -- The leading bit is kept.
    have e : 2 ^ n.log2 = 2 ^ 52 * 2 ^ (n.log2 - 52) := by
      have h53 : ¬ n.log2 < 53 := fun hl => hn ((Nat.log2_lt h0).mp hl)
      rw [← Nat.pow_add]
      congr 1
      omega
    calc 2 ^ k ≤ 2 ^ n.log2 := Nat.pow_le_pow_right (by omega) hk
      _ = 2 ^ 52 * 2 ^ (n.log2 - 52) := e
      _ ≤ round53 n := by
        refine Nat.mul_le_mul_right _ (le_divRoundEven (Nat.two_pow_pos _) ?_)
        rw [← e]
        exact Nat.log2_self_le h0

theorem round53_mono : Monotone round53 := by
  intro n n' h
  by_cases h0 : n = 0
  · rw [h0, round53_of_lt (by decide)]
    exact Nat.zero_le _
  have h0' : n' ≠ 0 := by omega
  rcases Nat.lt_or_ge n.log2 n'.log2 with hlt | hge
  · -- A power of two lies between.
    calc round53 n ≤ 2 ^ n'.log2 := round53_le_two_pow ((Nat.log2_lt h0).mp hlt)
      _ ≤ round53 n' := two_pow_le_round53 (Nat.log2_self_le h0')
  · have hle : n.log2 ≤ n'.log2 := (Nat.le_log2 h0').mpr (Nat.le_trans (Nat.log2_self_le h0) h)
    have e : n.log2 = n'.log2 := Nat.le_antisymm hle hge
    rw [round53, round53, e]
    exact Nat.mul_le_mul_right _ (divRoundEven_mono (Nat.two_pow_pos _) h)

/-- Of a number of at most `53 + t` bits, at most half of `2^t` is lost. -/
theorem round53_error (h : n < 2 ^ (53 + t)) :
    2 * round53 n ≤ 2 * n + 2 ^ t ∧ 2 * n ≤ 2 * round53 n + 2 ^ t := by
  by_cases h0 : n = 0
  · have ht := Nat.two_pow_pos t
    rw [h0, round53_of_lt (by decide)]
    omega
  have hlog := (Nat.log2_lt h0).mpr h
  have hpow : 2 ^ (n.log2 - 52) ≤ 2 ^ t := Nat.pow_le_pow_right (by omega) (by omega)
  have above := two_mul_divRoundEven_le (n := n) (Nat.two_pow_pos (n.log2 - 52))
  have below := le_two_mul_divRoundEven (n := n) (Nat.two_pow_pos (n.log2 - 52))
  rw [round53]
  omega

@[simp] theorem round53_two_pow (k : Nat) : round53 (2 ^ k) = 2 ^ k := by
  have e : 2 ^ k = 2 ^ (k - (k - 52)) * 2 ^ (k - 52) := by
    rw [← Nat.pow_add]
    congr 1
    omega
  have hdiv : divRoundEven (2 ^ k) (2 ^ (k - 52)) = 2 ^ (k - (k - 52)) := by
    rw [e]
    exact divRoundEven_mul (Nat.two_pow_pos _)
  rw [round53, Nat.log2_two_pow, hdiv, ← e]

/-- Where a bound on the rounded number begins to hold. -/
theorem le_round53_iff {x a : Nat} (ha : round53 a < x) (ha' : x ≤ round53 (a + 1)) :
    x ≤ round53 n ↔ a < n := by
  constructor
  · intro h
    by_contra hn
    have := round53_mono (Nat.le_of_not_lt hn)
    omega
  · intro h
    exact Nat.le_trans ha' (round53_mono h)

theorem le_round53_iff_of_le {x : Nat} (hx : x ≤ 2 ^ 53) : x ≤ round53 n ↔ x ≤ n := by
  constructor
  · intro h
    by_contra hn
    rw [round53_of_lt (by omega)] at h
    exact hn h
  · intro h
    have hmono := round53_mono h
    have hself : round53 x = x := by
      rcases Nat.lt_or_eq_of_le hx with hlt | rfl
      · exact round53_of_lt hlt
      · exact round53_two_pow 53
    rwa [hself] at hmono

end

/-! ## Doubles that stand for a fraction -/

namespace Double

/-- `d` is `n / c`. -/
def Is (d : Double) (n c : Nat) : Prop :=
  0 < c ∧ ∃ m e, d = finite m e ∧ 0 ≤ m ∧ num m e * c = n * den e

theorem den_pos (e : Int) : 0 < den e := Nat.two_pow_pos _

theorem ofInt_is (n : Nat) : (ofInt n).Is (round53 n) 1 := by
  refine ⟨by omega, _, _, rfl, ?_, ?_⟩
  · exact Int.mul_nonneg (Int.sign_nonneg_iff.mpr (Int.natCast_nonneg n)) (Int.natCast_nonneg _)
  · have hm : ((n : Int).sign * (divRoundEven n (2 ^ (n.log2 - 52)) : Nat)).natAbs =
        divRoundEven n (2 ^ (n.log2 - 52)) := by
      by_cases h0 : n = 0
      · subst h0; decide
      · rw [Int.sign_natCast_of_ne_zero h0, Int.one_mul, Int.natAbs_natCast]
    have hden : (-((n.log2 - 52 : Nat) : Int)).toNat = 0 := by omega
    rw [num, den, Int.natAbs_natCast, hm, Int.toNat_natCast, hden, round53, Nat.pow_zero]

variable {d : Double} {n c : Nat}

theorem div1024_is (h : d.Is n c) : d.div1024.Is n (1024 * c) := by
  obtain ⟨hc, m, e, rfl, hm, he⟩ := h
  refine ⟨by omega, m, e - 10, rfl, hm, ?_⟩
  -- Both exponents drop by ten, in the numerator or in the denominator.
  have hpow : 2 ^ (e - 10).toNat * 1024 * den e = 2 ^ e.toNat * den (e - 10) := by
    have h1024 : 1024 = 2 ^ 10 := rfl
    rw [h1024, den, den, ← Nat.pow_add, ← Nat.pow_add, ← Nat.pow_add]
    congr 1
    omega
  refine Nat.eq_of_mul_eq_mul_right (den_pos e) ?_
  calc num m (e - 10) * (1024 * c) * den e
      = m.natAbs * c * (2 ^ (e - 10).toNat * 1024 * den e) := by rw [num]; ring
    _ = num m e * c * den (e - 10) := by rw [hpow, num]; ring
    _ = n * den (e - 10) * den e := by rw [he]; ring

theorem lt1024_iff (h : d.Is n c) : d.lt1024 = true ↔ n < 1024 * c := by
  obtain ⟨hc, m, e, rfl, hm, he⟩ := h
  have hneg : ¬ m < 0 := by omega
  rw [lt1024, Bool.or_eq_true, decide_eq_true_eq, decide_eq_true_eq, or_iff_right hneg,
    ← Nat.mul_lt_mul_right hc, he, ← Nat.mul_lt_mul_right (den_pos e) (b := n)]
  have e' : 1024 * den e * c = 1024 * c * den e := by ring
  rw [e']

theorem hundredths_eq (h : d.Is n c) : d.hundredths = divRoundEven (100 * n) c := by
  obtain ⟨hc, m, e, rfl, hm, he⟩ := h
  refine divRoundEven_congr (den_pos e) hc ?_
  rw [Nat.mul_assoc, he, Nat.mul_assoc]

theorem lround_eq (h : d.Is n c) : d.lround = (2 * n + c) / (2 * c) := by
  obtain ⟨hc, m, e, rfl, hm, he⟩ := h
  have e' : (2 * num m e + den e) * c = (2 * n + c) * den e := by
    rw [Nat.add_mul, Nat.add_mul, Nat.mul_assoc, he]
    ring
  have hd : 2 * den e * c = 2 * c * den e := by ring
  rw [lround, ← Nat.mul_div_mul_right _ _ hc, e', hd, Nat.mul_div_mul_right _ _ (den_pos e)]

end Double

end RTM
