/-
Bolide.Lib.Round — quotients rounded to the nearest.

Integer division truncates, so a rounded quotient adds half of the divisor
on the side its dividend is on. The result is within half, it grows with the
dividend, and it is exact where the division is.

`rescale` takes a value from one range to another in the same way. A range
that is not finer than the other is the same again after both.
-/
import Mathlib.Data.Int.Order.Basic
import Mathlib.Data.Int.Order.Lemmas
import Mathlib.Tactic.Linarith
import Mathlib.Tactic.Ring

namespace Lib

/-- `a / n`, rounded to the nearest, by truncated division. -/
def roundDiv (a n : Int) : Int := (2 * a + a.sign * n).tdiv (2 * n)

variable {a b n : Int}

/-- A dividend that is not negative. -/
theorem roundDiv_of_nonneg (hn : 0 < n) (ha : 0 ≤ a) : roundDiv a n = (2 * a + n) / (2 * n) := by
  rcases Int.lt_or_eq_of_le ha with hpos | rfl
  · rw [roundDiv, Int.sign_eq_one_of_pos hpos, one_mul, Int.tdiv_eq_ediv_of_nonneg (by omega)]
  · have hhalf : n / (2 * n) = 0 := Int.ediv_eq_zero_of_lt (by omega) (by omega)
    simp [roundDiv, hhalf]

/-- Both sides of zero are rounded alike. -/
theorem roundDiv_neg (a n : Int) : roundDiv (-a) n = -roundDiv a n := by
  have hsum : 2 * -a + (-a).sign * n = -(2 * a + a.sign * n) := by
    rw [Int.sign_neg]
    ring
  rw [roundDiv, roundDiv, hsum, Int.neg_tdiv]

/-- The rounded quotient is the quotient to within half. -/
theorem roundDiv_near (hn : 0 < n) (a : Int) :
    -n ≤ 2 * n * roundDiv a n - 2 * a ∧ 2 * n * roundDiv a n - 2 * a ≤ n := by
  have hnonneg : ∀ a : Int, 0 ≤ a →
      -n ≤ 2 * n * roundDiv a n - 2 * a ∧ 2 * n * roundDiv a n - 2 * a ≤ n := by
    intro a ha
    rw [roundDiv_of_nonneg hn ha]
    have hdiv := Int.mul_ediv_add_emod (2 * a + n) (2 * n)
    have hlow := Int.emod_nonneg (2 * a + n) (show 2 * n ≠ 0 by omega)
    have hhigh := Int.emod_lt_of_pos (2 * a + n) (show 0 < 2 * n by omega)
    constructor <;> linarith
  by_cases ha : 0 ≤ a
  · exact hnonneg a ha
  · obtain ⟨hlow, hhigh⟩ := hnonneg (-a) (by omega)
    rw [roundDiv_neg] at hlow hhigh
    constructor <;> linarith

/-- An exact quotient is not changed. -/
theorem roundDiv_mul (hn : 0 < n) (k : Int) : roundDiv (k * n) n = k := by
  obtain ⟨hlow, hhigh⟩ := roundDiv_near hn (k * n)
  have hfactor : 2 * n * roundDiv (k * n) n - 2 * (k * n) = 2 * n * (roundDiv (k * n) n - k) := by
    ring
  rw [hfactor] at hlow hhigh
  -- twice the divisor times a difference of one is more than the divisor
  have habove : roundDiv (k * n) n - k < 1 := by
    by_contra hge
    have := Int.mul_le_mul_of_nonneg_left (Int.not_lt.mp hge) (show 0 ≤ 2 * n by omega)
    omega
  have hbelow : -1 < roundDiv (k * n) n - k := by
    by_contra hle
    have := Int.mul_le_mul_of_nonneg_left (Int.not_lt.mp hle) (show 0 ≤ 2 * n by omega)
    omega
  omega

/-- A rounded quotient grows with its dividend. -/
theorem roundDiv_mono (hn : 0 < n) (h : a ≤ b) : roundDiv a n ≤ roundDiv b n := by
  have hnonneg : ∀ a b : Int, 0 ≤ a → a ≤ b → roundDiv a n ≤ roundDiv b n := by
    intro a b ha hab
    rw [roundDiv_of_nonneg hn ha, roundDiv_of_nonneg hn (ha.trans hab)]
    exact Int.ediv_le_ediv (by omega) (by omega)
  have hzero : roundDiv 0 n = 0 := by simp [roundDiv]
  by_cases ha : 0 ≤ a
  · exact hnonneg a b ha h
  · have hneg := hnonneg 0 (-a) le_rfl (by omega)
    rw [hzero, roundDiv_neg] at hneg
    by_cases hb : 0 ≤ b
    · have hpos := hnonneg 0 b le_rfl hb
      omega
    · have hboth := hnonneg (-b) (-a) (by omega) (by omega)
      rw [roundDiv_neg, roundDiv_neg] at hboth
      omega

/-! ## Two ranges -/

/-- `v` of `0..=a` as a value of `0..=b`. -/
def rescale (v a b : Nat) : Nat := (v * b + a / 2) / a

theorem rescale_zero {a : Nat} (ha : 0 < a) (b : Nat) : rescale 0 a b = 0 := by
  rw [rescale, Nat.zero_mul, Nat.zero_add]
  exact Nat.div_eq_of_lt (by omega)

theorem rescale_self {a : Nat} (ha : 0 < a) (b : Nat) : rescale a a b = b := by
  rw [rescale, Nat.mul_add_div ha, Nat.div_eq_of_lt (by omega), Nat.add_zero]

theorem rescale_mono {v w : Nat} (h : v ≤ w) (a b : Nat) : rescale v a b ≤ rescale w a b :=
  Nat.div_le_div_right (Nat.add_le_add_right (Nat.mul_le_mul_right b h) _)

theorem rescale_le {v a : Nat} (ha : 0 < a) (h : v ≤ a) (b : Nat) : rescale v a b ≤ b :=
  (rescale_mono h a b).trans (Nat.le_of_eq (rescale_self ha b))

/-- Less than half of the range is not the end of the other. -/
theorem rescale_lt {v a b : Nat} (h : 2 * v < a) (hb : 2 ≤ b) : rescale v a b < b := by
  refine Nat.div_lt_of_lt_mul ?_
  have hmul : 2 * v * b ≤ (a - 1) * b := Nat.mul_le_mul_right b (by omega)
  have hone : a * b = (a - 1) * b + b := by
    rw [← Nat.succ_mul]
    congr 1
    omega
  have htwo : a * 2 ≤ a * b := Nat.mul_le_mul_left a hb
  rw [Nat.mul_assoc] at hmul
  omega

/-- There and back is the same value, where the second range is not coarser. -/
theorem rescale_rescale {a b : Nat} (ha : 0 < a) (hab : a ≤ b) (hhalves : a / 2 + b / 2 < b)
    (v : Nat) : rescale (rescale v a b) b a = v := by
  have hb : 0 < b := by omega
  have hdiv := Nat.div_add_mod (v * b + a / 2) a
  have hmod := Nat.mod_lt (v * b + a / 2) ha
  rw [Nat.mul_comm] at hdiv
  show ((v * b + a / 2) / a * a + b / 2) / b = v
  generalize (v * b + a / 2) / a * a = back at hdiv ⊢
  refine Nat.div_eq_of_lt_le ?_ ?_
  · omega
  · rw [Nat.succ_mul]
    omega

end Lib
