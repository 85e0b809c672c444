import Mathlib.Algebra.BigOperators.Ring.Finset
import Mathlib.Algebra.Order.BigOperators.Group.Finset
import Mathlib.Algebra.Order.Field.Basic
import Mathlib.Algebra.Order.Field.Rat
import Mathlib.Algebra.Order.Group.MinMax
import Mathlib.Tactic.FieldSimp
import Mathlib.Tactic.Linarith
import Mathlib.Tactic.Ring

/-! Integer computations that stand for rational ones. The error of each operation is bounded by
the errors of its operands, with one rule for each operation; shifts to the right are where new
errors come from. -/
namespace ErrorBound

/-- The integer is the rational number up to `ε`. -/
def Near (ε : ℚ) (a : ℤ) (x : ℚ) : Prop := |(a : ℚ) - x| ≤ ε

variable {ε δ A B x y : ℚ} {a b : ℤ}

theorem near_self (a : ℤ) : Near 0 a a := by
  rw [Near, sub_self, abs_zero]

theorem Near.mono (h : Near ε a x) (hle : ε ≤ δ) : Near δ a x := le_trans h hle

theorem Near.add (h : Near ε a x) (k : Near δ b y) : Near (ε + δ) (a + b) (x + y) := by
  have hsplit : ((a + b : ℤ) : ℚ) - (x + y) = (a - x) + (b - y) := by
    push_cast
    ring
  rw [Near, hsplit]
  exact (abs_add_le _ _).trans (add_le_add h k)

theorem Near.sub (h : Near ε a x) (k : Near δ b y) : Near (ε + δ) (a - b) (x - y) := by
  have hsplit : ((a - b : ℤ) : ℚ) - (x - y) = (a - x) - (b - y) := by
    push_cast
    ring
  rw [Near, hsplit]
  exact (abs_sub _ _).trans (add_le_add h k)

/-- The error of either factor is scaled by the size of the other. -/
theorem Near.mul (h : Near ε a x) (k : Near δ b y) (hA : |(a : ℚ)| ≤ A) (hB : |y| ≤ B) :
    Near (A * δ + ε * B) (a * b) (x * y) := by
  have hsplit : ((a * b : ℤ) : ℚ) - x * y = a * (b - y) + (a - x) * y := by
    push_cast
    ring
  have hε : 0 ≤ ε := (abs_nonneg _).trans h
  have hA' : 0 ≤ A := (abs_nonneg _).trans hA
  rw [Near, hsplit]
  refine (abs_add_le _ _).trans (add_le_add ?_ ?_)
  · rw [abs_mul]
    exact mul_le_mul hA k (abs_nonneg _) hA'
  · rw [abs_mul]
    exact mul_le_mul h hB (abs_nonneg _) hε

theorem Near.mul_int (h : Near ε a x) (hB : |(b : ℚ)| ≤ B) : Near (ε * B) (a * b) (x * b) := by
  have hexact := h.mul (near_self b) le_rfl hB
  rwa [mul_zero, zero_add] at hexact

theorem Near.size (h : Near ε a x) (hA : |(a : ℚ)| ≤ A) : |x| ≤ A + ε := by
  have hsplit : x = a - (a - x) := by ring
  rw [hsplit]
  exact (abs_sub _ _).trans (add_le_add hA h)

theorem div_bounds (a : ℤ) {d : ℤ} (hd : 0 < d) :
    ((a / d : ℤ) : ℚ) ≤ a / d ∧ (a : ℚ) / d - 1 < ((a / d : ℤ) : ℚ) := by
  have hpos : (0 : ℚ) < d := by exact_mod_cast hd
  constructor
  · rw [le_div_iff₀ hpos]
    exact_mod_cast Int.ediv_mul_le a hd.ne'
  · rw [sub_lt_iff_lt_add, div_lt_iff₀ hpos]
    exact_mod_cast Int.lt_ediv_add_one_mul_self a hd

theorem abs_shift_le {m n : ℕ} (h : |a| ≤ 2 ^ (m + n)) : |((a / 2 ^ n : ℤ) : ℚ)| ≤ 2 ^ m := by
  have hpow : (0 : ℤ) < 2 ^ n := by positivity
  rw [abs_le, pow_add] at h
  have hlow : -2 ^ m ≤ a / 2 ^ n := by
    rw [Int.le_ediv_iff_mul_le hpow, neg_mul]
    exact h.1
  have hhigh : a / 2 ^ n ≤ 2 ^ m := by
    rw [← Int.lt_add_one_iff, Int.ediv_lt_iff_lt_mul hpow, add_mul]
    linarith [h.2]
  rw [abs_le]
  exact ⟨by exact_mod_cast hlow, by exact_mod_cast hhigh⟩

theorem Near.scaled (h : Near ε a x) {d : ℤ} (hd : 0 < d) : |(a : ℚ) / d - x / d| ≤ ε / d := by
  have hpos : (0 : ℚ) < d := by exact_mod_cast hd
  rw [← sub_div, abs_div, abs_of_pos hpos]
  exact div_le_div_of_nonneg_right h hpos.le

theorem Near.div (h : Near ε a x) {d : ℤ} (hd : 0 < d) : Near (ε / d + 1) (a / d) (x / d) := by
  obtain ⟨hle, hlt⟩ := div_bounds a hd
  have hscaled := abs_le.mp (h.scaled hd)
  rw [Near, abs_le]
  constructor
  · linarith
  · linarith

theorem Near.shift (h : Near ε a x) (n : ℕ) : Near (ε / 2 ^ n + 1) (a / 2 ^ n) (x / 2 ^ n) := by
  have hshift := h.div (d := 2 ^ n) (by positivity)
  push_cast at hshift
  exact hshift

/-- With half a unit added first the quotient is rounded to the nearest integer. -/
theorem Near.round (h : Near ε a x) (n : ℕ) :
    Near (ε / 2 ^ (n + 1) + 1 / 2) ((a + 2 ^ n) / 2 ^ (n + 1)) (x / 2 ^ (n + 1)) := by
  have hpow : (0 : ℤ) < 2 ^ (n + 1) := by positivity
  obtain ⟨hle, hlt⟩ := div_bounds (a + 2 ^ n) hpow
  have hhalf : (2 : ℚ) ^ n / 2 ^ (n + 1) = 1 / 2 := by
    rw [pow_succ, div_mul_eq_div_div, div_self (by positivity)]
  have hscaled := abs_le.mp (h.scaled hpow)
  push_cast at hle hlt hscaled
  rw [add_div, hhalf] at hle hlt
  rw [Near, abs_le]
  constructor
  · linarith
  · linarith

/-- A quotient that truncates towards zero, with a divisor that is not exact either. The error of
the divisor counts for as much as the quotient is larger than it. -/
theorem Near.quotient {d : ℤ} (h : Near δ d y) (hd : 0 < d) (hB : 0 < B) (hy : B ≤ y)
    (hA : |((a.tdiv d : ℤ) : ℚ)| ≤ A) : Near (1 + (A + 1) * (δ / B)) (a.tdiv d) (a / y) := by
  have hpos : (0 : ℚ) < d := by exact_mod_cast hd
  have hy0 : 0 < y := hB.trans_le hy
  have htrunc : |((a.tdiv d : ℤ) : ℚ) - a / d| ≤ 1 := by
    have hmod : (a : ℚ) = d * (a.tdiv d : ℤ) + (a.tmod d : ℤ) := by
      exact_mod_cast (Int.mul_tdiv_add_tmod a d).symm
    have hlt : (-d : ℚ) < (a.tmod d : ℤ) := by exact_mod_cast Int.lt_tmod_of_pos a hd
    have hlt' : ((a.tmod d : ℤ) : ℚ) < d := by exact_mod_cast Int.tmod_lt_of_pos a hd
    have hrest : ((a.tdiv d : ℤ) : ℚ) - a / d = -((a.tmod d : ℤ) / d) := by
      rw [hmod]
      field_simp
      ring
    rw [hrest, abs_neg, abs_div, abs_of_pos hpos, div_le_one hpos, abs_le]
    exact ⟨hlt.le, hlt'.le⟩
  have hsize : |(a : ℚ) / d| ≤ A + 1 := by
    have hsplit : (a : ℚ) / d = (a.tdiv d : ℤ) - (((a.tdiv d : ℤ) : ℚ) - a / d) := by ring
    rw [hsplit]
    exact (abs_sub _ _).trans (add_le_add hA htrunc)
  have hdivisor : |(y - d) / y| ≤ δ / B := by
    rw [abs_div, abs_of_pos hy0, abs_sub_comm]
    exact div_le_div₀ ((abs_nonneg _).trans h) h hB hy
  have hsplit : ((a.tdiv d : ℤ) : ℚ) - a / y =
      (((a.tdiv d : ℤ) : ℚ) - a / d) + a / d * ((y - d) / y) := by
    field_simp
    ring
  rw [Near, hsplit]
  refine (abs_add_le _ _).trans (add_le_add htrunc ?_)
  rw [abs_mul]
  exact mul_le_mul hsize hdivisor (abs_nonneg _) ((abs_nonneg _).trans hsize)

theorem Near.sum {ι : Type*} {s : Finset ι} {a : ι → ℤ} {x : ι → ℚ}
    (h : ∀ i ∈ s, Near ε (a i) (x i)) : Near (s.card * ε) (∑ i ∈ s, a i) (∑ i ∈ s, x i) := by
  rw [Near, Int.cast_sum, ← Finset.sum_sub_distrib, ← nsmul_eq_mul]
  exact (Finset.abs_sum_le_sum_abs _ _).trans (Finset.sum_le_card_nsmul s _ ε h)

theorem Near.clamp (h : Near ε a x) (low high : ℤ) :
    Near ε (min (max a low) high) (min (max x low) high) := by
  have hmax := (abs_max_sub_max_le_abs (a : ℚ) x low).trans h
  have hmin := abs_min_sub_min_le_max (max (a : ℚ) low) high (max x low) high
  have hkeep : max |max (a : ℚ) low - max x low| 0 = |max (a : ℚ) low - max x low| :=
    max_eq_left (abs_nonneg _)
  rw [sub_self, abs_zero, hkeep] at hmin
  rw [Near]
  push_cast
  exact hmin.trans hmax

end ErrorBound
