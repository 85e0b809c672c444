import Mathlib.Data.BitVec
import Mathlib.Algebra.BigOperators.Intervals
import Mathlib.Algebra.Order.Group.Abs
import Mathlib.Algebra.Order.Ring.Int

/-! Two's-complement words as integers. As long as the exact value of each operation fits the
word, a computation in words is the one in integers; there is one rule for each operation. -/
namespace SignedWord
open Finset

/-- The integers that a signed word of width `w` holds. -/
def Fits (w : ℕ) (a : ℤ) : Prop := -2 ^ (w - 1) ≤ a ∧ a < 2 ^ (w - 1)

instance (w : ℕ) (a : ℤ) : Decidable (Fits w a) := inferInstanceAs (Decidable (_ ∧ _))

theorem Fits.size {w : ℕ} {a : ℤ} (h : Fits (w + 1) a) : |a| ≤ 2 ^ w :=
  abs_le.mpr ⟨h.1, h.2.le⟩

theorem abs_toInt_le {w : ℕ} (x : BitVec (w + 1)) : |x.toInt| ≤ 2 ^ w :=
  abs_le.mpr ⟨BitVec.le_toInt x, BitVec.toInt_lt.le⟩

variable {w : ℕ} {x y : BitVec w} {a b : ℤ}

theorem toInt_sshiftRight_eq {n : ℕ} (hx : x.toInt = a) : (x.sshiftRight n).toInt = a / 2 ^ n := by
  rw [BitVec.toInt_sshiftRight, hx, Int.shiftRight_eq_div_pow]
  norm_cast

theorem toInt_setWidth_of_lt {u : ℕ} (hu : u < w) (z : BitVec u) :
    (z.setWidth w).toInt = z.toNat := by
  have hz : 2 * z.toNat < 2 ^ w :=
    calc 2 * z.toNat < 2 * 2 ^ u := by
          have hlt := z.isLt
          omega
      _ = 2 ^ (u + 1) := by rw [Nat.pow_succ, Nat.mul_comm]
      _ ≤ 2 ^ w := Nat.pow_le_pow_right (by decide) hu
  have hnat : (z.setWidth w).toNat = z.toNat := by
    rw [BitVec.toNat_setWidth, Nat.mod_eq_of_lt (by omega)]
  rw [BitVec.toInt_eq_toNat_of_lt (by rw [hnat]; exact hz), hnat]

/-- Words that are not negative and whose sum fits an unsigned word add up to it. -/
theorem toNat_sum_of_nonneg {f : ℕ → BitVec w} {n : ℕ} (hf : ∀ i < n, 0 ≤ (f i).toInt)
    (h : ∑ i ∈ range n, (f i).toInt < 2 ^ w) :
    ((∑ i ∈ range n, f i).toNat : ℤ) = ∑ i ∈ range n, (f i).toInt := by
  induction n with
  | zero => simp
  | succ n ih =>
    have hn := hf n (Nat.lt_succ_self n)
    have hlast : (f n).toInt = (f n).toNat := by
      apply BitVec.toInt_eq_toNat_of_msb
      rw [BitVec.msb_eq_toInt]
      exact decide_eq_false hn.not_gt
    rw [sum_range_succ] at h
    have hsum := ih (fun i hi => hf i (Nat.lt_succ_of_lt hi)) (by omega)
    rw [← hsum, hlast] at h
    rw [sum_range_succ, sum_range_succ, ← hsum, hlast, BitVec.toNat_add,
      Nat.mod_eq_of_lt (by exact_mod_cast h), Nat.cast_add]

variable [NeZero w]

theorem bmod_of_fits (h : Fits w a) : a.bmod (2 ^ w) = a := by
  have hw : w = w - 1 + 1 := by
    have hpos := Nat.pos_of_neZero w
    omega
  have hdouble : ((2 ^ w : ℕ) : ℤ) = 2 * 2 ^ (w - 1) := by
    rw [hw, Nat.cast_pow, pow_succ]
    simp [mul_comm]
  obtain ⟨hlow, hhigh⟩ := h
  apply Int.bmod_eq_of_le
  · rw [hdouble]
    omega
  · rw [hdouble]
    omega

theorem toInt_add_of_fits (hx : x.toInt = a) (hy : y.toInt = b) (h : Fits w (a + b)) :
    (x + y).toInt = a + b := by
  rw [BitVec.toInt_add, hx, hy, bmod_of_fits h]

theorem toInt_sub_of_fits (hx : x.toInt = a) (hy : y.toInt = b) (h : Fits w (a - b)) :
    (x - y).toInt = a - b := by
  rw [BitVec.toInt_sub, hx, hy, bmod_of_fits h]

theorem toInt_mul_of_fits (hx : x.toInt = a) (hy : y.toInt = b) (h : Fits w (a * b)) :
    (x * y).toInt = a * b := by
  rw [BitVec.toInt_mul, hx, hy, bmod_of_fits h]

theorem toInt_sdiv_of_fits (hx : x.toInt = a) (hy : y.toInt = b) (h : Fits w (a.tdiv b)) :
    (x.sdiv y).toInt = a.tdiv b := by
  rw [BitVec.toInt_sdiv, hx, hy, bmod_of_fits h]

theorem toInt_setWidth_of_fits {u : ℕ} {z : BitVec u} (hw : w ≤ u) (hz : z.toInt = a)
    (h : Fits w a) : (z.setWidth w).toInt = a := by
  have hdvd : 2 ^ w ∣ 2 ^ u := Nat.pow_dvd_pow 2 hw
  rw [BitVec.toInt_setWidth, ← Int.bmod_bmod_of_dvd hdvd, ← BitVec.toInt_eq_toNat_bmod, hz,
    bmod_of_fits h]

theorem toInt_shiftLeft_of_fits {n : ℕ} (hx : x.toInt = a) (h : Fits w (a * 2 ^ n)) :
    (x <<< n).toInt = a * 2 ^ n := by
  have hword : x <<< n = BitVec.ofInt w (a * 2 ^ n) := by
    rw [BitVec.shiftLeft_eq_mul_twoPow, BitVec.ofInt_mul, ← hx, BitVec.ofInt_toInt]
    congr 1
    apply BitVec.eq_of_toNat_eq
    rw [BitVec.toNat_twoPow, BitVec.toNat_ofInt]
    exact_mod_cast rfl
  rw [hword, BitVec.toInt_ofInt, bmod_of_fits h]

end SignedWord
