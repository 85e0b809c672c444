import WaferSat.Foundation.SignedWord
import WaferSat.Telemetry.Sensitivity
import Mathlib.Algebra.Order.Field.Rat
import Mathlib.Tactic.Linarith
import Mathlib.Tactic.FieldSimp

/-!
The mean of `BME280_getPressure`. The loop adds up pressures in 256ths of a pascal and one final
division by `26 * means` takes the mean and converts to tenths of a pascal. The exact factor is
25.6, so the result is 1.5 percent low and right only where that is less than one unit.
-/
namespace WaferSat.Telemetry

open Finset

/-- A quotient by `26 * n` is within one of that by `25.6 * n` only near the lower ends of the
first 65 steps. -/
theorem quotient_near_iff {S n : ℕ} (hn : 0 < n) :
    |((S / (n * 26) : ℕ) : ℚ) - 10 * S / (256 * n)| ≤ 1 ↔
      ∃ q ≤ 64, 26 * (n * q) ≤ S ∧ 10 * S ≤ 256 * (n * (q + 1)) := by
  have hpos : (0 : ℚ) < 256 * n := by positivity
  have hle : 26 * (n * (S / (n * 26))) ≤ S := by
    rw [← mul_assoc, mul_comm 26]
    exact Nat.mul_div_le S (n * 26)
  have hlt : S < 26 * (n * (S / (n * 26) + 1)) := by
    rw [← mul_assoc, mul_comm 26]
    exact Nat.lt_mul_div_succ S (by omega)
  generalize S / (n * 26) = r at hle hlt ⊢
  have hnear : |(r : ℚ) - 10 * S / (256 * n)| ≤ 1 ↔ 10 * S ≤ 256 * (n * (r + 1)) := by
    have hlow : r * (256 * n) ≤ 10 * S := by
      rw [mul_comm, mul_assoc]
      omega
    have hlow' : (r : ℚ) ≤ 10 * S / (256 * n) := by
      rw [le_div_iff₀ hpos]
      exact_mod_cast hlow
    rw [abs_sub_comm, abs_of_nonneg (sub_nonneg.mpr hlow'), sub_le_iff_le_add, div_le_iff₀ hpos,
      add_comm, mul_comm (_ + 1 : ℚ), mul_assoc]
    exact_mod_cast Iff.rfl
  rw [hnear]
  constructor
  · intro h
    have hr : n * r ≤ n * 64 := by
      rw [mul_add] at h
      omega
    exact ⟨r, Nat.le_of_mul_le_mul_left hr hn, hle, h⟩
  · rintro ⟨q, -, hq, hS⟩
    have hqr : n * q < n * (r + 1) := by omega
    have hstep : n * (q + 1) ≤ n * (r + 1) :=
      Nat.mul_le_mul_left n (Nat.lt_of_mul_lt_mul_left hqr)
    omega

section Exact

open SignedWord

variable (calib : Calib) (tFine adcP : ℤ)

def exactDivisor : ℤ :=
  let t := tFine - 128000
  let var1 := t * t * calib.digP3.toInt / 2 ^ 8 + t * calib.digP2.toInt * 2 ^ 12
  (2 ^ 47 + var1) * calib.digP1.toNat / 2 ^ 33

/-- What the source computes on the way to the divisor, but for the shifts to the right. -/
def divisorSteps : List ℤ :=
  let t := tFine - 128000
  let var1 := t * t * calib.digP3.toInt / 2 ^ 8 + t * calib.digP2.toInt * 2 ^ 12
  [t, t * t, t * t * calib.digP3.toInt, t * calib.digP2.toInt, t * calib.digP2.toInt * 2 ^ 12,
    var1, 2 ^ 47 + var1, (2 ^ 47 + var1) * calib.digP1.toNat]

def exactVar2 : ℤ :=
  let t := tFine - 128000
  t * t * calib.digP6.toInt + t * calib.digP5.toInt * 2 ^ 17 + calib.digP4.toInt * 2 ^ 35

def exactQuotient : ℤ :=
  (((1048576 - adcP) * 2 ^ 31 - exactVar2 calib tFine) * 3125).tdiv (exactDivisor calib tFine)

def exactPressure : ℤ :=
  let p := exactQuotient calib tFine adcP
  let var1 := calib.digP9.toInt * (p / 2 ^ 13) * (p / 2 ^ 13) / 2 ^ 25
  let var2 := calib.digP8.toInt * p / 2 ^ 19
  (p + var1 + var2) / 2 ^ 8 + calib.digP7.toInt * 2 ^ 4

/-- What the source computes in 64 bits after the divisor, but for the shifts to the right. -/
def pressureSteps : List ℤ :=
  let t := tFine - 128000
  let p := exactQuotient calib tFine adcP
  let var1 := calib.digP9.toInt * (p / 2 ^ 13) * (p / 2 ^ 13) / 2 ^ 25
  let var2 := calib.digP8.toInt * p / 2 ^ 19
  [t * t * calib.digP6.toInt, t * calib.digP5.toInt, t * calib.digP5.toInt * 2 ^ 17,
    t * t * calib.digP6.toInt + t * calib.digP5.toInt * 2 ^ 17, calib.digP4.toInt * 2 ^ 35,
    exactVar2 calib tFine, (1048576 - adcP) * 2 ^ 31,
    (1048576 - adcP) * 2 ^ 31 - exactVar2 calib tFine,
    ((1048576 - adcP) * 2 ^ 31 - exactVar2 calib tFine) * 3125, p,
    calib.digP9.toInt * (p / 2 ^ 13), calib.digP9.toInt * (p / 2 ^ 13) * (p / 2 ^ 13),
    calib.digP8.toInt * p, p + var1, p + var1 + var2, calib.digP7.toInt * 2 ^ 4,
    exactPressure calib tFine adcP]

def NoOverflow : Prop :=
  (∀ x ∈ divisorSteps calib tFine, Fits 64 x) ∧ ∀ x ∈ pressureSteps calib tFine adcP, Fits 64 x

instance : Decidable (NoOverflow calib tFine adcP) := inferInstanceAs (Decidable (_ ∧ _))

variable {calib} {tFine adcP : BitVec 32}

theorem toInt_fine (h : Fits 64 (tFine.toInt - 128000)) :
    (tFine.signExtend 64 - 128000).toInt = tFine.toInt - 128000 :=
  toInt_sub_of_fits (BitVec.toInt_signExtend_of_le (by decide)) rfl h

theorem toInt_pressureDivisor (h : ∀ x ∈ divisorSteps calib tFine.toInt, Fits 64 x) :
    (pressureDivisor calib tFine).toInt = exactDivisor calib tFine.toInt := by
  simp only [divisorSteps, List.forall_mem_cons] at h
  obtain ⟨ht, htt, hp3, hp2, hp2s, hvar1, hadd, hmul, -⟩ := h
  have t := toInt_fine ht
  have dig (x : BitVec 16) : (x.signExtend 64).toInt = x.toInt :=
    BitVec.toInt_signExtend_of_le (by decide)
  have var1 := toInt_add_of_fits
    (toInt_sshiftRight_eq (n := 8)
      (toInt_mul_of_fits (toInt_mul_of_fits t t htt) (dig calib.digP3) hp3))
    (toInt_shiftLeft_of_fits (toInt_mul_of_fits t (dig calib.digP2) hp2) hp2s) hvar1
  exact toInt_sshiftRight_eq
    (toInt_mul_of_fits (toInt_add_of_fits (by decide) var1 hadd)
      (toInt_setWidth_of_lt (by decide) calib.digP1) hmul)

theorem toInt_compensatePressure (hadc : adcP.toNat < 2 ^ 20)
    (h : NoOverflow calib tFine.toInt adcP.toInt) :
    (compensatePressure calib tFine (pressureDivisor calib tFine) adcP).toInt =
      exactPressure calib tFine.toInt adcP.toInt := by
  obtain ⟨hdiv, h⟩ := h
  have divisor := toInt_pressureDivisor hdiv
  simp only [divisorSteps, List.forall_mem_cons] at hdiv
  obtain ⟨ht, htt, -⟩ := hdiv
  simp only [pressureSteps, List.forall_mem_cons] at h
  obtain ⟨hp6, hp5, hp5s, hadd, hp4, hvar2, hraw, hdiff, hscaled, hp, hp9, hp9s, hp8, hpv, hpvv,
    hp7, hres, -⟩ := h
  have t := toInt_fine ht
  have dig (x : BitVec 16) : (x.signExtend 64).toInt = x.toInt :=
    BitVec.toInt_signExtend_of_le (by decide)
  have var2 := toInt_add_of_fits
    (toInt_add_of_fits (toInt_mul_of_fits (toInt_mul_of_fits t t htt) (dig calib.digP6) hp6)
      (toInt_shiftLeft_of_fits (toInt_mul_of_fits t (dig calib.digP5) hp5) hp5s) hadd)
    (toInt_shiftLeft_of_fits (dig calib.digP4) hp4) hvar2
  have raw : ((1048576 - adcP).signExtend 64).toInt = 1048576 - adcP.toInt := by
    rw [BitVec.toInt_signExtend_of_le (by decide)]
    have hint : adcP.toInt = adcP.toNat := BitVec.toInt_eq_toNat_of_lt (by omega)
    refine toInt_sub_of_fits rfl rfl ?_
    rw [hint]
    constructor <;> norm_num <;> omega
  have p := toInt_sdiv_of_fits
    (toInt_mul_of_fits (toInt_sub_of_fits (toInt_shiftLeft_of_fits raw hraw) var2 hdiff)
      (show (3125 : BitVec 64).toInt = 3125 from rfl) hscaled) divisor hp
  have high := toInt_sshiftRight_eq (n := 13) p
  have var1 := toInt_sshiftRight_eq (n := 25)
    (toInt_mul_of_fits (toInt_mul_of_fits (dig calib.digP9) high hp9) high hp9s)
  have low := toInt_sshiftRight_eq (n := 19) (toInt_mul_of_fits (dig calib.digP8) p hp8)
  exact toInt_add_of_fits
    (toInt_sshiftRight_eq (toInt_add_of_fits (toInt_add_of_fits p var1 hpv) low hpvv))
    (toInt_shiftLeft_of_fits (dig calib.digP7) hp7) hres

end Exact

/-- What turn `i` of the pressure loop adds when its readings start at buffer `k`. -/
def pressureShare (handle : Bme280) (d : ℕ → RxBuf) (k i : ℕ) : BitVec 64 :=
  pressureTurn handle (adcAt d (k + 2 * i))

/-- The sum of the compensated pressures, in 256ths of a pascal. -/
def pressureSum (handle : Bme280) (means : BitVec 16) (d : ℕ → RxBuf) (k : ℕ) : ℤ :=
  ∑ i ∈ range means.toNat, (pressureShare handle d k i).toInt

/-- Readings that the function is specified for: there is one, the divisor is not zero, no
compensated value is negative, and the result fits its word. -/
structure Measurable (handle : Bme280) (means : BitVec 16) (d : ℕ → RxBuf) (k : ℕ) : Prop where
  means_pos : 0 < means.toNat
  divisor_ne : pressureDivisor handle.calib handle.tFine ≠ 0
  nonneg : ∀ i < means.toNat, 0 ≤ (pressureShare handle d k i).toInt
  result_lt : pressureSum handle means d k < 2 ^ 32 * (means.toNat * 26)

theorem means_mul_toNat (means : BitVec 16) :
    (means.setWidth 64 * 26).toNat = means.toNat * 26 := by
  have hmeans := means.isLt
  have h26 : (26 : BitVec 64).toNat = 26 := rfl
  rw [BitVec.toNat_mul, BitVec.toNat_setWidth, h26]
  omega

/-- The result is the quotient of the exact sum, if it fits its word. -/
theorem toNat_bme280GetPressure {env : ℕ → Request → Answer} {handle : Bme280} {means : BitVec 16}
    {adc : ℕ → BitVec 32} {k : ℕ} (hmeans : 0 < means.toNat)
    (hadc : ∀ i, (readAdc handle.i2cAddress 0xF7).value env (k + 2 * i) = adc i)
    (hdivisor : pressureDivisor handle.calib handle.tFine ≠ 0)
    (hnonneg : ∀ i < means.toNat, 0 ≤ (pressureTurn handle (adc i)).toInt)
    (hresult : ∑ i ∈ range means.toNat, (pressureTurn handle (adc i)).toInt <
      2 ^ 32 * (means.toNat * 26)) :
    ∃ S : ℕ, ∑ i ∈ range means.toNat, (pressureTurn handle (adc i)).toInt = S ∧
      ((bme280GetPressure handle means).value env k).toNat = S / (means.toNat * 26) := by
  have hfactor : (means.toNat : ℤ) ≤ 2 ^ 16 := by exact_mod_cast means.isLt.le
  have hsum : ∑ i ∈ range means.toNat, (pressureTurn handle (adc i)).toInt < 2 ^ 64 :=
    calc _ < 2 ^ 32 * (means.toNat * 26 : ℤ) := hresult
      _ ≤ 2 ^ 32 * (2 ^ 16 * 26) := by gcongr
      _ ≤ 2 ^ 64 := by norm_num
  have hexact := SignedWord.toNat_sum_of_nonneg hnonneg hsum
  refine ⟨_, hexact.symm, ?_⟩
  rw [bme280GetPressure, (pressureLoop_runs handle means hadc hdivisor _ 0).1, zero_add,
    BitVec.toNat_setWidth, BitVec.toNat_udiv, means_mul_toNat]
  apply Nat.mod_eq_of_lt
  rw [Nat.div_lt_iff_lt_mul (Nat.mul_pos hmeans (by norm_num))]
  rw [← hexact] at hresult
  exact_mod_cast hresult

/-- The result is the mean in tenths of a pascal, up to one unit, exactly when the mean in 256ths
of a pascal lies between `26 q` and `25.6 (q + 1)` for some `q ≤ 64`, so never above 6.5 Pa. -/
theorem pressure_mean_iff {handle : Bme280} {means : BitVec 16} {d : ℕ → RxBuf} {k : ℕ}
    (h : Measurable handle means d k) (outcome : ℕ → Msg) :
    |(((bme280GetPressure handle means).value (answers outcome d) k).toNat : ℚ) -
        10 * pressureSum handle means d k / (256 * means.toNat)| ≤ 1 ↔
      ∃ q : ℕ, q ≤ 64 ∧ 26 * (means.toNat * q) ≤ pressureSum handle means d k ∧
        10 * pressureSum handle means d k ≤ 256 * (means.toNat * (q + 1)) := by
  have hadc (i : ℕ) : (readAdc handle.i2cAddress 0xF7).value (answers outcome d) (k + 2 * i) =
      adcAt d (k + 2 * i) := value_readAdc _ _
  obtain ⟨S, hS, hvalue⟩ :=
    toNat_bme280GetPressure h.means_pos hadc h.divisor_ne h.nonneg h.result_lt
  have hsum : pressureSum handle means d k = S := hS
  rw [hvalue, hsum, Int.cast_natCast, quotient_near_iff h.means_pos]
  refine exists_congr fun q => and_congr_right fun _ => and_congr ?_ ?_
  · exact_mod_cast Iff.rfl
  · exact_mod_cast Iff.rfl

def faint : Bme280 := ⟨0x77, 128000, { (default : Calib) with digP1 := 65535 }⟩

theorem pressure_mean_faint :
    pressureSum faint 1 (fun _ _ => 0xFF) 0 = 24 ∧
    |(((bme280GetPressure faint 1).value (answers (fun _ => .ok) fun _ _ => 0xFF) 0).toNat : ℚ) -
      10 * pressureSum faint 1 (fun _ _ => 0xFF) 0 / (256 * (1 : BitVec 16).toNat)| ≤ 1 := by
  have h : Measurable faint 1 (fun _ _ => 0xFF) 0 :=
    ⟨by decide, by decide +kernel, by decide +kernel, by decide +kernel⟩
  exact ⟨by decide +kernel, (pressure_mean_iff h fun _ => .ok).mpr ⟨0, by decide +kernel⟩⟩

def ground : Bme280 where
  i2cAddress := 0x77
  tFine := 128422
  calib := { (default : Calib) with
    digP1 := 36477
    digP2 := BitVec.ofInt 16 (-10685)
    digP3 := 3024
    digP4 := 2855
    digP5 := 140
    digP6 := BitVec.ofInt 16 (-7)
    digP7 := 15500
    digP8 := BitVec.ofInt 16 (-14600)
    digP9 := 6000 }

def groundReadings (i : ℕ) : RxBuf := if i % 2 = 0 then pair 0x65 0x5A else pair 0xC0 0

/-- At 100653.2 Pa the result is 99104.7 Pa. -/
theorem pressure_low_on_ground :
    Measurable ground 32 groundReadings 0 ∧
    (∀ i < 32, NoOverflow ground.calib ground.tFine.toInt (adcAt groundReadings (2 * i)).toInt) ∧
    pressureSum ground 32 groundReadings 0 = 32 * 25767233 ∧
    ((bme280GetPressure ground 32).value (answers (fun _ => .ok) groundReadings) 0).toNat =
      991047 ∧
    ¬|(((bme280GetPressure ground 32).value (answers (fun _ => .ok) groundReadings) 0).toNat : ℚ) -
      10 * pressureSum ground 32 groundReadings 0 / (256 * (32 : BitVec 16).toNat)| ≤ 1 := by
  have hsum : pressureSum ground 32 groundReadings 0 = 32 * 25767233 := by decide +kernel
  have hvalue : ((bme280GetPressure ground 32).value
      (answers (fun _ => .ok) groundReadings) 0).toNat = 991047 := by decide +kernel
  refine ⟨⟨by decide, by decide +kernel, by decide +kernel, by decide +kernel⟩,
    by decide +kernel, hsum, hvalue, ?_⟩
  have h32 : (32 : BitVec 16).toNat = 32 := rfl
  rw [hvalue, hsum, h32, abs_le]
  norm_num

end WaferSat.Telemetry
