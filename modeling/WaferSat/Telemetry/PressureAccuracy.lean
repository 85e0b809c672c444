import WaferSat.Telemetry.Accuracy

/-!
How far `BME280_getPressure` is from the formula of the sensor in exact arithmetic. The quotient
carries the error of its divisor, the square of the shifted quotient the largest part of the rest;
for pressures up to 128 kPa a turn of the loop is right up to 10/256 Pa.
-/
namespace WaferSat.Telemetry
open ErrorBound Finset SignedWord

section Ideal

variable (calib : Calib) (t adc : ℚ)

def idealDivisor : ℚ :=
  (2 ^ 47 + t ^ 2 * calib.digP3.toInt / 2 ^ 8 + t * calib.digP2.toInt * 2 ^ 12) *
    calib.digP1.toNat / 2 ^ 33

def idealQuotient : ℚ :=
  ((1048576 - adc) * 2 ^ 31 - (t ^ 2 * calib.digP6.toInt + t * calib.digP5.toInt * 2 ^ 17 +
    calib.digP4.toInt * 2 ^ 35)) * 3125 / idealDivisor calib t

/-- The pressure in pascals, without truncation, for a fine temperature of `t + 128000`. -/
def idealPressure : ℚ :=
  let p := idealQuotient calib t adc
  ((p + calib.digP9.toInt * (p / 2 ^ 13) ^ 2 / 2 ^ 25 + calib.digP8.toInt * p / 2 ^ 19) / 2 ^ 8 +
    calib.digP7.toInt * 2 ^ 4) / 256

end Ideal

/-- No intermediate overflows, the divisor has its usual size and the quotient, in units of
1/65536 Pa, is that of a pressure up to 128 kPa. -/
def PressureFits (calib : Calib) (tFine adcP : ℤ) : Prop :=
  NoOverflow calib tFine adcP ∧ 2 ^ 28 ≤ exactDivisor calib tFine ∧
    |exactQuotient calib tFine adcP| ≤ 2 ^ 33

instance (calib : Calib) (tFine adcP : ℤ) : Decidable (PressureFits calib tFine adcP) :=
  inferInstanceAs (Decidable (_ ∧ _ ∧ _))

variable {calib : Calib} {tFine adcP : ℤ}

theorem near_exactDivisor (calib : Calib) (tFine : ℤ) :
    Near 2 (exactDivisor calib tFine) (idealDivisor calib (tFine - 128000)) := by
  have hp1 : |((calib.digP1.toNat : ℤ) : ℚ)| ≤ 2 ^ 16 := by
    rw [Int.cast_natCast, abs_of_nonneg (by positivity)]
    exact_mod_cast calib.digP1.isLt.le
  have hvar1 := ((near_self ((tFine - 128000) * (tFine - 128000) * calib.digP3.toInt)).shift 8).add
    (near_self ((tFine - 128000) * calib.digP2.toInt * 2 ^ 12))
  have hdivisor := (((near_self (2 ^ 47)).add hvar1).mul_int hp1).shift 33
  have hideal : idealDivisor calib (tFine - 128000) =
      (((2 ^ 47 : ℤ) : ℚ) + ((((tFine - 128000) * (tFine - 128000) * calib.digP3.toInt : ℤ) : ℚ) /
        2 ^ 8 + (((tFine - 128000) * calib.digP2.toInt * 2 ^ 12 : ℤ) : ℚ))) *
      ((calib.digP1.toNat : ℤ) : ℚ) / 2 ^ 33 := by
    rw [idealDivisor]
    push_cast
    ring
  rw [hideal]
  exact hdivisor.mono (by norm_num)

theorem near_exactQuotient (h : PressureFits calib tFine adcP) :
    Near 66 (exactQuotient calib tFine adcP) (idealQuotient calib (tFine - 128000) adcP) := by
  obtain ⟨-, hsize, hp⟩ := h
  have hdivisor := near_exactDivisor calib tFine
  have hlow : (2 ^ 28 - 2 : ℚ) ≤ idealDivisor calib (tFine - 128000) := by
    have hsize' : (2 ^ 28 : ℚ) ≤ exactDivisor calib tFine := by exact_mod_cast hsize
    linarith [(abs_le.mp hdivisor).2]
  have hquotient := hdivisor.quotient (A := 2 ^ 33) (by linarith) (by norm_num) hlow
    (a := ((1048576 - adcP) * 2 ^ 31 - exactVar2 calib tFine) * 3125) (by exact_mod_cast hp)
  have hideal : idealQuotient calib (tFine - 128000) adcP =
      ((((1048576 - adcP) * 2 ^ 31 - exactVar2 calib tFine) * 3125 : ℤ) : ℚ) /
        idealDivisor calib (tFine - 128000) := by
    rw [idealQuotient, exactVar2]
    push_cast
    ring
  rw [hideal]
  exact hquotient.mono (by norm_num)

theorem near_exactPressure (h : PressureFits calib tFine adcP) :
    Near 10 (exactPressure calib tFine adcP)
      (256 * idealPressure calib (tFine - 128000) adcP) := by
  have hp := near_exactQuotient h
  rw [exactPressure, idealPressure]
  have hsize := abs_shift_le (m := 20) (n := 13) h.2.2
  generalize exactQuotient calib tFine adcP = p at hp hsize
  generalize idealQuotient calib (tFine - 128000) adcP = q at hp
  have hhigh := hp.shift 13
  have hvar1 := ((hhigh.mul hhigh hsize (hhigh.size hsize)).mul_int
    (abs_coefficient_le calib.digP9)).shift 25
  have hvar2 := (hp.mul_int (abs_coefficient_le calib.digP8)).shift 19
  have hsum := (((hp.add hvar1).add hvar2).shift 8).add (near_self (calib.digP7.toInt * 2 ^ 4))
  have hturn : (p + calib.digP9.toInt * (p / 2 ^ 13) * (p / 2 ^ 13) / 2 ^ 25 +
      calib.digP8.toInt * p / 2 ^ 19) / 2 ^ 8 + calib.digP7.toInt * 2 ^ 4 =
      (p + p / 2 ^ 13 * (p / 2 ^ 13) * calib.digP9.toInt / 2 ^ 25 +
        p * calib.digP8.toInt / 2 ^ 19) / 2 ^ 8 + calib.digP7.toInt * 2 ^ 4 := by
    rw [mul_assoc calib.digP9.toInt, mul_comm calib.digP9.toInt, mul_comm calib.digP8.toInt]
  have hideal : 256 * (((q + calib.digP9.toInt * (q / 2 ^ 13) ^ 2 / 2 ^ 25 +
      calib.digP8.toInt * q / 2 ^ 19) / 2 ^ 8 + calib.digP7.toInt * 2 ^ 4) / 256) =
      (q + q / 2 ^ 13 * (q / 2 ^ 13) * calib.digP9.toInt / 2 ^ 25 +
        q * calib.digP8.toInt / 2 ^ 19) / 2 ^ 8 + ((calib.digP7.toInt * 2 ^ 4 : ℤ) : ℚ) := by
    push_cast
    ring
  rw [hturn, hideal]
  exact hsum.mono (by norm_num)

theorem exactPressure_lt (h : PressureFits calib tFine adcP) :
    exactPressure calib tFine adcP < 2 ^ 32 := by
  have hp := h.2.2
  rw [exactPressure]
  generalize exactQuotient calib tFine adcP = p at hp
  have hshift : |p / 2 ^ 13| ≤ 2 ^ 20 := by exact_mod_cast abs_shift_le (m := 20) (n := 13) hp
  have hp9 : |calib.digP9.toInt * (p / 2 ^ 13) * (p / 2 ^ 13)| ≤ 2 ^ 15 * 2 ^ 20 * 2 ^ 20 := by
    rw [abs_mul, abs_mul]
    gcongr
    exact abs_toInt_le calib.digP9
  have hp8 : |calib.digP8.toInt * p| ≤ 2 ^ 15 * 2 ^ 33 := by
    rw [abs_mul]
    gcongr
    exact abs_toInt_le calib.digP8
  have hp7 := abs_toInt_le calib.digP7
  rw [abs_le] at hp hp9 hp8 hp7
  generalize calib.digP9.toInt * (p / 2 ^ 13) * (p / 2 ^ 13) = x at hp9
  generalize calib.digP8.toInt * p = y at hp8
  omega

section Mean

variable {env : ℕ → Request → Answer} (handle : Bme280) {means : BitVec 16} {adc : ℕ → BitVec 32}
  {k : ℕ} (hmeans : 0 < means.toNat)
  (hadc : ∀ i, (readAdc handle.i2cAddress 0xF7).value env (k + 2 * i) = adc i)
  (hlt : ∀ i, (adc i).toNat < 2 ^ 20)
  (hfits : ∀ i < means.toNat, PressureFits handle.calib handle.tFine.toInt (adc i).toInt)
  (hnonneg : ∀ i < means.toNat, 0 ≤ exactPressure handle.calib handle.tFine.toInt (adc i).toInt)

include hmeans hadc hlt hfits hnonneg

theorem exists_sum_exactPressure :
    ∃ S : ℕ, ∑ i ∈ range means.toNat,
        exactPressure handle.calib handle.tFine.toInt (adc i).toInt = S ∧
      ((bme280GetPressure handle means).value env k).toNat = S / (means.toNat * 26) := by
  have hturn : ∀ i < means.toNat, (pressureTurn handle (adc i)).toInt =
      exactPressure handle.calib handle.tFine.toInt (adc i).toInt :=
    fun i hi => toInt_compensatePressure (hlt i) (hfits i hi).1
  have hdivisor : pressureDivisor handle.calib handle.tFine ≠ 0 := by
    intro hzero
    have hsize := (hfits 0 hmeans).2.1
    rw [← toInt_pressureDivisor (hfits 0 hmeans).1.1, hzero] at hsize
    exact absurd hsize (by decide)
  have hsum := sum_congr rfl fun i hi => hturn i (mem_range.mp hi)
  have hbound : ∑ i ∈ range means.toNat,
      exactPressure handle.calib handle.tFine.toInt (adc i).toInt ≤ means.toNat * 2 ^ 32 := by
    have hle := sum_le_card_nsmul (range means.toNat) _ _
      fun i hi => (exactPressure_lt (hfits i (mem_range.mp hi))).le
    rwa [card_range, nsmul_eq_mul] at hle
  rw [← hsum] at hbound ⊢
  exact toNat_bme280GetPressure hmeans hadc hdivisor
    (fun i hi => (hnonneg i hi).trans_eq (hturn i hi).symm) (by omega)

theorem bme280GetPressure_near :
    |(((bme280GetPressure handle means).value env k).toNat : ℚ) -
      256 / 26 * ((∑ i ∈ range means.toNat, idealPressure handle.calib
        (handle.tFine.toInt - 128000) (adc i).toInt) / means.toNat)| ≤ 3 / 2 := by
  obtain ⟨S, hS, hvalue⟩ := exists_sum_exactPressure handle hmeans hadc hlt hfits hnonneg
  have hpos : (0 : ℚ) < means.toNat := by exact_mod_cast hmeans
  have hsum := Near.sum fun i hi => near_exactPressure (hfits i (mem_range.mp hi))
  rw [hS, card_range, ← mul_sum] at hsum
  have hmean := hsum.div (d := means.toNat * 26) (by omega)
  have hquotient : ((S / (means.toNat * 26) : ℤ) : ℚ) = ((S / (means.toNat * 26) : ℕ) : ℚ) := by
    norm_cast
  rw [Near, hquotient] at hmean
  push_cast at hmean
  have hideal (x : ℚ) : 256 / 26 * (x / means.toNat) = 256 * x / (means.toNat * 26) := by
    field_simp
  have herror : (means.toNat : ℚ) * 10 / (means.toNat * 26) + 1 ≤ 3 / 2 := by
    rw [mul_div_mul_left _ _ hpos.ne']
    norm_num
  rw [hvalue, hideal]
  exact hmean.trans herror

end Mean

theorem toNat_adcValue (tmp : BitVec 16) (low : BitVec 8) :
    (adcValue tmp low).toNat = tmp.toNat * 16 + low.toNat / 16 := by
  have htmp := tmp.isLt
  have hlow := low.isLt
  have hraw : (tmp.setWidth 32 <<< 8 ||| low.setWidth 32).toNat = tmp.toNat * 256 + low.toNat := by
    rw [BitVec.toNat_or, BitVec.toNat_shiftLeft, BitVec.toNat_setWidth, BitVec.toNat_setWidth,
      Nat.mod_eq_of_lt (a := low.toNat) (by omega), Nat.mod_eq_of_lt (a := tmp.toNat) (by omega),
      Nat.mod_eq_of_lt (by omega), ← Nat.shiftLeft_add_eq_or_of_lt hlow, Nat.shiftLeft_eq]
  rw [adcValue, BitVec.sshiftRight_eq_of_msb_false, BitVec.toNat_ushiftRight, hraw,
    Nat.shiftRight_eq_div_pow]
  · omega
  · rw [BitVec.msb_eq_false_iff_two_mul_lt]
    omega

theorem adcValue_lt (tmp : BitVec 16) (low : BitVec 8) : (adcValue tmp low).toNat < 2 ^ 20 := by
  have htmp := tmp.isLt
  have hlow := low.isLt
  rw [toNat_adcValue]
  omega

/-- The result of `BME280_getPressure` is the mean of the exact pressures in units of 26/256 Pa, up
to one and a half. -/
theorem bme280GetPressure_accurate {handle : Bme280} {means : BitVec 16} {d : ℕ → RxBuf} {k : ℕ}
    (hmeans : 0 < means.toNat)
    (hfits : ∀ i < means.toNat,
      PressureFits handle.calib handle.tFine.toInt (adcAt d (k + 2 * i)).toInt)
    (hnonneg : ∀ i < means.toNat,
      0 ≤ exactPressure handle.calib handle.tFine.toInt (adcAt d (k + 2 * i)).toInt)
    (outcome : ℕ → Msg) :
    |(((bme280GetPressure handle means).value (answers outcome d) k).toNat : ℚ) -
      256 / 26 * ((∑ i ∈ range means.toNat, idealPressure handle.calib
        (handle.tFine.toInt - 128000) (adcAt d (k + 2 * i)).toInt) / means.toNat)| ≤ 3 / 2 :=
  bme280GetPressure_near handle hmeans (fun _ => value_readAdc _ _) (fun _ => adcValue_lt _ _) hfits
    hnonneg

theorem bme280GetPressure_accurate_ground :
    ((bme280GetPressure ground 32).value (answers (fun _ => .ok) groundReadings) 0).toNat =
      991047 ∧
    |(991047 : ℚ) - 256 / 26 * ((∑ i ∈ range 32, idealPressure ground.calib
      (ground.tFine.toInt - 128000) (adcAt groundReadings (0 + 2 * i)).toInt) / 32)| ≤ 3 / 2 := by
  have hvalue : ((bme280GetPressure ground 32).value
      (answers (fun _ => .ok) groundReadings) 0).toNat = 991047 := by decide +kernel
  have hmeans : 0 < (32 : BitVec 16).toNat := by decide
  have hfits : ∀ i < (32 : BitVec 16).toNat, PressureFits ground.calib ground.tFine.toInt
      (adcAt groundReadings (0 + 2 * i)).toInt := by decide +kernel
  have haccurate := bme280GetPressure_accurate hmeans hfits (by decide +kernel) fun _ => .ok
  rw [hvalue] at haccurate
  exact ⟨hvalue, haccurate⟩

end WaferSat.Telemetry
