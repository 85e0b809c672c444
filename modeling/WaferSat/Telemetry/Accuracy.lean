import WaferSat.Foundation.ErrorBound
import WaferSat.Telemetry.Pressure
import Mathlib.Tactic.NormNum

/-!
How far the integer compensation of `BME280_getTemperature` and `BME280_getHumidity` is from the
formula of the sensor in exact arithmetic. Every shift to the right truncates; as long as nothing
overflows, the errors add up to less than two hundredths of a degree and to 1.3 percent.
-/
namespace WaferSat.Telemetry
open ErrorBound SignedWord

section Temperature

/-- The fine temperature of the sensor, in units of 1/5120 degree, without truncation. -/
def idealFine (calib : Calib) (adc : ℚ) : ℚ :=
  (adc / 16384 - calib.digT1.toNat / 1024) * calib.digT2.toInt +
    (adc / 131072 - calib.digT1.toNat / 8192) ^ 2 * calib.digT3.toInt

/-- Degrees Celsius. -/
def idealTemperature (calib : Calib) (adc : ℚ) : ℚ := idealFine calib adc / 5120

variable (calib : Calib) (adc : ℤ)

def exactVar1 : ℤ := (adc / 2 ^ 3 - calib.digT1.toNat * 2 ^ 1) * calib.digT2.toInt / 2 ^ 11

def exactFineVar2 : ℤ :=
  let t := adc / 2 ^ 4 - calib.digT1.toNat
  t * t / 2 ^ 12 * calib.digT3.toInt / 2 ^ 14

def exactFine : ℤ := exactVar1 calib adc + exactFineVar2 calib adc

/-- What the source computes on the way to the temperature, but for the shifts to the right. -/
def temperatureSteps : List ℤ :=
  let s := adc / 2 ^ 3 - calib.digT1.toNat * 2 ^ 1
  let t := adc / 2 ^ 4 - calib.digT1.toNat
  [calib.digT1.toNat * 2 ^ 1, s, s * calib.digT2.toInt, t, t * t,
    t * t / 2 ^ 12 * calib.digT3.toInt, exactFine calib adc, exactFine calib adc * 5,
    exactFine calib adc * 5 + 2 ^ 7]

def TemperatureFits : Prop := ∀ x ∈ temperatureSteps calib adc, Fits 32 x

instance : Decidable (TemperatureFits calib adc) := inferInstanceAs (Decidable (∀ x ∈ _, _))

variable {calib adc}

/-- The hundredths of a degree then fit their word: the two products have 32 bits each. -/
theorem TemperatureFits.centi (h : TemperatureFits calib adc) :
    Fits 16 ((exactFine calib adc * 5 + 2 ^ 7) / 2 ^ 8) := by
  simp only [TemperatureFits, temperatureSteps, List.forall_mem_cons] at h
  obtain ⟨-, -, ⟨hlow1, hhigh1⟩, -, -, ⟨hlow2, hhigh2⟩, -⟩ := h
  have hfine : exactFine calib adc = exactVar1 calib adc + exactFineVar2 calib adc := rfl
  rw [hfine, exactVar1, exactFineVar2, Fits]
  norm_num at hlow1 hhigh1 hlow2 hhigh2 ⊢
  omega

theorem toInt_fineTemperature {adcT : BitVec 32} (h : TemperatureFits calib adcT.toInt) :
    (fineTemperature calib adcT).toInt = exactFine calib adcT.toInt := by
  simp only [TemperatureFits, temperatureSteps, List.forall_mem_cons] at h
  obtain ⟨hdouble, hs, hst, ht, htt, htt3, hfine, -⟩ := h
  have t1 := toInt_setWidth_of_lt (w := 32) (by decide) calib.digT1
  have dig (x : BitVec 16) : (x.signExtend 32).toInt = x.toInt :=
    BitVec.toInt_signExtend_of_le (by decide)
  have s := toInt_sub_of_fits (toInt_sshiftRight_eq (n := 3) rfl)
    (toInt_shiftLeft_of_fits t1 hdouble) hs
  have t := toInt_sub_of_fits (toInt_sshiftRight_eq (n := 4) rfl) t1 ht
  have var1 := toInt_sshiftRight_eq (n := 11) (toInt_mul_of_fits s (dig calib.digT2) hst)
  have var2 := toInt_sshiftRight_eq (n := 14) (toInt_mul_of_fits
    (toInt_sshiftRight_eq (n := 12) (toInt_mul_of_fits t t htt)) (dig calib.digT3) htt3)
  exact toInt_add_of_fits var1 var2 hfine

theorem toInt_centiDegrees {adcT : BitVec 32} (h : TemperatureFits calib adcT.toInt) :
    (centiDegrees (fineTemperature calib adcT)).toInt =
      (exactFine calib adcT.toInt * 5 + 2 ^ 7) / 2 ^ 8 := by
  have hfine := toInt_fineTemperature h
  have hcenti := h.centi
  simp only [TemperatureFits, temperatureSteps, List.forall_mem_cons] at h
  obtain ⟨-, -, -, -, -, -, -, hfive, hround, -⟩ := h
  have hword := toInt_sshiftRight_eq (n := 8) (toInt_add_of_fits
    (toInt_mul_of_fits hfine (show (5 : BitVec 32).toInt = 5 from rfl) hfive)
    (show (128 : BitVec 32).toInt = 2 ^ 7 from rfl) hround)
  exact toInt_setWidth_of_fits (by decide) hword hcenti

theorem abs_coefficient_le {w : ℕ} (x : BitVec (w + 1)) : |(x.toInt : ℚ)| ≤ 2 ^ w := by
  exact_mod_cast abs_toInt_le x

theorem near_exactVar1 (calib : Calib) (adc : ℤ) :
    Near 17 (exactVar1 calib adc)
      ((adc / 16384 - calib.digT1.toNat / 1024) * calib.digT2.toInt) := by
  have hs := ((near_self adc).shift 3).sub (near_self (calib.digT1.toNat * 2 ^ 1))
  have hvar1 := (hs.mul_int (abs_coefficient_le calib.digT2)).shift 11
  have hideal : ((adc : ℚ) / 2 ^ 3 - ((calib.digT1.toNat * 2 ^ 1 : ℤ) : ℚ)) *
      (calib.digT2.toInt : ℚ) / 2 ^ 11 =
      (adc / 16384 - calib.digT1.toNat / 1024) * calib.digT2.toInt := by
    push_cast
    ring
  rw [hideal] at hvar1
  exact hvar1.mono (by norm_num)

theorem near_exactFineVar2
    (h : Fits 32 ((adc / 2 ^ 4 - calib.digT1.toNat) * (adc / 2 ^ 4 - calib.digT1.toNat))) :
    Near 49 (exactFineVar2 calib adc)
      ((adc / 131072 - calib.digT1.toNat / 8192) ^ 2 * calib.digT3.toInt) := by
  have ht := ((near_self adc).shift 4).sub (near_self (calib.digT1.toNat : ℤ))
  have hsize : |((adc / 2 ^ 4 - calib.digT1.toNat : ℤ) : ℚ)| ≤ 46340 := by
    have hsq := h.2
    generalize adc / 2 ^ 4 - (calib.digT1.toNat : ℤ) = t at hsq
    have hsq' : t ^ 2 < 46341 ^ 2 := by
      rw [sq]
      exact hsq.trans (by norm_num)
    exact_mod_cast Int.lt_add_one_iff.mp (abs_lt_of_sq_lt_sq hsq' (by norm_num))
  have hvar2 := (((ht.mul ht hsize (ht.size hsize)).shift 12).mul_int
    (abs_coefficient_le calib.digT3)).shift 14
  have hideal : ((adc : ℚ) / 2 ^ 4 - ((calib.digT1.toNat : ℤ) : ℚ)) *
      ((adc : ℚ) / 2 ^ 4 - ((calib.digT1.toNat : ℤ) : ℚ)) / 2 ^ 12 *
      (calib.digT3.toInt : ℚ) / 2 ^ 14 =
      (adc / 131072 - calib.digT1.toNat / 8192) ^ 2 * calib.digT3.toInt := by
    push_cast
    ring
  rw [hideal] at hvar2
  exact hvar2.mono (by norm_num)

theorem near_exactFine (h : TemperatureFits calib adc) :
    Near 66 (exactFine calib adc) (idealFine calib adc) := by
  simp only [TemperatureFits, temperatureSteps, List.forall_mem_cons] at h
  obtain ⟨-, -, -, -, htt, -⟩ := h
  exact ((near_exactVar1 calib adc).add (near_exactFineVar2 htt)).mono (by norm_num)

theorem near_centiDegrees (h : TemperatureFits calib adc) :
    Near 2 ((exactFine calib adc * 5 + 2 ^ 7) / 2 ^ 8) (100 * idealTemperature calib adc) := by
  have hround := ((near_exactFine h).mul_int (b := 5) (B := 5) (by norm_num)).round 7
  have hideal : idealFine calib adc * ((5 : ℤ) : ℚ) / 2 ^ (7 + 1) =
      100 * idealTemperature calib adc := by
    rw [idealTemperature]
    push_cast
    ring
  rw [hideal] at hround
  exact hround.mono (by norm_num)

/-- The hundredths of a degree that `BME280_getTemperature` returns are those of the formula up to
two, and the fine temperature it leaves for the other readings is right up to 66 of 5120 units to
the degree. -/
theorem bme280GetTemperature_accurate {handle : Bme280} {d : ℕ → RxBuf} {k : ℕ}
    (h : TemperatureFits handle.calib (adcAt d k).toInt) (outcome : ℕ → Msg) :
    let r := (bme280GetTemperature handle).value (answers outcome d) k
    |(r.2.toInt : ℚ) - 100 * idealTemperature handle.calib (adcAt d k).toInt| ≤ 2 ∧
    |(r.1.tFine.toInt : ℚ) - idealFine handle.calib (adcAt d k).toInt| ≤ 66 := by
  have hvalue : (bme280GetTemperature handle).value (answers outcome d) k =
      ({ handle with tFine := fineTemperature handle.calib (adcAt d k) },
        centiDegrees (fineTemperature handle.calib (adcAt d k))) := rfl
  rw [hvalue]
  dsimp only
  rw [toInt_centiDegrees h, toInt_fineTemperature h]
  exact ⟨near_centiDegrees h, near_exactFine h⟩

/-- A converter value of 519895 on a chip with usual coefficients: 25.08 degrees. -/
theorem bme280GetTemperature_accurate_indoor :
    let handle : Bme280 := ⟨0x77, 0, { (default : Calib) with
      digT1 := 27504, digT2 := 26435, digT3 := BitVec.ofInt 16 (-1000) }⟩
    let d : ℕ → RxBuf := fun _ => pair 0x7E 0xED
    ((bme280GetTemperature handle).value (answers (fun _ => .ok) d) 0).2 = 2508 ∧
    |(2508 : ℚ) - 100 * idealTemperature handle.calib (adcAt d 0).toInt| ≤ 2 := by
  intro handle d
  have hvalue : ((bme280GetTemperature handle).value (answers (fun _ => .ok) d) 0).2 = 2508 := by
    decide +kernel
  have h : TemperatureFits handle.calib (adcAt d 0).toInt := by decide +kernel
  have haccurate := (bme280GetTemperature_accurate h fun _ => .ok).1
  rw [hvalue] at haccurate
  exact ⟨hvalue, haccurate⟩

end Temperature

section Humidity

/-- The relative humidity of the sensor in percent, without truncation. -/
def idealHumidity (calib : Calib) (tFine adc : ℚ) : ℚ :=
  let x := tFine - 76800
  let raw := (adc - (calib.digH4.toInt * 64 + calib.digH5.toInt / 16384 * x)) *
    (calib.digH2.toInt / 65536 * (1 + calib.digH6.toInt / 67108864 * x *
      (1 + calib.digH3.toNat / 67108864 * x)))
  min (max (raw * (1 - calib.digH1.toNat * raw / 524288)) 0) 100

variable (calib : Calib) (tFine adc : ℤ)

/-- The humidity signal, less the offset of the chip. -/
def exactSignal : ℤ :=
  (adc * 2 ^ 14 - calib.digH4.toInt * 2 ^ 20 - calib.digH5.toInt * (tFine - 76800) + 2 ^ 14) /
    2 ^ 15

def exactThermal : ℤ :=
  (tFine - 76800) * calib.digH6.toInt / 2 ^ 10 *
    ((tFine - 76800) * calib.digH3.toNat / 2 ^ 11 + 32768)

/-- The sensitivity of the chip at the temperature. -/
def exactGain : ℤ :=
  ((exactThermal calib tFine / 2 ^ 10 + 2097152) * calib.digH2.toInt + 2 ^ 13) / 2 ^ 14

def exactProduct : ℤ := exactSignal calib tFine adc * exactGain calib tFine

/-- The product with its quadratic correction, in units of `2 ^ (-22)` percent. -/
def exactCorrected : ℤ :=
  let v := exactProduct calib tFine adc
  v - v / 2 ^ 15 * (v / 2 ^ 15) / 2 ^ 7 * calib.digH1.toNat / 2 ^ 4

/-- What the source computes on the way to the humidity, but for the shifts to the right. -/
def humiditySteps : List ℤ :=
  let x := tFine - 76800
  let q := x * calib.digH3.toNat / 2 ^ 11
  let r := exactThermal calib tFine / 2 ^ 10 + 2097152
  let v := exactProduct calib tFine adc
  let w := v / 2 ^ 15
  [x, adc * 2 ^ 14, calib.digH4.toInt * 2 ^ 20, adc * 2 ^ 14 - calib.digH4.toInt * 2 ^ 20,
    calib.digH5.toInt * x, adc * 2 ^ 14 - calib.digH4.toInt * 2 ^ 20 - calib.digH5.toInt * x,
    adc * 2 ^ 14 - calib.digH4.toInt * 2 ^ 20 - calib.digH5.toInt * x + 2 ^ 14,
    x * calib.digH6.toInt, x * calib.digH3.toNat, q + 32768, exactThermal calib tFine, r,
    r * calib.digH2.toInt, r * calib.digH2.toInt + 2 ^ 13, v, w * w,
    w * w / 2 ^ 7 * calib.digH1.toNat, exactCorrected calib tFine adc]

/-- No 32-bit intermediate overflows, the temperature is within 102.4 degrees of 15 and the
sensitivity of the chip in the usual range. -/
structure HumidityFits : Prop where
  steps : ∀ x ∈ humiditySteps calib tFine adc, Fits 32 x
  temperature : |tFine - 76800| ≤ 2 ^ 19
  sensitivity : |calib.digH2.toInt| ≤ 1024

variable {calib} {tFine adc : BitVec 32}

theorem toInt_limit {v : BitVec 32} {a : ℤ} (hv : v.toInt = a) :
    (if BitVec.slt 419430400 (if v.slt 0 then 0 else v) then (419430400 : BitVec 32)
      else if v.slt 0 then 0 else v).toInt = min (max a 0) 419430400 := by
  have hlow : (if v.slt 0 then 0 else v).toInt = max a 0 := by
    split_ifs with hneg
    · rw [BitVec.slt_iff_toInt_lt, hv] at hneg
      exact (max_eq_right hneg.le).symm
    · rw [BitVec.slt_iff_toInt_lt, hv, not_lt] at hneg
      rw [hv]
      exact (max_eq_left hneg).symm
  generalize (if v.slt 0 then 0 else v) = u at hlow ⊢
  have hlimit : (419430400 : BitVec 32).toInt = 419430400 := rfl
  split_ifs with hhigh
  · rw [BitVec.slt_iff_toInt_lt, hlow, hlimit] at hhigh
    rw [hlimit]
    exact (min_eq_right hhigh.le).symm
  · rw [BitVec.slt_iff_toInt_lt, hlow, hlimit, not_lt] at hhigh
    rw [hlow]
    exact (min_eq_left hhigh).symm

theorem toNat_percent {z : BitVec 32} {a : ℤ} (hz : z.toInt = a) (hlow : 0 ≤ a)
    (hhigh : a ≤ 102400) : (((z / 1020).setWidth 8).toNat : ℤ) = a / 1020 := by
  have hnat : (z.toNat : ℤ) = a := by
    rw [← hz, BitVec.toInt_eq_toNat_of_msb]
    rw [BitVec.msb_eq_toInt, hz]
    exact decide_eq_false hlow.not_gt
  have hquot : (z / 1020).toNat = z.toNat / 1020 := BitVec.toNat_udiv
  rw [BitVec.toNat_setWidth, hquot, ← hnat]
  omega

theorem toNat_relativeHumidity (h : HumidityFits calib tFine.toInt adc.toInt) :
    ((relativeHumidity calib tFine adc).toNat : ℤ) =
      min (max (exactCorrected calib tFine.toInt adc.toInt) 0) 419430400 / 2 ^ 12 / 1020 := by
  have hsteps := h.steps
  simp only [humiditySteps, List.forall_mem_cons] at hsteps
  obtain ⟨hx, hadc, hh4, hdiff, hh5, hdiff', hsignal, hh6, hh3, hq, hthermal, hr, hrh, hrh', hv,
    hww, hwwh, hu, -⟩ := hsteps
  have dig {w : ℕ} (hw : w ≤ 32) (x : BitVec w) : (x.signExtend 32).toInt = x.toInt :=
    BitVec.toInt_signExtend_of_le hw
  have x := toInt_sub_of_fits (x := tFine) rfl (show (76800 : BitVec 32).toInt = 76800 from rfl) hx
  have signal := toInt_sshiftRight_eq (n := 15) (toInt_add_of_fits
    (toInt_sub_of_fits (toInt_sub_of_fits (toInt_shiftLeft_of_fits (x := adc) rfl hadc)
      (toInt_shiftLeft_of_fits (dig (by decide) calib.digH4) hh4) hdiff)
      (toInt_mul_of_fits (dig (by decide) calib.digH5) x hh5) hdiff')
    (show (16384 : BitVec 32).toInt = 2 ^ 14 from rfl) hsignal)
  have thermal := toInt_mul_of_fits
    (toInt_sshiftRight_eq (n := 10) (toInt_mul_of_fits x (dig (by decide) calib.digH6) hh6))
    (toInt_add_of_fits (toInt_sshiftRight_eq (n := 11)
      (toInt_mul_of_fits x (toInt_setWidth_of_lt (by decide) calib.digH3) hh3))
      (show (32768 : BitVec 32).toInt = 32768 from rfl) hq) hthermal
  have gain := toInt_sshiftRight_eq (n := 14) (toInt_add_of_fits (toInt_mul_of_fits
    (toInt_add_of_fits (toInt_sshiftRight_eq (n := 10) thermal)
      (show (2097152 : BitVec 32).toInt = 2097152 from rfl) hr)
    (dig (by decide) calib.digH2) hrh) (show (8192 : BitVec 32).toInt = 2 ^ 13 from rfl) hrh')
  have product := toInt_mul_of_fits signal gain hv
  have w := toInt_sshiftRight_eq (n := 15) product
  have corrected := toInt_sub_of_fits product (toInt_sshiftRight_eq (n := 4) (toInt_mul_of_fits
    (toInt_sshiftRight_eq (n := 7) (toInt_mul_of_fits w w hww))
    (toInt_setWidth_of_lt (by decide) calib.digH1) hwwh)) hu
  exact toNat_percent (toInt_sshiftRight_eq (n := 12) (toInt_limit corrected))
    (Int.ediv_nonneg (le_min (le_max_right _ _) (by decide)) (by decide))
    (Int.ediv_le_ediv (by decide) (min_le_right _ _))

variable {tFine adc : ℤ}

def idealThermal (calib : Calib) (x : ℚ) : ℚ :=
  x * calib.digH6.toInt / 2 ^ 10 * (x * calib.digH3.toNat / 2 ^ 11 + 32768)

theorem near_exactThermal (calib : Calib) (h : |tFine - 76800| ≤ 2 ^ 19) :
    Near 163584 (exactThermal calib tFine) (idealThermal calib (tFine - 76800)) := by
  have hp := (near_self ((tFine - 76800) * calib.digH6.toInt)).shift 10
  have hq := ((near_self ((tFine - 76800) * calib.digH3.toNat)).shift 11).add (near_self 32768)
  have hh3 : calib.digH3.toNat ≤ 255 := Nat.lt_succ_iff.mp calib.digH3.isLt
  have hsize : |(((tFine - 76800) * calib.digH6.toInt / 2 ^ 10 : ℤ) : ℚ)| ≤ 2 ^ 16 := by
    apply abs_shift_le
    rw [abs_mul]
    exact mul_le_mul h (abs_toInt_le calib.digH6) (abs_nonneg _) (by norm_num)
  have hfactor : |(((tFine - 76800) * calib.digH3.toNat : ℤ) : ℚ) / 2 ^ 11 + (32768 : ℤ)| ≤
      98048 := by
    have hprod : |(tFine - 76800) * calib.digH3.toNat| ≤ 2 ^ 19 * 255 := by
      rw [abs_mul, Nat.abs_cast]
      exact mul_le_mul h (by exact_mod_cast hh3) (by positivity) (by norm_num)
    have hprod' : |(((tFine - 76800) * calib.digH3.toNat : ℤ) : ℚ)| ≤ 2 ^ 19 * 255 := by
      exact_mod_cast hprod
    rw [abs_le] at hprod' ⊢
    push_cast at hprod' ⊢
    constructor
    · linarith [hprod'.1]
    · linarith [hprod'.2]
  have hthermal := hp.mul hq hsize hfactor
  push_cast at hthermal
  exact hthermal.mono (by norm_num)

def idealGain (calib : Calib) (x : ℚ) : ℚ :=
  (idealThermal calib x / 2 ^ 10 + 2097152) * calib.digH2.toInt / 2 ^ 14

theorem near_exactGain (h : |tFine - 76800| ≤ 2 ^ 19) (hh2 : |calib.digH2.toInt| ≤ 1024) :
    Near 11 (exactGain calib tFine) (idealGain calib (tFine - 76800)) := by
  have hr := ((near_exactThermal calib h).shift 10).add (near_self 2097152)
  have hgain := (hr.mul_int (b := calib.digH2.toInt) (B := 1024) (by exact_mod_cast hh2)).round 13
  push_cast at hgain
  exact hgain.mono (by norm_num)

def idealSignal (calib : Calib) (x adc : ℚ) : ℚ :=
  (adc * 2 ^ 14 - calib.digH4.toInt * 2 ^ 20 - calib.digH5.toInt * x) / 2 ^ 15

theorem near_exactSignal (calib : Calib) (tFine adc : ℤ) :
    Near (1 / 2) (exactSignal calib tFine adc) (idealSignal calib (tFine - 76800) adc) := by
  have hsignal := (near_self
    (adc * 2 ^ 14 - calib.digH4.toInt * 2 ^ 20 - calib.digH5.toInt * (tFine - 76800))).round 14
  push_cast at hsignal
  exact hsignal.mono (by norm_num)

theorem near_exactProduct (h : HumidityFits calib tFine adc) :
    Near 786438 (exactProduct calib tFine adc)
      (idealSignal calib (tFine - 76800) adc * idealGain calib (tFine - 76800)) := by
  have hsteps := h.steps
  simp only [humiditySteps, List.forall_mem_cons] at hsteps
  obtain ⟨-, -, -, -, -, -, hsignal, -, -, -, -, -, -, hgain, -⟩ := hsteps
  have hA : |(exactSignal calib tFine adc : ℚ)| ≤ 2 ^ 16 := abs_shift_le hsignal.size
  have hB : |(exactGain calib tFine : ℚ)| ≤ 2 ^ 17 := abs_shift_le hgain.size
  have hnear := near_exactGain h.temperature h.sensitivity
  exact ((near_exactSignal calib tFine adc).mul hnear hA (hnear.size hB)).mono (by norm_num)

def idealCorrected (calib : Calib) (v : ℚ) : ℚ :=
  v - v / 2 ^ 15 * (v / 2 ^ 15) / 2 ^ 7 * calib.digH1.toNat / 2 ^ 4

theorem near_exactCorrected (h : HumidityFits calib tFine adc) :
    Near 1194600 (exactCorrected calib tFine adc)
      (idealCorrected calib
        (idealSignal calib (tFine - 76800) adc * idealGain calib (tFine - 76800))) := by
  have hsteps := h.steps
  simp only [humiditySteps, List.forall_mem_cons] at hsteps
  obtain ⟨-, -, -, -, -, -, -, -, -, -, -, -, -, -, hv, -⟩ := hsteps
  have hh1 : |((calib.digH1.toNat : ℤ) : ℚ)| ≤ 255 := by
    rw [Int.cast_natCast, Nat.abs_cast]
    exact_mod_cast Nat.lt_succ_iff.mp calib.digH1.isLt
  have hproduct := near_exactProduct h
  have hw := hproduct.shift 15
  have hsize : |((exactProduct calib tFine adc / 2 ^ 15 : ℤ) : ℚ)| ≤ 2 ^ 16 :=
    abs_shift_le hv.size
  have hcorrection := (((hw.mul hw hsize (hw.size hsize)).shift 7).mul_int hh1).shift 4
  exact (hproduct.sub hcorrection).mono (by norm_num)

/-- The two formulas agree: the source works in units of `2 ^ (-22)` percent. -/
theorem idealHumidity_eq (calib : Calib) (tFine adc : ℚ) :
    2 ^ 22 * idealHumidity calib tFine adc = min (max (idealCorrected calib
      (idealSignal calib (tFine - 76800) adc * idealGain calib (tFine - 76800))) 0) 419430400 := by
  rw [idealHumidity, mul_min_of_nonneg _ _ (by positivity), mul_max_of_nonneg _ _ (by positivity)]
  congr 2
  · rw [idealCorrected, idealSignal, idealGain, idealThermal]
    ring
  · ring
  · norm_num

/-- A percent is 1024 units; the source divides by 1020 and truncates. -/
theorem percent_near {a : ℤ} {n : ℕ} {y : ℚ} (h : Near 293 a (2 ^ 22 * y / 2 ^ 12))
    (hn : (n : ℤ) = a / 1020) (hlow : 0 ≤ a) (hhigh : a ≤ 102400) :
    |(n : ℚ) - y| ≤ 13 / 10 := by
  obtain ⟨hle, hlt⟩ := div_bounds a (d := 1020) (by norm_num)
  rw [← hn] at hle hlt
  push_cast at hle hlt
  have hlow' : (0 : ℚ) ≤ a := by exact_mod_cast hlow
  have hhigh' : (a : ℚ) ≤ 102400 := by exact_mod_cast hhigh
  have hnear := abs_le.mp h
  rw [abs_le]
  constructor
  · linarith [hnear.2]
  · linarith [hnear.1]

theorem relativeHumidity_near {tFine : BitVec 32} {adc : BitVec 16}
    (h : HumidityFits calib tFine.toInt adc.toNat) :
    |((relativeHumidity calib tFine (adc.setWidth 32)).toNat : ℚ) -
      idealHumidity calib tFine.toInt adc.toNat| ≤ 13 / 10 := by
  have hadc := toInt_setWidth_of_lt (w := 32) (by decide) adc
  have hnat := toNat_relativeHumidity (hadc.symm ▸ h)
  rw [hadc] at hnat
  have hlimited := ((near_exactCorrected h).clamp 0 419430400).shift 12
  push_cast at hlimited
  rw [← idealHumidity_eq] at hlimited
  exact percent_near (hlimited.mono (by norm_num)) hnat
    (Int.ediv_nonneg (le_min (le_max_right _ _) (by decide)) (by decide))
    (Int.ediv_le_ediv (by decide) (min_le_right _ _))

/-- For every chip of usual sensitivity the humidity that `BME280_getHumidity` returns is the one of
the formula, limited to 0 to 100 percent, up to 1.3 percent. -/
theorem bme280GetHumidity_accurate {handle : Bme280} {d : ℕ → RxBuf} {k : ℕ}
    (h : HumidityFits handle.calib handle.tFine.toInt (wordBE (d k)).toNat) (outcome : ℕ → Msg) :
    |(((bme280GetHumidity handle).value (answers outcome d) k).toNat : ℚ) -
      idealHumidity handle.calib handle.tFine.toInt (wordBE (d k)).toNat| ≤ 13 / 10 := by
  have hvalue : (bme280GetHumidity handle).value (answers outcome d) k =
      relativeHumidity handle.calib handle.tFine ((wordBE (d k)).setWidth 32) := rfl
  rw [hvalue]
  exact relativeHumidity_near h

/-- A chip with usual coefficients at 25.08 degrees, where the formula gives 41.99 percent. -/
theorem bme280GetHumidity_accurate_indoor :
    let handle : Bme280 := ⟨0x77, 128422, { (default : Calib) with
      digH1 := 75, digH2 := 366, digH4 := 306, digH5 := 50, digH6 := 30 }⟩
    let d : ℕ → RxBuf := fun _ => pair 0x6A 0x00
    ((bme280GetHumidity handle).value (answers (fun _ => .ok) d) 0).toNat = 42 ∧
    |(42 : ℚ) - idealHumidity handle.calib handle.tFine.toInt (wordBE (d 0)).toNat| ≤ 13 / 10 := by
  intro handle d
  have hvalue : ((bme280GetHumidity handle).value (answers (fun _ => .ok) d) 0).toNat = 42 := by
    decide +kernel
  have h : HumidityFits handle.calib handle.tFine.toInt (wordBE (d 0)).toNat :=
    ⟨by decide +kernel, by decide +kernel, by decide +kernel⟩
  have haccurate := bme280GetHumidity_accurate h fun _ => .ok
  rw [hvalue] at haccurate
  exact ⟨hvalue, haccurate⟩

end Humidity

end WaferSat.Telemetry
