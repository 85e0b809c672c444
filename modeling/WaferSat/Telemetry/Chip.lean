import WaferSat.Telemetry.Calibration
import WaferSat.Telemetry.Failures
import WaferSat.Telemetry.PressureAccuracy

/-!
From the registers of two BME280 to the fields of the data point. The drivers read the coefficients
and the converters byte by byte, decode them, compensate, and average; what arrives is what the
formulas of the sensor give for the registers, up to the truncation, but for the fifth humidity
coefficient.
-/
namespace WaferSat.Telemetry
open ErrorBound SignedWord Dialog

variable {env : ℕ → Request → Answer} {address : BitVec 8} {r : BitVec 8 → BitVec 8} {c : Calib}
variable {n : ℕ}

/-- The value of a 20-bit converter. -/
def converter (r : BitVec 8 → BitVec 8) (reg : BitVec 8) : ℕ :=
  (r reg).toNat * 4096 + (r (reg + 1)).toNat * 16 + (r (reg + 2)).toNat / 16

/-- The word with its high byte first, as the humidity converter has it. -/
def highWord (r : BitVec 8 → BitVec 8) (reg : BitVec 8) : BitVec 16 := r reg ++ r (reg + 1)

theorem wordBE_eq (b : RxBuf) : wordBE b = (b 0 ++ b 1 : BitVec 16) := by
  unfold wordBE
  ext i hi
  simp only [BitVec.getElem_or, BitVec.getElem_shiftLeft, BitVec.getElem_setWidth]
  grind

theorem value_i2cRead16 (h : HoldsRegisters env address r) (reg : BitVec 8) :
    (i2cRead16 address reg).value env n = (true, highWord r reg) := by
  obtain ⟨hok, hbytes⟩ := h n reg 2
  have hread : (i2cRead16 address reg).value env n =
      ((env n ⟨address, [reg], 2⟩).status == .ok,
        wordBE (env n ⟨address, [reg], 2⟩).rxbuf) := rfl
  rw [hread, hok, wordBE_eq, hbytes 0 (by decide), hbytes 1 (by decide), BitVec.add_zero]
  rfl

theorem exists_value_readAdc (h : HoldsRegisters env address r) (reg : BitVec 8) :
    ∃ adc : BitVec 32, (∀ n, (readAdc address reg).value env n = adc) ∧
      adc.toInt = converter r reg ∧ adc.toNat < 2 ^ 20 := by
  refine ⟨adcValue (highWord r reg) (r (reg + 2)), fun n => ?_, ?_⟩
  · simp only [readAdc, value_bind, value_i2cRead16 h, value_i2cRead8 h, value_pure]
  · have hword : (highWord r reg).toNat = (r reg).toNat * 256 + (r (reg + 1)).toNat := by
      rw [highWord, BitVec.toNat_append, ← Nat.shiftLeft_add_eq_or_of_lt (r (reg + 1)).isLt,
        Nat.shiftLeft_eq]
    have hconverter : (adcValue (highWord r reg) (r (reg + 2))).toNat = converter r reg := by
      rw [toNat_adcValue, hword, converter]
      ring
    have hlt := adcValue_lt (highWord r reg) (r (reg + 2))
    refine ⟨?_, hlt⟩
    rw [BitVec.toInt_eq_toNat_of_lt (by omega), hconverter]

/-- The fifth humidity coefficient as `BME280_Init` decodes it. -/
def decodedH5 (r : BitVec 8 → BitVec 8) : BitVec 16 :=
  nibbleWord (r 0xE7) (r 0xE5 >>> 4 &&& 0x0F)

theorem wordAt_of_toNat {x : BitVec 16} {reg : BitVec 8} (h : x.toNat = unsignedWord r reg) :
    wordAt r reg = x :=
  BitVec.eq_of_toNat_eq ((toNat_wordAt r reg).trans h.symm)

theorem wordAt_of_toInt {x : BitVec 16} {reg : BitVec 8} (h : x.toInt = signedWord r reg) :
    wordAt r reg = x :=
  BitVec.eq_of_toInt_eq ((toInt_wordAt r reg).trans h.symm)

/-- All coefficients but one are those of the chip. -/
theorem value_readCalib_of_layout (h : HoldsRegisters env address r) (hc : CalibLayout r c) :
    (readCalib address).value env n = { c with digH5 := decodedH5 r } := by
  rw [value_readCalib h, Calib.mk.injEq]
  exact ⟨wordAt_of_toNat hc.digT1, wordAt_of_toInt hc.digT2, wordAt_of_toInt hc.digT3,
    wordAt_of_toNat hc.digP1, wordAt_of_toInt hc.digP2, wordAt_of_toInt hc.digP3,
    wordAt_of_toInt hc.digP4, wordAt_of_toInt hc.digP5, wordAt_of_toInt hc.digP6,
    wordAt_of_toInt hc.digP7, wordAt_of_toInt hc.digP8, wordAt_of_toInt hc.digP9,
    BitVec.eq_of_toNat_eq hc.digH1.symm, wordAt_of_toInt hc.digH2,
    BitVec.eq_of_toNat_eq hc.digH3.symm,
    BitVec.eq_of_toInt_eq ((toInt_nibbleWord_low _ _).trans hc.digH4.symm), rfl,
    BitVec.eq_of_toInt_eq hc.digH6.symm⟩

/-- A BME280 whose registers, with the coefficients `c`, do not change while they are read, in the
range of the driver's integer arithmetic. -/
structure SteadyChip (env : ℕ → Request → Answer) (address : BitVec 8) (r : BitVec 8 → BitVec 8)
    (c : Calib) : Prop where
  registers : HoldsRegisters env address r
  id : r 0xD0 = 0x60
  layout : CalibLayout r c
  temperature : TemperatureFits c (converter r 0xFA)
  pressure : PressureFits c (exactFine c (converter r 0xFA)) (converter r 0xF7)
  pressure_nonneg : 0 ≤ exactPressure c (exactFine c (converter r 0xFA)) (converter r 0xF7)
  humidity : HumidityFits { c with digH5 := decodedH5 r } (exactFine c (converter r 0xFA))
    (highWord r 0xFD).toNat

/-- The readings are those of the formulas for the registers, with pressure and humidity taken at a
fine temperature `t` that is the one of the registers up to 66 of 5120 units to the degree. -/
structure Climate.Shows (x : Climate) (r : BitVec 8 → BitVec 8) (c : Calib) (t : ℚ) : Prop where
  temp : |(x.temp.toInt : ℚ) - 100 * idealTemperature c (converter r 0xFA)| ≤ 2
  fine : |t - idealFine c (converter r 0xFA)| ≤ 66
  press : |(x.press.toNat : ℚ) - 256 / 26 * idealPressure c (t - 128000) (converter r 0xF7)| ≤ 3 / 2
  hum : |(x.hum.toNat : ℚ) - idealHumidity { c with digH5 := decodedH5 r } t
    (highWord r 0xFD).toNat| ≤ 13 / 10

theorem value_bme280IsAvailable {handle : Bme280} {id : BitVec 8}
    (hid : id = bme280I1 ∨ id = bme280E2) (h : SteadyChip env (initAddress handle id) r c) :
    (bme280IsAvailable id).value env n = true := by
  have hread : (bme280IsAvailable id).value env n =
      (((i2cRead8 (initAddress handle id) 0xD0).value env n).2 == 0x60) := by
    rcases hid with rfl | rfl <;> rfl
  rw [hread, value_i2cRead8 h.registers, h.id]
  rfl

theorem value_bme280Init_of_layout {handle : Bme280} {id : BitVec 8} {adcT : BitVec 32}
    (h : HoldsRegisters env (initAddress handle id) r) (hc : CalibLayout r c)
    (hadc : ∀ n, (readAdc (initAddress handle id) 0xFA).value env n = adcT) :
    (bme280Init handle id).value env n =
      ⟨initAddress handle id, fineTemperature c adcT, { c with digH5 := decodedH5 r }⟩ := by
  simp only [bme280Init, bme280GetTemperature, value_bind, value_readCalib_of_layout h hc, hadc,
    value_pure]
  rfl

theorem measureBme280_shows (handle : Bme280) {id : BitVec 8}
    (hid : id = bme280I1 ∨ id = bme280E2) (h : SteadyChip env (initAddress handle id) r c)
    (mask error : BitVec 8) :
    let m := (measureBme280 handle id mask error).value env n
    m.2.1.Shows r c (exactFine c (converter r 0xFA)) ∧ m.2.2 = error := by
  obtain ⟨adcT, hadcT, hintT, -⟩ := exists_value_readAdc h.registers 0xFA
  obtain ⟨adcP, hadcP, hintP, hltP⟩ := exists_value_readAdc h.registers 0xF7
  have hT : TemperatureFits c adcT.toInt := hintT ▸ h.temperature
  have hfine : (fineTemperature c adcT).toInt = exactFine c (converter r 0xFA) := by
    rw [toInt_fineTemperature hT, hintT]
  simp only [measureBme280, value_bind, value_bme280IsAvailable hid h, if_true,
    value_bme280Init_of_layout h.registers h.layout hadcT, bme280GetHumidity,
    value_i2cRead16 h.registers, bme280GetTemperature, hadcT, value_pure, and_true]
  constructor
  · have hcenti := toInt_centiDegrees hT
    rw [hintT] at hcenti
    have hnear := near_centiDegrees h.temperature
    rw [← hcenti] at hnear
    exact_mod_cast hnear
  · exact_mod_cast near_exactFine h.temperature
  · have hP : PressureFits c (fineTemperature c adcT).toInt adcP.toInt := by
      rw [hfine, hintP]
      exact h.pressure
    have hnonneg : 0 ≤ exactPressure c (fineTemperature c adcT).toInt adcP.toInt := by
      rw [hfine, hintP]
      exact h.pressure_nonneg
    have hmeans : 0 < (32 : BitVec 16).toNat := by decide
    have hpress (n : ℕ) := bme280GetPressure_near (k := n)
      ⟨initAddress handle id, fineTemperature c adcT, { c with digH5 := decodedH5 r }⟩
      hmeans (fun _ => hadcP _) (fun _ => hltP) (fun _ _ => hP) (fun _ _ => hnonneg)
    dsimp only at hpress ⊢
    rw [hfine, hintP, Finset.sum_const, Finset.card_range, nsmul_eq_mul,
      mul_div_cancel_left₀ _ (by exact_mod_cast hmeans.ne')] at hpress
    exact hpress _
  · have hhum := relativeHumidity_near (hfine.symm ▸ h.humidity)
    rw [hfine] at hhum
    exact hhum

/-- With a chip at each of its two addresses `getSensors` reports no error, and every field of the
two holds what the formulas give for the registers: the temperature up to 0.02 degrees, and at the
fine temperature of the driver, which truncates, the mean of the 32 pressures up to one and a half
units and the humidity, with the coefficient as it is decoded, up to 1.3 percent. -/
theorem getSensors_shows {r' : BitVec 8 → BitVec 8} {c' : Calib} (h : SteadyChip env 0x77 r c)
    (h' : SteadyChip env 0x76 r' c') (analog : Analog) (handle : Bme280) (tp : DataPoint) :
    let stored := (getSensors analog handle tp).value env 0
    stored.1.i1.Shows r c (exactFine c (converter r 0xFA)) ∧
      stored.1.e2.Shows r' c' (exactFine c' (converter r' 0xFA)) ∧ stored.2 = 0 := by
  intro stored
  have hfirst := measureBme280_shows (n := 0) handle (Or.inl (Eq.refl bme280I1)) h 0x1 0
  have hsecond (first : Bme280) (n : ℕ) :=
    measureBme280_shows (n := n) first (Or.inr (Eq.refl bme280E2)) h' 0x10 0
  obtain ⟨hi1, he2⟩ := getSensors_fields analog handle tp env
  have herror : stored.2 = ((measureBme280 ((measureBme280 handle bme280I1 0x1 0).value env 0).1
      bme280E2 0x10 ((measureBme280 handle bme280I1 0x1 0).value env 0).2.2).value env
        ((measureBme280 handle bme280I1 0x1 0).log env 0).length).2.2 := by
    simp only [stored, getSensors, value_bind, value_pure, Nat.zero_add]
  rw [hfirst.2] at he2 herror
  rw [hi1, he2, herror]
  exact ⟨hfirst.1, (hsecond _ _).1, (hsecond _ _).2⟩

/-- The coefficients of a chip, its converters at 25.08 degrees and 100653 Pa, and its id. -/
def officeRegisters (reg : BitVec 8) : BitVec 8 :=
  ([(0x88, 0x70), (0x89, 0x6B), (0x8A, 0x43), (0x8B, 0x67), (0x8C, 0x18), (0x8D, 0xFC),
    (0x8E, 0x7D), (0x8F, 0x8E), (0x90, 0x43), (0x91, 0xD6), (0x92, 0xD0), (0x93, 0x0B),
    (0x94, 0x27), (0x95, 0x0B), (0x96, 0x8C), (0x97, 0x00), (0x98, 0xF9), (0x99, 0xFF),
    (0x9A, 0x8C), (0x9B, 0x3C), (0x9C, 0xF8), (0x9D, 0xC6), (0x9E, 0x70), (0x9F, 0x17),
    (0xA1, 0x4B), (0xE1, 0x6E), (0xE2, 0x01), (0xE3, 0x00), (0xE4, 0x13), (0xE5, 0x22),
    (0xE6, 0x03), (0xE7, 0x1E), (0xD0, 0x60), (0xFA, 0x7E), (0xFB, 0xED), (0xFC, 0x00),
    (0xF7, 0x65), (0xF8, 0x5A), (0xF9, 0xC0), (0xFD, 0x6A), (0xFE, 0x00)].lookup reg).getD 0

def officeCalib : Calib where
  digT1 := 27504
  digT2 := 26435
  digT3 := BitVec.ofInt 16 (-1000)
  digP1 := 36477
  digP2 := BitVec.ofInt 16 (-10685)
  digP3 := 3024
  digP4 := 2855
  digP5 := 140
  digP6 := BitVec.ofInt 16 (-7)
  digP7 := 15500
  digP8 := BitVec.ofInt 16 (-14600)
  digP9 := 6000
  digH1 := 75
  digH2 := 366
  digH3 := 0
  digH4 := 306
  digH5 := 50
  digH6 := 30

theorem steadyChip_office (address : BitVec 8) :
    SteadyChip (registerBus officeRegisters) address officeRegisters officeCalib where
  registers := holdsRegisters_registerBus address officeRegisters
  id := by decide
  layout := by constructor <;> decide
  temperature := by decide +kernel
  pressure := by decide +kernel
  pressure_nonneg := by decide +kernel
  humidity := ⟨by decide +kernel, by decide +kernel, by decide +kernel⟩

/-- The humidity is stored as 34 percent; with the coefficient of the chip it would be 42. -/
theorem getSensors_shows_office :
    let stored := (getSensors default default default).value (registerBus officeRegisters) 0
    let t := exactFine officeCalib (converter officeRegisters 0xFA)
    stored.1.i1 = ⟨991047, 34, 2508⟩ ∧ stored.1.i1.Shows officeRegisters officeCalib t ∧
      stored.1.e2.Shows officeRegisters officeCalib t ∧ stored.2 = 0 :=
  ⟨by decide +kernel, getSensors_shows (steadyChip_office 0x77) (steadyChip_office 0x76) _ _ _⟩

end WaferSat.Telemetry
