import WaferSat.Telemetry.Collector
import Mathlib.Data.BitVec
import Mathlib.Algebra.BigOperators.Group.Finset.Piecewise
import Mathlib.Algebra.BigOperators.Ring.Finset

/-! What a BME280 stanza computes from the receive buffers. The outcomes of the
transactions and the handle play no part in it: buffer number `i`, counted from the
chip-id read, always ends up in the same place. -/
namespace WaferSat.Telemetry

open Finset

variable {outcome : ℕ → Msg} {d : ℕ → RxBuf} {env : ℕ → Request → Answer} {n : ℕ}

def adcAt (s : ℕ → RxBuf) (i : ℕ) : BitVec 32 := adcValue (wordBE (s i)) (s (i + 1) 0)

def wordLE (b : RxBuf) : BitVec 16 := swapBytes (wordBE b)

/-- The calibration held in buffers 1 to 20. -/
def calibOf (s : ℕ → RxBuf) : Calib where
  digT1 := wordLE (s 1)
  digT2 := wordLE (s 2)
  digT3 := wordLE (s 3)
  digP1 := wordLE (s 4)
  digP2 := wordLE (s 5)
  digP3 := wordLE (s 6)
  digP4 := wordLE (s 7)
  digP5 := wordLE (s 8)
  digP6 := wordLE (s 9)
  digP7 := wordLE (s 10)
  digP8 := wordLE (s 11)
  digP9 := wordLE (s 12)
  digH1 := s 13 0
  digH2 := wordLE (s 14)
  digH3 := s 15 0
  digH4 := nibbleWord (s 16 0) (s 17 0 &&& 0x0F)
  digH5 := nibbleWord (s 18 0) (s 19 0 >>> 4 &&& 0x0F)
  digH6 := s 20 0

def tFineOf (s : ℕ → RxBuf) : BitVec 32 := fineTemperature (calibOf s) (adcAt s 23)

def divisorOf (s : ℕ → RxBuf) : BitVec 64 := pressureDivisor (calibOf s) (tFineOf s)

def shareOf (s : ℕ → RxBuf) (adcP : BitVec 32) : BitVec 64 :=
  compensatePressure (calibOf s) (tFineOf s) (divisorOf s) adcP

/-- Humidity and temperature, read from buffer `i` on, beside a given pressure. -/
def climateFrom (s : ℕ → RxBuf) (press : BitVec 32) (i : ℕ) : Climate where
  press := press
  hum := relativeHumidity (calibOf s) (tFineOf s) ((wordBE (s i)).setWidth 32)
  temp := centiDegrees (fineTemperature (calibOf s) (adcAt s (i + 1)))

/-- The readings of a sensor whose pressure readings add up to `sum`: none when the
first buffer does not hold the chip id. After a zero divisor the pressure loop
stops at its first turn and the later reads move up. -/
def stanzaWith (s : ℕ → RxBuf) (sum : BitVec 64) : Climate :=
  if s 0 0 = 0x60 then
    if divisorOf s = 0 then climateFrom s 0 27 else climateFrom s ((sum / 832).setWidth 32) 89
  else ⟨0, 0, 0⟩

def stanzaOf (s : ℕ → RxBuf) : Climate :=
  stanzaWith s (∑ i ∈ range 32, shareOf s (adcAt s (25 + 2 * i)))

@[simp] theorem value_readAdc (address reg : BitVec 8) :
    (readAdc address reg).value (answers outcome d) n = adcAt d n := rfl

@[simp] theorem length_log_readAdc (address reg : BitVec 8) :
    ((readAdc address reg).log env n).length = 2 := rfl

theorem pressureLoop_stops (handle : Bme280) {means : BitVec 16}
    (h : pressureDivisor handle.calib handle.tFine = 0) (left : ℕ) (sum : BitVec 64) :
    (pressureLoop handle means (left + 1) sum).value env n = 0 ∧
      ((pressureLoop handle means (left + 1) sum).log env n).length = 2 := by
  simp only [pressureLoop, h, if_true, Dialog.value_bind, Dialog.log_bind, Dialog.value_pure,
    Dialog.log_pure, length_log_readAdc, List.append_nil, and_self]

/-- What a turn of the pressure loop adds for a reading. -/
def pressureTurn (handle : Bme280) (adcP : BitVec 32) : BitVec 64 :=
  compensatePressure handle.calib handle.tFine (pressureDivisor handle.calib handle.tFine) adcP

theorem pressureLoop_runs (handle : Bme280) (means : BitVec 16) {adc : ℕ → BitVec 32}
    (hadc : ∀ i, (readAdc handle.i2cAddress 0xF7).value env (n + 2 * i) = adc i)
    (h : pressureDivisor handle.calib handle.tFine ≠ 0) (left : ℕ) (sum : BitVec 64) :
    (pressureLoop handle means left sum).value env n =
        ((sum + ∑ i ∈ range left, pressureTurn handle (adc i)) /
          (means.setWidth 64 * 26)).setWidth 32 ∧
      ((pressureLoop handle means left sum).log env n).length = 2 * left := by
  induction left generalizing sum n adc with
  | zero => simp [pressureLoop]
  | succ left ih =>
    have hfirst : (readAdc handle.i2cAddress 0xF7).value env n = adc 0 := hadc 0
    have hrest : ∀ i, (readAdc handle.i2cAddress 0xF7).value env (n + 2 + 2 * i) = adc (i + 1) := by
      intro i
      rw [← hadc (i + 1), Nat.mul_add, Nat.add_comm (2 * i), Nat.add_assoc]
    simp only [pressureLoop, h, if_false, Dialog.value_bind, Dialog.log_bind, hfirst,
      length_log_readAdc, List.length_append, (ih hrest _).1, (ih hrest _).2]
    constructor
    · rw [sum_range_succ', add_right_comm, ← add_assoc]
      rfl
    · omega

section Stanza

variable {handle : Bme280} {id mask error : BitVec 8}

variable (outcome d n) in
theorem bme280IsAvailable_run (hid : id = bme280I1 ∨ id = bme280E2) :
    (bme280IsAvailable id).value (answers outcome d) n = (d n 0 == 0x60) ∧
      ((bme280IsAvailable id).log (answers outcome d) n).length = 1 := by
  rcases hid with rfl | rfl <;> exact ⟨rfl, rfl⟩

theorem value_bme280Init :
    (bme280Init handle id).value (answers outcome d) (n + 1) =
      ⟨initAddress handle id, tFineOf fun i => d (n + i), calibOf fun i => d (n + i)⟩ := rfl

@[simp] theorem length_log_bme280Init : ((bme280Init handle id).log env n).length = 24 := rfl

variable (outcome) in
theorem bme280GetPressure_run {s : ℕ → RxBuf} (hs : ∀ i, s i = d (n + i)) (address : BitVec 8) :
    (bme280GetPressure ⟨address, tFineOf s, calibOf s⟩ 32).value (answers outcome d) (n + 25) =
        (if divisorOf s = 0 then 0
          else ((∑ i ∈ range 32, shareOf s (adcAt s (25 + 2 * i))) / 832).setWidth 32) ∧
      ((bme280GetPressure ⟨address, tFineOf s, calibOf s⟩ 32).log (answers outcome d)
        (n + 25)).length = if divisorOf s = 0 then 2 else 64 := by
  have hadc (i : ℕ) : (readAdc address 0xF7).value (answers outcome d) (n + 25 + 2 * i) =
      adcAt s (25 + 2 * i) := by
    simp only [value_readAdc, adcAt, hs, Nat.add_assoc]
  by_cases h : divisorOf s = 0
  · rw [if_pos h, if_pos h]
    exact pressureLoop_stops ⟨address, tFineOf s, calibOf s⟩ h 31 0
  · rw [if_neg h, if_neg h]
    obtain ⟨hv, hl⟩ := pressureLoop_runs ⟨address, tFineOf s, calibOf s⟩ 32 hadc h 32 0
    refine ⟨hv.trans ?_, hl⟩
    rw [zero_add]
    rfl

@[simp] theorem length_log_bme280GetHumidity :
    ((bme280GetHumidity handle).log env n).length = 1 := rfl

@[simp] theorem length_log_bme280GetTemperature :
    ((bme280GetTemperature handle).log env n).length = 2 := rfl

/-- The number of transactions of a stanza. -/
def stanzaLength (s : ℕ → RxBuf) : ℕ :=
  if s 0 0 = 0x60 then if divisorOf s = 0 then 30 else 92 else 1

/-- A stanza returns what the buffers from its chip-id read on determine, and
counts the sensor as absent exactly when the first of them is not the chip id. -/
theorem measureBme280_run (hid : id = bme280I1 ∨ id = bme280E2) :
    ((measureBme280 handle id mask error).value (answers outcome d) n).2 =
        (stanzaOf fun i => d (n + i), if d n 0 = 0x60 then error else error ||| mask) ∧
      ((measureBme280 handle id mask error).log (answers outcome d) n).length =
        stanzaLength fun i => d (n + i) := by
  obtain ⟨hav, hal⟩ := bme280IsAvailable_run outcome d n hid
  rw [measureBme280, Dialog.value_bind, Dialog.log_bind, List.length_append, hav, hal, stanzaOf,
    stanzaWith, stanzaLength]
  by_cases h : d n 0 = 0x60
  · have hb : (d n 0 == 0x60) = true := beq_iff_eq.mpr h
    obtain ⟨hp, hpl⟩ := bme280GetPressure_run outcome (s := fun i => d (n + i)) (fun _ => rfl)
      (initAddress handle id)
    rw [hb, if_pos rfl, if_pos (show d (n + 0) 0 = 0x60 from h), if_pos h,
      if_pos (show d (n + 0) 0 = 0x60 from h)]
    simp only [Dialog.value_bind, Dialog.log_bind, Dialog.value_pure, Dialog.log_pure,
      value_bme280Init, length_log_bme280Init, length_log_bme280GetHumidity,
      length_log_bme280GetTemperature, List.length_append, List.length_nil, Nat.add_assoc,
      Nat.reduceAdd, hp, hpl]
    split_ifs
    · exact ⟨rfl, rfl⟩
    · exact ⟨rfl, rfl⟩
  · have hb : (d n 0 == 0x60) = false := beq_eq_false_iff_ne.mpr h
    rw [hb, if_neg Bool.false_ne_true, if_neg (show ¬d (n + 0) 0 = 0x60 from h), if_neg h,
      if_neg (show ¬d (n + 0) 0 = 0x60 from h)]
    exact ⟨rfl, rfl⟩

theorem measureBme280_writes (hid : id = bme280I1 ∨ id = bme280E2) {j : ℕ} (hj : j = 21 ∨ j = 22)
    {e : Request × Answer}
    (he : ((measureBme280 handle id mask error).log (answers outcome d) n)[j]? = some e) :
    e.1.rxbytes = 0 := by
  obtain ⟨hav, hal⟩ := bme280IsAvailable_run outcome d n hid
  rw [measureBme280, Dialog.log_bind, List.getElem?_append_right (by omega), hal, hav] at he
  split_ifs at he
  · rw [Dialog.log_bind, List.getElem?_append_left (by rw [length_log_bme280Init]; omega)] at he
    rcases hj with rfl | rfl <;> exact (Option.some.inj he) ▸ rfl
  · simp at he

end Stanza

end WaferSat.Telemetry
