import WaferSat.Telemetry.OwnSensor
import Mathlib.Tactic.Linarith

/-! The temperatures of the TMP100 fields. The register holds a signed count of sixteenths of a
degree, and the driver shifts and scales it as an unsigned one: a field is right exactly where the
count is not negative. -/
namespace WaferSat.Telemetry

/-- The signed count in the upper twelve bits of the register, in sixteenths of a degree. -/
def tmp100Sixteenths (rxbuf : RxBuf) : ℤ := ((wordBE rxbuf >>> 4).setWidth 12).toInt

theorem wordBE_count_toNat (rxbuf : RxBuf) :
    (tmp100Count (some rxbuf)).toNat = (wordBE rxbuf).toNat / 16 := by
  rw [tmp100Count, Option.elim_some, BitVec.toNat_ushiftRight, Nat.shiftRight_eq_div_pow]

/-- The unsigned count that the driver uses is the signed one, or 4096 above it. -/
theorem tmp100Sixteenths_eq (rxbuf : RxBuf) :
    tmp100Sixteenths rxbuf = if (wordBE rxbuf).msb then
      ((tmp100Count (some rxbuf)).toNat : ℤ) - 4096 else (tmp100Count (some rxbuf)).toNat := by
  have hcount := wordBE_count_toNat rxbuf
  have hlt := tmp100Count_lt (some rxbuf)
  have hlow : ((wordBE rxbuf >>> 4).setWidth 12).toNat = (tmp100Count (some rxbuf)).toNat := by
    rw [BitVec.toNat_setWidth]
    exact Nat.mod_eq_of_lt hlt
  rw [tmp100Sixteenths, BitVec.toInt_eq_toNat_cond, hlow, BitVec.msb_eq_decide]
  simp only [decide_eq_true_eq]
  split_ifs <;> omega

theorem toInt_tmp100Value (rxbuf : RxBuf) :
    (tmp100Value (tmp100Count (some rxbuf))).toInt =
      ((tmp100Count (some rxbuf)).toNat * 25 / 4 : ℕ) := by
  have hlt := tmp100Count_lt (some rxbuf)
  have hvalue := toNat_tmp100Value hlt
  rw [BitVec.toInt_eq_toNat_of_lt (by omega), hvalue]

theorem hundredths_near_iff (v s : ℤ) :
    |(v : ℚ) - 25 / 4 * s| ≤ 1 ↔ -4 ≤ 4 * v - 25 * s ∧ 4 * v - 25 * s ≤ 4 := by
  rw [abs_le]
  constructor
  · rintro ⟨hlow, hhigh⟩
    constructor
    · exact_mod_cast (by linarith : (-4 : ℚ) ≤ 4 * v - 25 * s)
    · exact_mod_cast (by linarith : (4 : ℚ) * v - 25 * s ≤ 4)
  · rintro ⟨hlow, hhigh⟩
    have hlow' : (-4 : ℚ) ≤ 4 * v - 25 * s := by exact_mod_cast hlow
    have hhigh' : (4 : ℚ) * v - 25 * s ≤ 4 := by exact_mod_cast hhigh
    constructor <;> linarith

theorem tmp100Value_near_iff (rxbuf : RxBuf) :
    |((tmp100Value (tmp100Count (some rxbuf))).toInt : ℚ) - 25 / 4 * tmp100Sixteenths rxbuf| ≤ 1 ↔
      (wordBE rxbuf).msb = false := by
  have hlt := tmp100Count_lt (some rxbuf)
  rw [hundredths_near_iff, toInt_tmp100Value, tmp100Sixteenths_eq]
  cases (wordBE rxbuf).msb with
  | false =>
    simp only [Bool.false_eq_true, if_false, iff_true]
    omega
  | true =>
    simp only [if_true, Bool.true_eq_false, iff_false]
    omega

theorem toInt_tmp100Value_mono {x y : RxBuf} (hx : (wordBE x).msb = false)
    (hy : (wordBE y).msb = false) (h : tmp100Sixteenths x ≤ tmp100Sixteenths y) :
    (tmp100Value (tmp100Count (some x))).toInt ≤ (tmp100Value (tmp100Count (some y))).toInt := by
  rw [tmp100Sixteenths_eq, tmp100Sixteenths_eq, hx, hy] at h
  rw [toInt_tmp100Value, toInt_tmp100Value]
  simp only [Bool.false_eq_true, if_false] at h
  omega

namespace Scene

structure Reads (s : Scene) (i : Fin 8) (rxbuf : RxBuf) : Prop where
  probed : (s.bus (tmp100Address (tmp100Id i))).isSome
  read : register0 (s.bus (tmp100Address (tmp100Source i))) = some rxbuf

/-- Every field read is within one unit of its temperature in hundredths of a degree. -/
def Accurate (s : Scene) : Prop :=
  ∀ i rxbuf, s.Reads i rxbuf →
    |((s.stored.tmp100Temp i).toInt : ℚ) - 25 / 4 * tmp100Sixteenths rxbuf| ≤ 1

/-- A field read in one call is at most one read in another when its temperature is. -/
def Monotone (s t : Scene) : Prop :=
  ∀ i k x y, s.Reads i x → t.Reads k y → tmp100Sixteenths x ≤ tmp100Sixteenths y →
    (s.stored.tmp100Temp i).toInt ≤ (t.stored.tmp100Temp k).toInt

/-- No thermometer is below zero, but for the third one, which is never read. -/
def AboveZero (s : Scene) : Prop :=
  ∀ i : Fin 8, i.val ≠ 2 → ∀ d,
    s.bus (0x48 ||| tmp100Id i) = some d → (wordBE (d 0)).msb = false

variable {s t : Scene} {i : Fin 8} {rxbuf : RxBuf}

theorem Reads.stored_eq (h : s.Reads i rxbuf) :
    s.stored.tmp100Temp i = tmp100Value (tmp100Count (some rxbuf)) := by
  rw [s.fields_stored.tmp100Temp, thermometer, h.read, tmp100Reading, if_pos]
  rw [register0, Option.isSome_map]
  exact h.probed

theorem AboveZero.msb_eq (hs : s.AboveZero) (h : s.Reads i rxbuf) : (wordBE rxbuf).msb = false := by
  obtain ⟨d, hd, hrx⟩ := Option.map_eq_some_iff.mp h.read
  rw [← hrx]
  by_cases hi : i = 2
  · subst hi
    exact hs 0 (by decide) d hd
  · rw [tmp100Source, if_neg hi, tmp100Address_id] at hd
    exact hs i (Fin.val_ne_of_ne hi) d hd

theorem accurate_iff (s : Scene) : s.Accurate ↔ s.AboveZero := by
  constructor
  · intro h i hi d hd
    have haddress : s.bus (tmp100Address (tmp100Id i)) = some d := by rw [tmp100Address_id, hd]
    have hreads : s.Reads i (d 0) := by
      constructor
      · rw [haddress]
        rfl
      · rw [tmp100Source, if_neg (Fin.ne_of_val_ne hi), haddress]
        rfl
    have hnear := h i (d 0) hreads
    rw [hreads.stored_eq] at hnear
    exact (tmp100Value_near_iff (d 0)).mp hnear
  · intro hs i rxbuf hreads
    rw [hreads.stored_eq]
    exact (tmp100Value_near_iff rxbuf).mpr (hs.msb_eq hreads)

end Scene

/-- The fields of two calls are right, and grow with the temperature from one to the other, exactly
when no thermometer that is read is below zero. -/
theorem temperatures_right_iff (s t : Scene) :
    s.Accurate ∧ t.Accurate ∧ s.Monotone t ↔ s.AboveZero ∧ t.AboveZero := by
  rw [s.accurate_iff, t.accurate_iff]
  constructor
  · rintro ⟨hs, ht, -⟩
    exact ⟨hs, ht⟩
  · rintro ⟨hs, ht⟩
    refine ⟨hs, ht, fun i k x y hx hy hle => ?_⟩
    rw [hx.stored_eq, hy.stored_eq]
    exact toInt_tmp100Value_mono (hs.msb_eq hx) (ht.msb_eq hy) hle

/-- One sixteenth below zero is stored as more than 255 degrees; zero is stored as zero. -/
theorem below_zero_reads_hot :
    tmp100Sixteenths (pair 0xFF 0xF0) = -1 ∧
    (twoThermometers (pair 0xFF 0xF0)).stored.tmp100Temp0 = 25593 ∧
    (twoThermometers (pair 0x00 0x00)).stored.tmp100Temp0 = 0 ∧
    ¬(twoThermometers (pair 0xFF 0xF0)).Accurate ∧
    ¬(twoThermometers (pair 0xFF 0xF0)).Monotone (twoThermometers (pair 0x00 0x00)) := by
  have hcold : (twoThermometers (pair 0xFF 0xF0)).stored.tmp100Temp0 = 25593 := by decide
  have hzero : (twoThermometers (pair 0x00 0x00)).stored.tmp100Temp0 = 0 := by decide
  refine ⟨by decide, hcold, hzero, fun h => ?_, fun h => ?_⟩
  · exact absurd ((Scene.accurate_iff _).mp h 0 (by decide) _ rfl) (by decide)
  · have hle := h 0 0 (pair 0xFF 0xF0) (pair 0x00 0x00) ⟨rfl, rfl⟩ ⟨rfl, rfl⟩ (by decide)
    exact absurd hle (by decide)

end WaferSat.Telemetry
