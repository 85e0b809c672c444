import WaferSat.Telemetry.Readings

/-! The calibration words of the BME280. Every word but one is decoded from its registers; the
fifth humidity coefficient takes its upper byte from register 0xE7, which holds the sixth, and
not from 0xE6. -/
namespace WaferSat.Telemetry

variable {env : ℕ → Request → Answer} {address : BitVec 8} {r : BitVec 8 → BitVec 8} {n : ℕ}

/-- Every read of the device succeeds and delivers its registers, which are `r`, from the one
named on. -/
def HoldsRegisters (env : ℕ → Request → Answer) (address : BitVec 8) (r : BitVec 8 → BitVec 8) :
    Prop :=
  ∀ n reg count, (env n ⟨address, [reg], count⟩).status = .ok ∧
    ∀ k < count, (env n ⟨address, [reg], count⟩).rxbuf k = r (reg + BitVec.ofNat 8 k)

def unsignedWord (r : BitVec 8 → BitVec 8) (reg : BitVec 8) : ℕ :=
  (r reg).toNat + 256 * (r (reg + 1)).toNat

def signedWord (r : BitVec 8 → BitVec 8) (reg : BitVec 8) : ℤ :=
  (r reg).toNat + 256 * (r (reg + 1)).toInt

structure CalibLayout (r : BitVec 8 → BitVec 8) (c : Calib) : Prop where
  digT1 : c.digT1.toNat = unsignedWord r 0x88
  digT2 : c.digT2.toInt = signedWord r 0x8A
  digT3 : c.digT3.toInt = signedWord r 0x8C
  digP1 : c.digP1.toNat = unsignedWord r 0x8E
  digP2 : c.digP2.toInt = signedWord r 0x90
  digP3 : c.digP3.toInt = signedWord r 0x92
  digP4 : c.digP4.toInt = signedWord r 0x94
  digP5 : c.digP5.toInt = signedWord r 0x96
  digP6 : c.digP6.toInt = signedWord r 0x98
  digP7 : c.digP7.toInt = signedWord r 0x9A
  digP8 : c.digP8.toInt = signedWord r 0x9C
  digP9 : c.digP9.toInt = signedWord r 0x9E
  digH1 : c.digH1.toNat = (r 0xA1).toNat
  digH2 : c.digH2.toInt = signedWord r 0xE1
  digH3 : c.digH3.toNat = (r 0xE3).toNat
  digH4 : c.digH4.toInt = 16 * (r 0xE4).toInt + ((r 0xE5).toNat % 16 : ℕ)
  digH5 : c.digH5.toInt = 16 * (r 0xE6).toInt + ((r 0xE5).toNat / 16 : ℕ)
  digH6 : c.digH6.toInt = (r 0xE7).toInt

theorem wordLE_eq (b : RxBuf) : wordLE b = (b 1 ++ b 0 : BitVec 16) := by
  unfold wordLE swapBytes wordBE
  ext i hi
  simp only [BitVec.getElem_or, BitVec.getElem_ushiftRight, BitVec.getElem_shiftLeft,
    BitVec.getLsbD_or, BitVec.getLsbD_shiftLeft, BitVec.getLsbD_setWidth, BitVec.getElem_setWidth]
  grind

/-- The word that `I2C_read16_LE` delivers. -/
def wordAt (r : BitVec 8 → BitVec 8) (reg : BitVec 8) : BitVec 16 := r (reg + 1) ++ r reg

theorem toNat_wordAt (r : BitVec 8 → BitVec 8) (reg : BitVec 8) :
    (wordAt r reg).toNat = unsignedWord r reg := by
  rw [wordAt, BitVec.toNat_append, ← Nat.shiftLeft_add_eq_or_of_lt (r reg).isLt,
    Nat.shiftLeft_eq, unsignedWord]
  omega

theorem toInt_wordAt (r : BitVec 8 → BitVec 8) (reg : BitVec 8) :
    (wordAt r reg).toInt = signedWord r reg := by
  rw [wordAt, BitVec.toInt_append, signedWord]
  simp
  omega

theorem value_i2cRead8 (h : HoldsRegisters env address r) (reg : BitVec 8) :
    (i2cRead8 address reg).value env n = (true, r reg) := by
  obtain ⟨hok, hbytes⟩ := h n reg 1
  have hread : (i2cRead8 address reg).value env n =
      ((env n ⟨address, [reg], 1⟩).status == .ok, (env n ⟨address, [reg], 1⟩).rxbuf 0) := rfl
  rw [hread, hok, hbytes 0 (by decide), BitVec.add_zero]
  rfl

theorem value_i2cRead16LE (h : HoldsRegisters env address r) (reg : BitVec 8) :
    (i2cRead16LE address reg).value env n = (true, wordAt r reg) := by
  obtain ⟨hok, hbytes⟩ := h n reg 2
  have hread : (i2cRead16LE address reg).value env n =
      ((env n ⟨address, [reg], 2⟩).status == .ok,
        wordLE (env n ⟨address, [reg], 2⟩).rxbuf) := rfl
  rw [hread, hok, wordLE_eq, hbytes 0 (by decide), hbytes 1 (by decide), BitVec.add_zero]
  rfl

theorem value_readCalib (h : HoldsRegisters env address r) :
    (readCalib address).value env n =
      { digT1 := wordAt r 0x88
        digT2 := wordAt r 0x8A
        digT3 := wordAt r 0x8C
        digP1 := wordAt r 0x8E
        digP2 := wordAt r 0x90
        digP3 := wordAt r 0x92
        digP4 := wordAt r 0x94
        digP5 := wordAt r 0x96
        digP6 := wordAt r 0x98
        digP7 := wordAt r 0x9A
        digP8 := wordAt r 0x9C
        digP9 := wordAt r 0x9E
        digH1 := r 0xA1
        digH2 := wordAt r 0xE1
        digH3 := r 0xE3
        digH4 := nibbleWord (r 0xE4) (r 0xE5 &&& 0x0F)
        digH5 := nibbleWord (r 0xE7) (r 0xE5 >>> 4 &&& 0x0F)
        digH6 := r 0xE7 } := by
  unfold readCalib
  simp only [Dialog.value_bind, value_i2cRead16LE h, value_i2cRead8 h, Dialog.value_pure]

theorem calib_bme280Init (handle : Bme280) (id : BitVec 8) :
    ((bme280Init handle id).value env n).calib =
      (readCalib (initAddress handle id)).value env n := rfl

theorem nibbleWord_setWidth (hi : BitVec 8) (lo : BitVec 4) :
    nibbleWord hi (lo.setWidth 8) = (hi ++ lo).signExtend 16 := by
  unfold nibbleWord
  ext i hi
  simp only [BitVec.getElem_or, BitVec.getElem_shiftLeft, BitVec.getElem_signExtend,
    BitVec.getElem_setWidth, BitVec.getLsbD_setWidth, BitVec.getElem_append, BitVec.msb_append]
  grind

theorem toInt_nibbleWord (hi : BitVec 8) (lo : BitVec 4) :
    (nibbleWord hi (lo.setWidth 8)).toInt = 16 * hi.toInt + lo.toNat := by
  rw [nibbleWord_setWidth, BitVec.toInt_signExtend_of_le (by decide), BitVec.toInt_append]
  simp

theorem toInt_nibbleWord_low (hi x : BitVec 8) :
    (nibbleWord hi (x &&& 0x0F)).toInt = 16 * hi.toInt + (x.toNat % 16 : ℕ) := by
  have hlow : ∀ x : BitVec 8, x &&& 0x0F = (x.setWidth 4).setWidth 8 := by decide
  rw [hlow, toInt_nibbleWord, BitVec.toNat_setWidth]

theorem toInt_nibbleWord_high (hi x : BitVec 8) :
    (nibbleWord hi (x >>> 4 &&& 0x0F)).toInt = 16 * hi.toInt + (x.toNat / 16 : ℕ) := by
  have hhigh : ∀ x : BitVec 8, x >>> 4 &&& 0x0F = (BitVec.ofNat 4 (x.toNat / 16)).setWidth 8 := by
    decide
  rw [hhigh, toInt_nibbleWord, BitVec.toNat_ofNat, Nat.mod_eq_of_lt (by omega)]

/-- `BME280_Init` leaves the words of the layout exactly on chips whose registers 0xE6 and 0xE7
hold the same byte. -/
theorem calibLayout_iff (handle : Bme280) (id : BitVec 8)
    (h : HoldsRegisters env (initAddress handle id) r) :
    CalibLayout r ((bme280Init handle id).value env n).calib ↔ r 0xE6 = r 0xE7 := by
  rw [calib_bme280Init, value_readCalib h]
  constructor
  · intro hlayout
    have hdigH5 := hlayout.digH5
    rw [toInt_nibbleWord_high] at hdigH5
    apply BitVec.eq_of_toInt_eq
    omega
  · intro heq
    constructor
    case digH4 => exact toInt_nibbleWord_low _ _
    case digH5 =>
      rw [heq]
      exact toInt_nibbleWord_high _ _
    all_goals first | rfl | exact toNat_wordAt _ _ | exact toInt_wordAt _ _

def registerBus (r : BitVec 8 → BitVec 8) : ℕ → Request → Answer := fun _ q =>
  ⟨.ok, fun k => r (q.txbuf.headD 0 + BitVec.ofNat 8 k)⟩

theorem holdsRegisters_registerBus (address : BitVec 8) (r : BitVec 8 → BitVec 8) :
    HoldsRegisters (registerBus r) address r :=
  fun _ _ _ => ⟨rfl, fun _ _ => rfl⟩

/-- Each register holds its own number, but 0xE6 that of 0xE7. -/
def numberedRegisters (reg : BitVec 8) : BitVec 8 := if reg = 0xE6 then 0xE7 else reg

theorem calibLayout_numbered :
    CalibLayout numberedRegisters
      ((bme280Init default bme280I1).value (registerBus numberedRegisters) 0).calib :=
  (calibLayout_iff default bme280I1 (holdsRegisters_registerBus _ _)).mpr rfl

def chipRegisters (reg : BitVec 8) : BitVec 8 := if reg = 0xE6 then 0x01 else 0x00

/-- The fifth coefficient of this chip is 16; the driver stores 0. -/
theorem digH5_from_wrong_register :
    HoldsRegisters (registerBus chipRegisters) (initAddress default bme280I1) chipRegisters ∧
    ((bme280Init default bme280I1).value (registerBus chipRegisters) 0).calib.digH5.toInt = 0 ∧
    ¬CalibLayout chipRegisters
      ((bme280Init default bme280I1).value (registerBus chipRegisters) 0).calib := by
  have hstored : ((bme280Init default bme280I1).value
      (registerBus chipRegisters) 0).calib.digH5.toInt = 0 := by decide
  refine ⟨holdsRegisters_registerBus _ _, hstored, fun hlayout => ?_⟩
  have hdigH5 := hlayout.digH5
  rw [hstored] at hdigH5
  exact absurd hdigH5 (by decide)

end WaferSat.Telemetry
