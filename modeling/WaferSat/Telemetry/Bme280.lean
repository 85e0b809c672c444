import WaferSat.Telemetry.I2c

/-! The BME280 driver. No call looks at the outcome of its transactions: whatever
the receive buffers hold goes into the calibration and the readings. Signed
arithmetic is that of the 32-bit and 64-bit registers. -/
namespace WaferSat.Telemetry

structure Calib where
  digT1 : BitVec 16
  digT2 : BitVec 16
  digT3 : BitVec 16
  digP1 : BitVec 16
  digP2 : BitVec 16
  digP3 : BitVec 16
  digP4 : BitVec 16
  digP5 : BitVec 16
  digP6 : BitVec 16
  digP7 : BitVec 16
  digP8 : BitVec 16
  digP9 : BitVec 16
  digH1 : BitVec 8
  digH2 : BitVec 16
  digH3 : BitVec 8
  digH4 : BitVec 16
  digH5 : BitVec 16
  digH6 : BitVec 8
  deriving DecidableEq, Inhabited

/-- `bme280_t` without its function pointers, which are always the four of `pi2c.c`. -/
structure Bme280 where
  i2cAddress : BitVec 8
  tFine : BitVec 32
  calib : Calib
  deriving DecidableEq, Inhabited

def bme280I1 : BitVec 8 := 0x0
def bme280E1 : BitVec 8 := 0x1
def bme280E2 : BitVec 8 := 0x2

def bme280IsAvailable (id : BitVec 8) : I2c Bool :=
  if id = bme280I1 ∨ id = bme280E1 then do
    let (_, val) ← i2cRead8 0x77 0xD0
    return val == 0x60
  else if id = bme280E2 then do
    let (_, val) ← i2cRead8 0x76 0xD0
    return val == 0x60
  else
    return false

/-- The 20-bit converter value from its word and its low byte. -/
def adcValue (tmp : BitVec 16) (low : BitVec 8) : BitVec 32 :=
  (tmp.setWidth 32 <<< 8 ||| low.setWidth 32).sshiftRight 4

def readAdc (address reg : BitVec 8) : I2c (BitVec 32) := do
  let (_, tmp) ← i2cRead16 address reg
  let (_, low) ← i2cRead8 address (reg + 2)
  return adcValue tmp low

def fineTemperature (calib : Calib) (adcT : BitVec 32) : BitVec 32 :=
  let t1 := calib.digT1.setWidth 32
  let t2 := calib.digT2.signExtend 32
  let t3 := calib.digT3.signExtend 32
  let var1 := ((adcT.sshiftRight 3 - t1 <<< 1) * t2).sshiftRight 11
  let var2 :=
    (((adcT.sshiftRight 4 - t1) * (adcT.sshiftRight 4 - t1)).sshiftRight 12 * t3).sshiftRight 14
  var1 + var2

def centiDegrees (tFine : BitVec 32) : BitVec 16 :=
  ((tFine * 5 + 128).sshiftRight 8).setWidth 16

def bme280GetTemperature (handle : Bme280) : I2c (Bme280 × BitVec 16) := do
  let adcT ← readAdc handle.i2cAddress 0xFA
  let handle := { handle with tFine := fineTemperature handle.calib adcT }
  return (handle, centiDegrees handle.tFine)

/-- The divisor of one turn of the pressure loop; it does not depend on the reading. -/
def pressureDivisor (calib : Calib) (tFine : BitVec 32) : BitVec 64 :=
  let var1 := tFine.signExtend 64 - 128000
  let var1 := (var1 * var1 * calib.digP3.signExtend 64).sshiftRight 8 +
    (var1 * calib.digP2.signExtend 64) <<< 12
  (((1 : BitVec 64) <<< 47 + var1) * calib.digP1.setWidth 64).sshiftRight 33

def compensatePressure (calib : Calib) (tFine : BitVec 32) (var1 : BitVec 64)
    (adcP : BitVec 32) : BitVec 64 :=
  let fine := tFine.signExtend 64 - 128000
  let var2 := fine * fine * calib.digP6.signExtend 64
  let var2 := var2 + (fine * calib.digP5.signExtend 64) <<< 17
  let var2 := var2 + calib.digP4.signExtend 64 <<< 35
  let p := (1048576 - adcP).signExtend 64
  let p := ((p <<< 31 - var2) * 3125).sdiv var1
  let var1 := (calib.digP9.signExtend 64 * p.sshiftRight 13 * p.sshiftRight 13).sshiftRight 25
  let var2 := (calib.digP8.signExtend 64 * p).sshiftRight 19
  (p + var1 + var2).sshiftRight 8 + calib.digP7.signExtend 64 <<< 4

/-- The loop of `BME280_getPressure` with `left` turns to go. -/
def pressureLoop (handle : Bme280) (means : BitVec 16) : ℕ → BitVec 64 → I2c (BitVec 32)
  | 0, sum => return (sum / (means.setWidth 64 * 26)).setWidth 32
  | left + 1, sum => do
    let adcP ← readAdc handle.i2cAddress 0xF7
    let var1 := pressureDivisor handle.calib handle.tFine
    if var1 = 0 then
      return 0
    else
      pressureLoop handle means left
        (sum + compensatePressure handle.calib handle.tFine var1 adcP)

def bme280GetPressure (handle : Bme280) (means : BitVec 16) : I2c (BitVec 32) :=
  pressureLoop handle means means.toNat 0

/-- The last quotient is one of `float`s; its dividend is at most 102400, so it truncates as the
integer quotient does. -/
def relativeHumidity (calib : Calib) (tFine adcH : BitVec 32) : BitVec 8 :=
  let h1 := calib.digH1.setWidth 32
  let h2 := calib.digH2.signExtend 32
  let h3 := calib.digH3.setWidth 32
  let h4 := calib.digH4.signExtend 32
  let h5 := calib.digH5.signExtend 32
  let h6 := calib.digH6.signExtend 32
  let v := tFine - 76800
  let v :=
    (((adcH <<< 14 - h4 <<< 20 - h5 * v) + 16384).sshiftRight 15) *
    ((((((v * h6).sshiftRight 10 * ((v * h3).sshiftRight 11 + 32768)).sshiftRight 10 +
      2097152) * h2 + 8192).sshiftRight 14))
  let v := v - (((v.sshiftRight 15 * v.sshiftRight 15).sshiftRight 7 * h1).sshiftRight 4)
  let v := if v.slt 0 then 0 else v
  let v := if BitVec.slt 419430400 v then 419430400 else v
  (v.sshiftRight 12 / 1020).setWidth 8

def bme280GetHumidity (handle : Bme280) : I2c (BitVec 8) := do
  let (_, tmp) ← i2cRead16 handle.i2cAddress 0xFD
  return relativeHumidity handle.calib handle.tFine (tmp.setWidth 32)

/-- The twelve-bit humidity coefficients: `hi` is the signed upper byte. -/
def nibbleWord (hi lo : BitVec 8) : BitVec 16 :=
  hi.signExtend 16 <<< 4 ||| lo.setWidth 16

/-- The calibration reads of `BME280_Init`, in order. The upper byte of the fifth humidity
coefficient is taken from the register of the sixth. -/
def readCalib (address : BitVec 8) : I2c Calib := do
  let (_, digT1) ← i2cRead16LE address 0x88
  let (_, digT2) ← i2cRead16LE address 0x8A
  let (_, digT3) ← i2cRead16LE address 0x8C
  let (_, digP1) ← i2cRead16LE address 0x8E
  let (_, digP2) ← i2cRead16LE address 0x90
  let (_, digP3) ← i2cRead16LE address 0x92
  let (_, digP4) ← i2cRead16LE address 0x94
  let (_, digP5) ← i2cRead16LE address 0x96
  let (_, digP6) ← i2cRead16LE address 0x98
  let (_, digP7) ← i2cRead16LE address 0x9A
  let (_, digP8) ← i2cRead16LE address 0x9C
  let (_, digP9) ← i2cRead16LE address 0x9E
  let (_, digH1) ← i2cRead8 address 0xA1
  let (_, digH2) ← i2cRead16LE address 0xE1
  let (_, digH3) ← i2cRead8 address 0xE3
  let (_, tmp1) ← i2cRead8 address 0xE4
  let (_, tmp2) ← i2cRead8 address 0xE5
  let digH4 := nibbleWord tmp1 (tmp2 &&& 0x0F)
  let (_, tmp1) ← i2cRead8 address 0xE7
  let (_, tmp2) ← i2cRead8 address 0xE5
  let digH5 := nibbleWord tmp1 (tmp2 >>> 4 &&& 0x0F)
  let (_, digH6) ← i2cRead8 address 0xE7
  return ⟨digT1, digT2, digT3, digP1, digP2, digP3, digP4, digP5, digP6, digP7, digP8, digP9,
    digH1, digH2, digH3, digH4, digH5, digH6⟩

/-- The address `BME280_Init` selects; an unknown id leaves the handle's own. -/
def initAddress (handle : Bme280) (id : BitVec 8) : BitVec 8 :=
  if id = bme280I1 then 0x77
  else if id = bme280E1 ∨ id = bme280E2 then (if id = bme280E1 then 0x77 else 0x76)
  else handle.i2cAddress

def bme280Init (handle : Bme280) (id : BitVec 8) : I2c Bme280 := do
  let address := initAddress handle id
  let calib ← readCalib address
  let _ ← i2cWrite8 address 0xF2 0x03
  let _ ← i2cWrite8 address 0xF4 0x3F
  let (handle, _) ← bme280GetTemperature { handle with i2cAddress := address, calib := calib }
  return handle

end WaferSat.Telemetry
