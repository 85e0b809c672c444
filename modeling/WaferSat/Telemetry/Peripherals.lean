import WaferSat.Telemetry.I2c

/-! The other sensors `getSensors` reads: the LTR-329 light sensor, the TMP100
thermometers, the MPU-9250 accelerometer and the analog inputs. Each of the bus
drivers looks at the outcome of a read before it uses the bytes. -/
namespace WaferSat.Telemetry

def ltr329Channel (reg : BitVec 8) : I2c (BitVec 16) := do
  let (ok, val) ← i2cRead16 0x29 reg
  if ok then return (val >>> 8 &&& 0xFF) ||| (val &&& 0xFF) <<< 8
  else return 0

def ltr329GetIntensityCh0 : I2c (BitVec 16) := ltr329Channel 0x8A
def ltr329GetIntensityCh1 : I2c (BitVec 16) := ltr329Channel 0x88

def ltr329IsAvailable : I2c Bool := do
  let (ok, val) ← i2cRead8 0x29 0x87
  if ok then return val == 0x05
  else return false

def ltr329Init : I2c Unit := do
  let _ ← i2cWrite8 0x29 0x80 0x01
  let _ ← i2cWrite8 0x29 0x85 0x1B

def tmp100Address (id : BitVec 8) : BitVec 8 := 0x48 ||| (id &&& 0x07)

def tmp100GetTemperature (id : BitVec 8) : I2c (BitVec 16) := do
  let (ok, val) ← i2cRead16 (tmp100Address id) 0x00
  if ok then return (((val >>> 4).setWidth 32 * 25).sdiv 4).setWidth 16
  else return 0

def tmp100IsAvailable (id : BitVec 8) : I2c Bool := do
  let (ok, _) ← i2cRead8 (tmp100Address id) 0x01
  return ok

def tmp100Init (id : BitVec 8) : I2c Unit := do
  let _ ← i2cWrite8 (tmp100Address id) 0x01 0x78

def mpu9250Axis (reg : BitVec 8) : I2c (BitVec 16) := do
  let (ok, val) ← i2cRead16 0x68 reg
  if ok then return ((val.signExtend 32 * 1000).sdiv 16384).setWidth 16
  else return 0

def mpu9250GetX : I2c (BitVec 16) := mpu9250Axis 0x3b
def mpu9250GetY : I2c (BitVec 16) := mpu9250Axis 0x3d
def mpu9250GetZ : I2c (BitVec 16) := mpu9250Axis 0x3f

def mpu9250IsAvailable : I2c Bool := do
  let (ok, val) ← i2cRead8 0x68 0x75
  if ok then return val == 0x71
  else return false

/-- What `getSensors` reads without the bus: the last light value of the camera
and the converter samples of its two conversions. -/
structure Analog where
  lightIntensity : BitVec 32
  tempSample : BitVec 16
  vbatSample : BitVec 16
  deriving Inhabited

def stm32GetTemp (sample : BitVec 16) : BitVec 16 :=
  ((sample.setWidth 32 * 40 * 3300).sdiv 4096 - 30400 + 2500).setWidth 16

def stm32GetVbat (sample : BitVec 16) : BitVec 16 :=
  ((sample.setWidth 32 * 3300 * 10).sdiv 4096).setWidth 16

end WaferSat.Telemetry
