import WaferSat.Telemetry.Bme280
import WaferSat.Telemetry.Peripherals

/-! `getSensors` of `collector.c`. -/
namespace WaferSat.Telemetry

/-- The fields of `dataPoint_t` that `getSensors` writes. -/
structure DataPoint where
  lightIntensity : BitVec 16
  ltr329IntensityCh0 : BitVec 16
  ltr329IntensityCh1 : BitVec 16
  adcVbat : BitVec 16
  senI1Press : BitVec 32
  senE2Press : BitVec 32
  senI1Temp : BitVec 16
  senE2Temp : BitVec 16
  senI1Hum : BitVec 8
  senE2Hum : BitVec 8
  mpu9250XAccel : BitVec 16
  mpu9250YAccel : BitVec 16
  mpu9250ZAccel : BitVec 16
  stm32Temp : BitVec 16
  tmp100Temp0 : BitVec 16
  tmp100Temp1 : BitVec 16
  tmp100Temp2 : BitVec 16
  tmp100Temp3 : BitVec 16
  tmp100Temp4 : BitVec 16
  tmp100Temp5 : BitVec 16
  tmp100Temp6 : BitVec 16
  tmp100Temp7 : BitVec 16
  gpio : BitVec 8
  deriving DecidableEq, Inhabited

structure Climate where
  press : BitVec 32
  hum : BitVec 8
  temp : BitVec 16
  deriving DecidableEq

/-- The BME280 stanza of `getSensors` for one sensor: its readings and the error
bits, which gain `mask` when the sensor is taken to be absent. -/
def measureBme280 (handle : Bme280) (id mask error : BitVec 8) :
    I2c (Bme280 × Climate × BitVec 8) := do
  if ← bme280IsAvailable id then
    let handle ← bme280Init handle id
    let press ← bme280GetPressure handle 32
    let hum ← bme280GetHumidity handle
    let (handle, temp) ← bme280GetTemperature handle
    return (handle, ⟨press, hum, temp⟩, error)
  else
    return (handle, ⟨0, 0, 0⟩, error ||| mask)

def measureLtr329 : I2c (BitVec 16 × BitVec 16) := do
  if ← ltr329IsAvailable then
    ltr329Init
    let ch0 ← ltr329GetIntensityCh0
    let ch1 ← ltr329GetIntensityCh1
    return (ch0, ch1)
  else
    return (0, 0)

/-- A TMP100 stanza: sensor `id` is probed and set up, sensor `source` is read. -/
def measureTmp100 (id source : BitVec 8) : I2c (BitVec 16) := do
  if ← tmp100IsAvailable id then
    tmp100Init id
    tmp100GetTemperature source
  else
    return 0

def measureMpu9250 : I2c (BitVec 16 × BitVec 16 × BitVec 16) := do
  if ← mpu9250IsAvailable then
    let x ← mpu9250GetX
    let y ← mpu9250GetY
    let z ← mpu9250GetZ
    return (x, y, z)
  else
    return (0, 0, 0)

/-- What follows the two BME280 stanzas. Thermometer 2 is probed, but its field is filled from
thermometer 0. -/
def measureOthers (analog : Analog) (tp : DataPoint) : I2c DataPoint := do
  let lightIntensity := (analog.lightIntensity &&& 0xFFFF).setWidth 16
  let (ch0, ch1) ← measureLtr329
  let t0 ← measureTmp100 0 0
  let t1 ← measureTmp100 1 1
  let t2 ← measureTmp100 2 0
  let t3 ← measureTmp100 3 3
  let t4 ← measureTmp100 4 4
  let t5 ← measureTmp100 5 5
  let t6 ← measureTmp100 6 6
  let t7 ← measureTmp100 7 7
  let (x, y, z) ← measureMpu9250
  return { tp with
    lightIntensity := lightIntensity
    ltr329IntensityCh0 := ch0
    ltr329IntensityCh1 := ch1
    stm32Temp := stm32GetTemp analog.tempSample
    adcVbat := stm32GetVbat analog.vbatSample
    gpio := 0
    tmp100Temp0 := t0
    tmp100Temp1 := t1
    tmp100Temp2 := t2
    tmp100Temp3 := t3
    tmp100Temp4 := t4
    tmp100Temp5 := t5
    tmp100Temp6 := t6
    tmp100Temp7 := t7
    mpu9250XAccel := x
    mpu9250YAccel := y
    mpu9250ZAccel := z }

def DataPoint.setClimates (tp : DataPoint) (i1 e2 : Climate) : DataPoint :=
  { tp with
    senI1Press := i1.press
    senI1Hum := i1.hum
    senI1Temp := i1.temp
    senE2Press := e2.press
    senE2Hum := e2.hum
    senE2Temp := e2.temp }

/-- The data point and `bme280_error`. `handle` is the local variable as it is found
on the stack. -/
def getSensors (analog : Analog) (handle : Bme280) (tp : DataPoint) :
    I2c (DataPoint × BitVec 8) := do
  let (handle, i1, error) ← measureBme280 handle bme280I1 0x1 0
  let (_, e2, error) ← measureBme280 handle bme280E2 0x10 error
  let tp ← measureOthers analog (tp.setClimates i1 e2)
  return (tp, error)

end WaferSat.Telemetry
