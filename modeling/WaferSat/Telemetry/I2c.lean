import WaferSat.Foundation.Dialog

/-! The I2C wrapper of `pi2c.c`. A transaction is a request on the bus; the HAL
answers it with a status and with what the receive buffer then holds. -/
namespace WaferSat.Telemetry

inductive Msg where
  | ok
  | timeout
  | reset
  deriving DecidableEq, Repr

abbrev RxBuf := ℕ → BitVec 8

structure Request where
  address : BitVec 8
  txbuf : List (BitVec 8)
  rxbytes : ℕ
  deriving DecidableEq

structure Answer where
  status : Msg
  rxbuf : RxBuf

abbrev I2c := Dialog Request Answer

/-- The outcome and the receive buffer, whatever the outcome. -/
def i2cTransmit (address : BitVec 8) (txbuf : List (BitVec 8)) (rxbytes : ℕ) :
    I2c (Bool × RxBuf) :=
  .ask ⟨address, txbuf, rxbytes⟩ fun x => pure (x.status == .ok, x.rxbuf)

def i2cWrite8 (address reg value : BitVec 8) : I2c Bool := do
  let (ret, _) ← i2cTransmit address [reg, value] 0
  return ret

/-- The byte is handed over even when the transaction failed. -/
def i2cRead8 (address reg : BitVec 8) : I2c (Bool × BitVec 8) := do
  let (ret, rxbuf) ← i2cTransmit address [reg] 1
  return (ret, rxbuf 0)

def wordBE (rxbuf : RxBuf) : BitVec 16 :=
  (rxbuf 0).setWidth 16 <<< 8 ||| (rxbuf 1).setWidth 16

def swapBytes (val : BitVec 16) : BitVec 16 :=
  val >>> 8 ||| val <<< 8

def i2cRead16 (address reg : BitVec 8) : I2c (Bool × BitVec 16) := do
  let (ret, rxbuf) ← i2cTransmit address [reg] 2
  return (ret, wordBE rxbuf)

def i2cRead16LE (address reg : BitVec 8) : I2c (Bool × BitVec 16) := do
  let (ret, val) ← i2cRead16 address reg
  return (ret, swapBytes val)

/-- `I2C_write8_16bitreg` -/
def i2cWrite8Reg16 (address : BitVec 8) (reg : BitVec 16) (value : BitVec 8) : I2c Bool := do
  let (ret, _) ← i2cTransmit address [(reg >>> 8).setWidth 8, (reg &&& 0xFF).setWidth 8, value] 0
  return ret

/-- A bus on which transaction number `i` ends with `outcome i` and leaves `rxbuf i`. -/
def answers (outcome : ℕ → Msg) (rxbuf : ℕ → RxBuf) : ℕ → Request → Answer :=
  fun i _ => ⟨outcome i, rxbuf i⟩

/-- What the receive buffers hold: a successful transaction delivers its bytes, a
failed one leaves what was there. -/
def received (outcome : ℕ → Msg) (bytes left : ℕ → RxBuf) : ℕ → RxBuf :=
  fun i => if outcome i = .ok then bytes i else left i

theorem received_self (outcome : ℕ → Msg) (d : ℕ → RxBuf) : received outcome d d = d := by
  funext i
  simp [received]

theorem received_update {outcome : ℕ → Msg} {j : ℕ} (hj : outcome j ≠ .ok) (d : ℕ → RxBuf)
    (b : RxBuf) : received outcome d (Function.update d j b) = Function.update d j b := by
  funext i
  by_cases hi : i = j
  · subst hi
    simp [received, hj]
  · simp [received, Function.update_of_ne hi]

end WaferSat.Telemetry
