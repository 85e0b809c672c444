import WaferSat.DcmiDma.Stream

/-!
The capture driver `dcmi_dma.c`: its module variables, the two interrupt handlers, the two
initialisations, `dcmi_dma_arm` and `dcmi_dma_open_ended_stop`. Machine integers keep their
width, so `int` and `uintptr_t` arithmetic wraps as on the target. Console messages are left out.
-/
namespace WaferSat.DcmiDma
open DmaStream

inductive Callback where
  | dmaAvail | dmaError
  deriving DecidableEq, Repr

inductive Isr where
  | shuffle | shuffleOpenEnded
  deriving DecidableEq, Repr

/-- The module variables, with the stream they drive. A null function pointer is `none`. -/
structure Dma where
  dcmiDmaBuffer : BitVec 32
  dcmiDmaImageSize : BitVec 32
  dcmiDmaBufferSize : BitVec 32
  dcmiDmaBytesReceived : BitVec 32
  dcmiDmaDoneCallback : Option Callback
  dcmiDmaDoneCallbackData : BitVec 32
  dcmiDmaErrorCallback : Option Callback
  dcmiDmaErrorCallbackData : BitVec 32
  blocksDone : BitVec 32
  blockSize : BitVec 32
  numBlocks : BitVec 32
  streamControlRegister : Control
  stream : DmaStream
  deriving DecidableEq, Repr

def Dma.boot : Dma where
  dcmiDmaBuffer := 0#32
  dcmiDmaImageSize := 0#32
  dcmiDmaBufferSize := 0#32
  dcmiDmaBytesReceived := 0#32
  dcmiDmaDoneCallback := none
  dcmiDmaDoneCallbackData := 0#32
  dcmiDmaErrorCallback := none
  dcmiDmaErrorCallbackData := 0#32
  blocksDone := 0#32
  blockSize := 0#32
  numBlocks := 0#32
  streamControlRegister := DmaStream.reset.cr
  stream := DmaStream.reset

inductive Slot where
  | done | error
  deriving DecidableEq, Repr

/-- A call through one of the two function pointers; `callee` is the pointer's value. -/
structure Call where
  slot : Slot
  callee : Option Callback
  data : BitVec 32
  flags : BitVec 32
  deriving DecidableEq, Repr

namespace Dma

def callDone (d : Dma) (flags : BitVec 32) : Call :=
  ⟨.done, d.dcmiDmaDoneCallback, d.dcmiDmaDoneCallbackData, flags⟩

def callError (d : Dma) (flags : BitVec 32) : Call :=
  ⟨.error, d.dcmiDmaErrorCallback, d.dcmiDmaErrorCallbackData, flags⟩

def shuffleBuffers (d : Dma) : Dma :=
  let blockAddr := d.dcmiDmaBuffer + d.blockSize * (d.blocksDone + 1#32)
  if dmaStreamGetCurrentTarget d.stream = 0 then
    { d with stream := dmaStreamSetMemory1 d.stream blockAddr }
  else
    { d with stream := dmaStreamSetMemory0 d.stream blockAddr }

/-- The text the two handlers share; `lastBlock` is the callback statement of the branch taken
when the block count is reached. The error branch has no `return`. -/
def isr (lastBlock : Dma → BitVec 32 → List Call) (flags : BitVec 32) (d : Dma) :
    Dma × List Call :=
  let flags := flags &&& ~~~htif
  if flags = 0#32 then (d, [])
  else
    let errors := if flags ≠ tcif ∧ d.dcmiDmaErrorCallback ≠ none then [d.callError flags] else []
    let d := if flags ≠ tcif then { d with stream := dmaStreamDisable d.stream } else d
    let d := { d with
      stream := dmaStreamClearInterruptCompleteOnly d.stream
      blocksDone := d.blocksDone + 1#32 }
    if d.blocksDone = d.numBlocks then
      ({ d with stream := dmaStreamDisable d.stream }, errors ++ lastBlock d flags)
    else (d.shuffleBuffers, errors)

def dcmiDmaShuffleIsr : BitVec 32 → Dma → Dma × List Call :=
  isr fun d flags => if d.dcmiDmaDoneCallback ≠ none then [d.callDone flags] else []

/-- The overrun branch tests the done callback and calls the error callback. -/
def dcmiDmaShuffleIsrOpenEnded : BitVec 32 → Dma → Dma × List Call :=
  isr fun d flags => if d.dcmiDmaDoneCallback ≠ none then [d.callError flags] else []

end Dma

def Isr.run : Isr → BitVec 32 → Dma → Dma × List Call
  | .shuffle => Dma.dcmiDmaShuffleIsr
  | .shuffleOpenEnded => Dma.dcmiDmaShuffleIsrOpenEnded

/-- The HAL's allocation table, known through the handler it has installed on the stream.
A stream that is in use is refused and stays as it is. -/
structure StreamAllocator (τ : Type*) where
  installed : τ → Option Isr
  dmaStreamAllocate : Isr → τ → Bool × τ
  allocate_free : ∀ i t, installed t = none →
    (dmaStreamAllocate i t).1 = false ∧ installed (dmaStreamAllocate i t).2 = some i
  allocate_taken : ∀ i t, installed t ≠ none → dmaStreamAllocate i t = (true, t)

def tableEntry : StreamAllocator (Option Isr) where
  installed := id
  dmaStreamAllocate i t := if t = none then (false, some i) else (true, t)
  allocate_free := by simp
  allocate_taken := by simp

structure Board (τ : Type*) where
  dma : Dma
  hal : τ

theorem count_le_of_not_tiny {size n : BitVec 32} (h : ¬(size / n / 4#32).slt 256#32 = true) :
    n.toNat ≤ size.toNat / 1024 := by
  have hw : (size / n / 4#32).toNat = size.toNat / n.toNat / 4 := by simp [BitVec.toNat_udiv]
  have hb : size.toNat / n.toNat / 4 < 2 ^ 31 := by
    have hs := size.isLt
    have hd : size.toNat / n.toNat ≤ size.toNat := Nat.div_le_self _ _
    omega
  rw [BitVec.slt_eq_decide, BitVec.toInt_eq_toNat_of_lt (by omega), hw] at h
  simp only [BitVec.reduceToInt, decide_eq_true_eq, not_lt] at h
  rcases Nat.eq_zero_or_pos n.toNat with hn | hn
  · omega
  · have hq : 1024 ≤ size.toNat / n.toNat := by omega
    rw [Nat.le_div_iff_mul_le hn] at hq
    omega

theorem count_succ_toNat {size n : BitVec 32} (h : ¬(size / n / 4#32).slt 256#32 = true) :
    (n + 1#32).toNat = n.toNat + 1 := by
  have hs : n.toNat ≤ size.toNat / 1024 ∧ size.toNat < 2 ^ 32 := ⟨count_le_of_not_tiny h, size.isLt⟩
  rw [BitVec.toNat_add, BitVec.toNat_ofNat]
  omega

/-- The trial division of `dcmi_dma_init`, from the candidate block count `n` on. -/
def factorBlocks (size n : BitVec 32) : Option (BitVec 32 × BitVec 32) :=
  let words := size / n / 4#32
  if words.slt 256#32 then none
  else if 4#32 * words * n ≠ size then factorBlocks size (n + 1#32)
  else if (65535#32).slt words then factorBlocks size (n + 1#32)
  else some (n, words)
termination_by size.toNat + 1 - n.toNat
decreasing_by
  all_goals
    have hw : ¬(size / n / 4#32).slt 256#32 = true := by assumption
    have hn := count_le_of_not_tiny hw
    rw [count_succ_toNat hw]
    omega

/-- `DCMI_REG_DR_ADDRESS` -/
def dcmiRegDrAddress : BitVec 32 := 0x50050000#32 + 0x28#32

/-- The mode word both initialisations start from, current target cleared. -/
def captureMode : Control where
  chsel := 1
  dir := .p2m
  minc := true
  psize := .word
  msize := .word
  mburst := .incr4
  pburst := .single
  tcie := true
  circ := false
  dbm := false
  ct := false
  en := false

namespace Board

variable {τ : Type*}

/-- The stream set-up that follows the choice of a geometry. The result of the allocation
is not looked at. -/
def configure (A : StreamAllocator τ) (handler : Isr) (b : Board τ) : Board τ :=
  let hal := (A.dmaStreamAllocate handler b.hal).2
  let stream := dmaStreamSetPeripheral b.dma.stream dcmiRegDrAddress
  let stream := dmaStreamSetTransactionSize stream (b.dma.blockSize.sdiv 4#32)
  let stream := dmaStreamSetMode stream captureMode
  let stream := dmaStreamSetFIFO stream .full
  if (1#32).slt b.dma.numBlocks then
    let mode := { captureMode with dbm := true }
    ⟨{ b.dma with streamControlRegister := mode, stream := dmaStreamSetMode stream mode }, hal⟩
  else
    ⟨{ b.dma with streamControlRegister := captureMode, stream := stream }, hal⟩

def dcmiDmaInit (A : StreamAllocator τ) (b : Board τ) : ℤ × Board τ :=
  if b.dma.dcmiDmaBuffer = 0#32 ∨ b.dma.dcmiDmaImageSize = 0#32 then (-1, b)
  else
    match factorBlocks b.dma.dcmiDmaImageSize 1#32 with
    | none => (-1, b)
    | some (n, words) =>
      (0, configure A .shuffle
        { b with dma := { b.dma with numBlocks := n, blockSize := 4#32 * words } })

def dcmiDmaInitOpenEnded (A : StreamAllocator τ) (b : Board τ) : ℤ × Board τ :=
  if b.dma.dcmiDmaBuffer = 0#32 ∨ b.dma.dcmiDmaBufferSize = 0#32 then (-1, b)
  else
    let blockSize := 4#32 * 65534#32
    (0, configure A .shuffleOpenEnded
      { b with dma := { b.dma with
          blockSize := blockSize
          numBlocks := b.dma.dcmiDmaBufferSize / blockSize - 1#32 } })

end Board

namespace Dma

def dcmiDmaArm (d : Dma) : Dma :=
  let stream := dmaStreamSetMode d.stream d.streamControlRegister
  let stream := dmaStreamSetMemory0 stream d.dcmiDmaBuffer
  let stream := dmaStreamSetMemory1 stream (d.dcmiDmaBuffer + d.blockSize)
  { d with blocksDone := 0#32, stream := dmaStreamEnable stream }

/-- The build defines `DCMI_DMA_BYTES_RECEIVED_EXTRA_PADDING_MODE`: the larger of the two
memory registers counts as the end of the data. -/
def dcmiDmaOpenEndedStop (d : Dma) : Dma :=
  let stream := dmaStreamDisable d.stream
  let topAddr := dmaStreamGetMemory0 stream
  let topAddrAlt := dmaStreamGetMemory1 stream
  let topAddr := if topAddrAlt > topAddr then topAddrAlt else topAddr
  { d with stream := stream, dcmiDmaBytesReceived := topAddr - d.dcmiDmaBuffer }

end Dma
end WaferSat.DcmiDma
