import Mathlib.Data.BitVec

/-!
Registers of DMA2 stream 1 as the camera driver sees them. The macros of the HAL are
plain register writes. The engine itself is described by two facts of its manual: the
address of a block is latched when the block starts, and a completed block either moves
on to the other memory register (double-buffer mode) or ends the transfer.
-/
namespace WaferSat.DcmiDma

/-- `STM32_DMA_ISR_HTIF`: half of the block has been transferred. -/
def htif : BitVec 32 := 0x10#32

/-- `STM32_DMA_ISR_TEIF`: a bus error ended the transfer. -/
def teif : BitVec 32 := 0x08#32

/-- `STM32_DMA_ISR_TCIF`: the block is complete. -/
def tcif : BitVec 32 := 0x20#32

inductive Direction where
  | p2m | m2m
  deriving DecidableEq, Repr

inductive Width where
  | byte | halfword | word
  deriving DecidableEq, Repr

inductive Burst where
  | single | incr4
  deriving DecidableEq, Repr

inductive FifoThreshold where
  | direct | full
  deriving DecidableEq, Repr

structure Control where
  chsel : ℕ
  dir : Direction
  minc : Bool
  psize : Width
  msize : Width
  mburst : Burst
  pburst : Burst
  tcie : Bool
  circ : Bool
  dbm : Bool
  ct : Bool
  en : Bool
  deriving DecidableEq, Repr

/-- `base` is the address latched for the block being filled; it is not a register. -/
structure DmaStream where
  cr : Control
  par : BitVec 32
  ndtr : BitVec 32
  m0ar : BitVec 32
  m1ar : BitVec 32
  fcr : FifoThreshold
  ifcr : BitVec 32
  base : BitVec 32
  deriving DecidableEq, Repr

namespace DmaStream

def reset : DmaStream where
  cr := ⟨0, .p2m, false, .byte, .byte, .single, .single, false, false, false, false, false⟩
  par := 0#32
  ndtr := 0#32
  m0ar := 0#32
  m1ar := 0#32
  fcr := .direct
  ifcr := 0#32
  base := 0#32

/-- The memory register that the current-target bit selects. -/
def target (s : DmaStream) : BitVec 32 := if s.cr.ct then s.m1ar else s.m0ar

/-- The memory register that is not in use. -/
def other (s : DmaStream) : BitVec 32 := if s.cr.ct then s.m0ar else s.m1ar

def dmaStreamSetPeripheral (s : DmaStream) (a : BitVec 32) : DmaStream := { s with par := a }

def dmaStreamSetTransactionSize (s : DmaStream) (n : BitVec 32) : DmaStream := { s with ndtr := n }

def dmaStreamSetMode (s : DmaStream) (mode : Control) : DmaStream := { s with cr := mode }

def dmaStreamSetFIFO (s : DmaStream) (t : FifoThreshold) : DmaStream := { s with fcr := t }

def dmaStreamSetMemory0 (s : DmaStream) (a : BitVec 32) : DmaStream := { s with m0ar := a }

def dmaStreamSetMemory1 (s : DmaStream) (a : BitVec 32) : DmaStream := { s with m1ar := a }

def dmaStreamGetMemory0 (s : DmaStream) : BitVec 32 := s.m0ar

def dmaStreamGetMemory1 (s : DmaStream) : BitVec 32 := s.m1ar

def dmaStreamGetCurrentTarget (s : DmaStream) : ℕ := if s.cr.ct then 1 else 0

def dmaStreamEnable (s : DmaStream) : DmaStream :=
  { s with cr := { s.cr with en := true }, base := s.target }

def dmaStreamDisable (s : DmaStream) : DmaStream :=
  { s with cr := { s.cr with tcie := false, en := false } }

/-- The flags of stream 1 sit six bits up in the clear register. -/
def dmaStreamClearInterruptCompleteOnly (s : DmaStream) : DmaStream := { s with ifcr := tcif <<< 6 }

/-- The engine at the end of a block. -/
def complete (s : DmaStream) : DmaStream :=
  if s.cr.dbm then
    { s with cr := { s.cr with ct := !s.cr.ct }, base := s.other }
  else if s.cr.circ then { s with base := s.target }
  else { s with cr := { s.cr with en := false } }

theorem complete_base_eq_target {s : DmaStream} (h : s.cr.dbm = true) :
    s.complete.base = s.complete.target := by
  cases hc : s.cr.ct <;> simp [complete, h, target, other, hc]

end DmaStream
end WaferSat.DcmiDma
