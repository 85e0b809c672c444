import WaferSat.DcmiDma.Driver

/-! What one activation of an interrupt handler does, by the kind of its flag word, and
what it leaves alone. Both handlers are instances of `Dma.isr`, so each fact is stated once. -/
namespace WaferSat.DcmiDma
open DmaStream

inductive FlagKind where
  | half | clean | error
  deriving DecidableEq, Repr

/-- `clean` is a completion without an error, with or without the half-transfer flag. -/
def flagKind (flags : BitVec 32) : FlagKind :=
  let flags := flags &&& ~~~htif
  if flags = 0#32 then .half else if flags = tcif then .clean else .error

theorem flagKind_eq_half {flags : BitVec 32} :
    flagKind flags = .half ↔ flags &&& ~~~htif = 0#32 := by
  simp only [flagKind]
  split_ifs <;> simp_all

theorem flagKind_eq_clean {flags : BitVec 32} :
    flagKind flags = .clean ↔ flags &&& ~~~htif = tcif := by
  simp only [flagKind]
  split_ifs with h0 h1
  · simp [h0, tcif]
  · simp [h1]
  · simp [h1]

theorem flagKind_eq_error {flags : BitVec 32} :
    flagKind flags = .error ↔ flags &&& ~~~htif ≠ 0#32 ∧ flags &&& ~~~htif ≠ tcif := by
  simp only [flagKind]
  split_ifs <;> simp_all

namespace Dma

variable {lastBlock : Dma → BitVec 32 → List Call} {flags : BitVec 32} {d : Dma}

def disable (d : Dma) : Dma := { d with stream := dmaStreamDisable d.stream }

/-- The bookkeeping of a completion: the flag is cleared and the block counted. -/
def count (d : Dma) : Dma := { d with
  stream := dmaStreamClearInterruptCompleteOnly d.stream
  blocksDone := d.blocksDone + 1#32 }

/-- What follows the bookkeeping: the stream stops after the last block, else the idle
memory register moves on. -/
def proceed (d : Dma) : Dma := if d.blocksDone = d.numBlocks then d.disable else d.shuffleBuffers

theorem isr_of_half (h : flagKind flags = .half) : isr lastBlock flags d = (d, []) := by
  simp [isr, flagKind_eq_half.mp h]

theorem isr_of_clean (h : flagKind flags = .clean) :
    isr lastBlock flags d = (d.count.proceed,
      if d.blocksDone + 1#32 = d.numBlocks then lastBlock d.count tcif else []) := by
  have hf := flagKind_eq_clean.mp h
  have h0 : tcif ≠ 0#32 := by decide
  by_cases hn : d.blocksDone + 1#32 = d.numBlocks <;>
    simp [isr, hf, h0, hn, proceed, count, disable]

theorem isr_of_error (h : flagKind flags = .error) :
    isr lastBlock flags d = (d.disable.count.proceed,
      (if d.dcmiDmaErrorCallback ≠ none then [d.callError (flags &&& ~~~htif)] else []) ++
      if d.blocksDone + 1#32 = d.numBlocks then
        lastBlock d.disable.count (flags &&& ~~~htif) else []) := by
  obtain ⟨h0, h1⟩ := flagKind_eq_error.mp h
  by_cases hn : d.blocksDone + 1#32 = d.numBlocks <;>
    simp [isr, h0, h1, hn, proceed, count, disable]

/-- The part of the state that fixes where blocks go; no activation changes it. -/
structure Setup where
  buffer : BitVec 32
  blockSize : BitVec 32
  numBlocks : BitVec 32
  ndtr : BitVec 32
  dbm : Bool
  circ : Bool
  ct : Bool
  base : BitVec 32
  target : BitVec 32

def setup (d : Dma) : Setup where
  buffer := d.dcmiDmaBuffer
  blockSize := d.blockSize
  numBlocks := d.numBlocks
  ndtr := d.stream.ndtr
  dbm := d.stream.cr.dbm
  circ := d.stream.cr.circ
  ct := d.stream.cr.ct
  base := d.stream.base
  target := d.stream.target

@[simp] theorem setup_disable (d : Dma) : d.disable.setup = d.setup := rfl

@[simp] theorem setup_count (d : Dma) : d.count.setup = d.setup := rfl

@[simp] theorem setup_shuffleBuffers (d : Dma) : d.shuffleBuffers.setup = d.setup := by
  cases hc : d.stream.cr.ct <;>
    simp [shuffleBuffers, dmaStreamGetCurrentTarget, dmaStreamSetMemory0, dmaStreamSetMemory1,
      setup, target, hc]

@[simp] theorem setup_proceed (d : Dma) : d.proceed.setup = d.setup := by
  unfold proceed
  split <;> simp

theorem setup_isr (lastBlock : Dma → BitVec 32 → List Call) (flags : BitVec 32) (d : Dma) :
    (isr lastBlock flags d).1.setup = d.setup := by
  cases h : flagKind flags with
  | half => simp [isr_of_half h]
  | clean => simp [isr_of_clean h]
  | error => simp [isr_of_error h]

theorem isr_callbacks (lastBlock : Dma → BitVec 32 → List Call) (flags : BitVec 32) (d : Dma) :
    (isr lastBlock flags d).1.dcmiDmaDoneCallback = d.dcmiDmaDoneCallback ∧
    (isr lastBlock flags d).1.dcmiDmaErrorCallback = d.dcmiDmaErrorCallback := by
  have hp (e : Dma) : e.proceed.dcmiDmaDoneCallback = e.dcmiDmaDoneCallback ∧
      e.proceed.dcmiDmaErrorCallback = e.dcmiDmaErrorCallback := by
    unfold proceed shuffleBuffers disable
    dsimp only
    split_ifs <;> exact ⟨rfl, rfl⟩
  cases h : flagKind flags with
  | half => simp [isr_of_half h]
  | clean => rw [isr_of_clean h]; exact hp _
  | error => rw [isr_of_error h]; exact hp _

@[simp] theorem proceed_blocksDone (d : Dma) : d.proceed.blocksDone = d.blocksDone := by
  unfold proceed shuffleBuffers disable
  split
  · rfl
  · dsimp only
    split <;> rfl

theorem shuffleBuffers_en (d : Dma) : d.shuffleBuffers.stream.cr.en = d.stream.cr.en := by
  unfold shuffleBuffers
  dsimp only
  split <;> rfl

theorem shuffleBuffers_other (d : Dma) :
    d.shuffleBuffers.stream.other = d.dcmiDmaBuffer + d.blockSize * (d.blocksDone + 1#32) := by
  cases hc : d.stream.cr.ct <;>
    simp [shuffleBuffers, dmaStreamGetCurrentTarget, dmaStreamSetMemory0, dmaStreamSetMemory1,
      other, hc]

theorem proceed_en (d : Dma) :
    d.proceed.stream.cr.en = (d.stream.cr.en && decide (d.blocksDone ≠ d.numBlocks)) := by
  unfold proceed
  split
  next h => simp [disable, dmaStreamDisable, h]
  next h => simp [shuffleBuffers_en, h]

theorem isr_clean_blocksDone (h : flagKind flags = .clean) :
    (isr lastBlock flags d).1.blocksDone = d.blocksDone + 1#32 := by
  rw [isr_of_clean h, proceed_blocksDone]
  rfl

/-- After a clean completion the stream keeps running unless this was the last block. -/
theorem isr_clean_en (h : flagKind flags = .clean) :
    (isr lastBlock flags d).1.stream.cr.en = true ↔
      d.stream.cr.en = true ∧ d.blocksDone + 1#32 ≠ d.numBlocks := by
  rw [isr_of_clean h, proceed_en, Bool.and_eq_true, decide_eq_true_eq]
  rfl

theorem isr_clean_other (h : flagKind flags = .clean)
    (hn : d.blocksDone + 1#32 ≠ d.numBlocks) :
    (isr lastBlock flags d).1.stream.other =
      d.dcmiDmaBuffer + d.blockSize * (d.blocksDone + 1#32 + 1#32) := by
  have hp : d.count.proceed = d.count.shuffleBuffers := if_neg hn
  rw [isr_of_clean h, hp, shuffleBuffers_other]
  rfl

theorem isr_error_en (h : flagKind flags = .error) :
    (isr lastBlock flags d).1.stream.cr.en = false := by
  rw [isr_of_error h]
  simp [proceed_en, count, disable, dmaStreamDisable, dmaStreamClearInterruptCompleteOnly]

end Dma

theorem Isr.run_eq_isr (i : Isr) : ∃ lastBlock, i.run = Dma.isr lastBlock := by
  cases i
  · exact ⟨_, by unfold run Dma.dcmiDmaShuffleIsr; rfl⟩
  · exact ⟨_, by unfold run Dma.dcmiDmaShuffleIsrOpenEnded; rfl⟩

end WaferSat.DcmiDma
