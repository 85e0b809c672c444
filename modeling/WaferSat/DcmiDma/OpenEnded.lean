import WaferSat.DcmiDma.Blocks
import WaferSat.Camera.Mode

/-!
Where an open-ended capture can write. With two blocks or more the capture is double buffered
and the engine is at most one block past the last one counted; with fewer it runs one block
and stops. One block has 262136 bytes, whatever the size of the buffer.
-/
namespace WaferSat.DcmiDma
open DmaStream GuardedRun

variable {τ : Type*} {A : StreamAllocator τ} {b b' : Board τ} {handler : Isr}
  {d₀ : Dma} {s t : BlockState} {acts : List BlockAct}

/-- The block lies in the buffer handed to the driver. Offsets are taken modulo the address
space, so a buffer that wraps is a buffer like any other. -/
def InBuffer (d : Dma) (x : Block) : Prop :=
  (x.start - d.dcmiDmaBuffer).toNat + x.bytes ≤ d.dcmiDmaBufferSize.toNat

theorem InBuffer.interval {d : Dma} {x : Block} (h : InBuffer d x)
    (hfit : d.dcmiDmaBuffer.toNat + d.dcmiDmaBufferSize.toNat ≤ 2 ^ 32) (hx : 0 < x.bytes) :
    d.dcmiDmaBuffer.toNat ≤ x.start.toNat ∧
      x.start.toNat + x.bytes ≤ d.dcmiDmaBuffer.toNat + d.dcmiDmaBufferSize.toNat := by
  unfold InBuffer at h
  rw [BitVec.toNat_sub] at h
  have hs := x.start.isLt
  have hb := d.dcmiDmaBuffer.isLt
  omega

/-- Every block the engine is set to fill while the stream is enabled lies in the buffer. -/
def StaysInBuffer (handler : Isr) (d : Dma) : Prop :=
  ∀ acts s, run (blockStep handler) (armed d) acts = some s →
    s.dma.stream.cr.en = true → InBuffer d s.dma.current

/-- A capture of one block from memory register 0 that is not restarted. -/
def SingleBlock (handler : Isr) (d : Dma) : Prop :=
  ∀ acts s, run (blockStep handler) (armed d) acts = some s →
    s.dma.stream.cr.ct = false ∧ s.dma.stream.cr.circ = false ∧ s.dma.stream.cr.dbm = false ∧
    s.dma.stream.base = d.dcmiDmaBuffer ∧ s.dma.stream.target = d.dcmiDmaBuffer ∧
    s.stored.length ≤ 1 ∧ (s.stored ≠ [] → s.dma.stream.cr.en = false)

/-- The invariant of a capture without double buffering. -/
structure Single (d₀ : Dma) (s : BlockState) : Prop where
  setup : s.dma.setup = d₀.dcmiDmaArm.setup
  length_le : s.stored.length ≤ 1
  ended : s.stored ≠ [] → s.dma.stream.cr.en = false

theorem isr_en {lastBlock : Dma → BitVec 32 → List Call} {flags : BitVec 32} {d : Dma}
    (h : (Dma.isr lastBlock flags d).1.stream.cr.en = true) : d.stream.cr.en = true := by
  cases hk : flagKind flags with
  | half => simpa [Dma.isr_of_half hk] using h
  | clean => exact ((Dma.isr_clean_en hk).mp h).1
  | error => exact absurd ((Dma.isr_error_en hk).symm.trans h) (by decide)

theorem single_step (hc : Configured d₀) (hn : (1#32).slt d₀.numBlocks = false)
    (h : Single d₀ s) {a : BlockAct} (ht : blockStep handler s a = some t) : Single d₀ t := by
  have hs := h.setup.trans (Dma.setup_arm hc)
  simp only [Dma.setup, Dma.Setup.mk.injEq, hn] at hs
  obtain ⟨-, -, -, -, hd, hcirc, -⟩ := hs
  cases a with
  | complete =>
    obtain ⟨hen, -, rfl⟩ := complete_cases ht
    have he : s.stored = [] := by
      by_contra hne
      exact absurd ((h.ended hne).symm.trans hen) (by decide)
    have hstop : s.dma.complete =
        { s.dma with
          stream := { s.dma.stream with cr := { s.dma.stream.cr with en := false } } } := by
      simp [Dma.complete, complete, hd, hcirc]
    refine ⟨?_, by simp [he], fun _ => by simp [hstop]⟩
    rw [← h.setup, hstop]
    rfl
  | interrupt flags =>
    obtain ⟨lastBlock, hrun⟩ := handler.run_eq_isr
    have hdma := interrupt_dma ht
    rw [hrun] at hdma
    refine ⟨?_, hdma.2 ▸ h.length_le, fun hne => ?_⟩
    · rw [hdma.1, Dma.setup_isr, h.setup]
    · by_contra hen
      rw [hdma.1, Bool.not_eq_false] at hen
      exact absurd ((h.ended (hdma.2 ▸ hne)).symm.trans (isr_en hen)) (by decide)

theorem single_run (hc : Configured d₀) (hn : (1#32).slt d₀.numBlocks = false)
    (hr : run (blockStep handler) (armed d₀) acts = some t) : Single d₀ t :=
  run_invariant (fun _ _ _ hs ht => single_step hc hn hs ht)
    ⟨rfl, Nat.zero_le _, fun h => absurd rfl h⟩ hr

def openEndedBytes : ℕ := 262136

theorem openEnded_geometry (h : Board.dcmiDmaInitOpenEnded A b = (0, b')) :
    b'.dma.dcmiDmaBuffer = b.dma.dcmiDmaBuffer ∧
    b'.dma.dcmiDmaBufferSize = b.dma.dcmiDmaBufferSize ∧
    4 * b'.dma.stream.ndtr.toNat = openEndedBytes ∧ b'.dma.blockSize.toNat = openEndedBytes ∧
    b'.dma.numBlocks = b.dma.dcmiDmaBufferSize / 262136#32 - 1#32 := by
  have hc := @Board.configured_of_init _ A .shuffleOpenEnded _ _ h
  have hsize := hc.blockSize_toNat
  obtain ⟨-, -, rfl⟩ := Board.dcmiDmaInitOpenEnded_eq_zero h
  rw [Board.configure_dma] at *
  exact ⟨rfl, rfl, hsize.symm.trans rfl, rfl, rfl⟩

theorem openEnded_count {size : BitVec 32} (h : openEndedBytes ≤ size.toNat) :
    (size / 262136#32 - 1#32).toNat + 1 = size.toNat / openEndedBytes := by
  have hd : 1 ≤ size.toNat / openEndedBytes := (Nat.one_le_div_iff (by decide)).mpr h
  have hlt := size.isLt
  rw [BitVec.toNat_sub, BitVec.toNat_udiv, show (262136#32).toNat = openEndedBytes from rfl,
    show (1#32).toNat = 1 from rfl]
  have hle := Nat.div_le_self size.toNat openEndedBytes
  omega

theorem openEnded_staysInBuffer (h : Board.dcmiDmaInitOpenEnded A b = (0, b'))
    (hsize : openEndedBytes ≤ b.dma.dcmiDmaBufferSize.toNat) : StaysInBuffer handler b'.dma := by
  intro acts s hr hen
  have hc := @Board.configured_of_init _ A .shuffleOpenEnded _ _ h
  obtain ⟨hb, hz, hw, hbs, hn⟩ := openEnded_geometry h
  have hcount := openEnded_count hsize
  have hmul := Nat.div_mul_le_self b.dma.dcmiDmaBufferSize.toNat openEndedBytes
  have hlt := b.dma.dcmiDmaBufferSize.isLt
  rw [← hn] at hcount
  rw [InBuffer, hz]
  cases h1 : (1#32).slt b'.dma.numBlocks with
  | true =>
    have hl := linear_run hc h1 hr
    have hk := Nat.mul_le_mul_right openEndedBytes (Nat.add_le_add_right hl.length_le 1)
    rw [hcount, Nat.add_mul, Nat.one_mul] at hk
    simp only [Dma.current, (hl.base hen).1, hl.ndtr, hw]
    rw [slot_sub_toNat (by rw [hbs]; omega), hbs]
    omega
  | false =>
    have hs := (single_run hc h1 hr).setup.trans (Dma.setup_arm hc)
    simp only [Dma.setup, Dma.Setup.mk.injEq] at hs
    obtain ⟨-, -, -, hr, -, -, -, hbase, -⟩ := hs
    simp only [Dma.current, hbase, hr, hw, BitVec.sub_self, BitVec.toNat_ofNat]
    omega

def openEndedBoard (m : Camera.Mode) : Board (Option Isr) :=
  ⟨{ Dma.boot with
      dcmiDmaBuffer := 0xD0000000#32
      dcmiDmaBufferSize := BitVec.ofNat 32 m.ramBufferBytes }, none⟩

/-- The capture stays in its buffer exactly when the buffer has room for one block. With a
count of one or less, including the -1 of a buffer smaller than a block, a single block runs. -/
theorem openEnded_in_buffer_iff (h : Board.dcmiDmaInitOpenEnded A b = (0, b')) :
    (StaysInBuffer .shuffleOpenEnded b'.dma ∧
      (b'.dma.numBlocks.toInt ≤ 1 → SingleBlock .shuffleOpenEnded b'.dma)) ↔
    openEndedBytes ≤ b.dma.dcmiDmaBufferSize.toNat := by
  have hc := @Board.configured_of_init _ A .shuffleOpenEnded _ _ h
  constructor
  · rintro ⟨hstay, -⟩
    obtain ⟨hb, hz, hw, -, -⟩ := openEnded_geometry h
    have hs := Dma.setup_arm hc
    simp only [Dma.setup, Dma.Setup.mk.injEq] at hs
    obtain ⟨-, -, -, hr, -, -, -, hbase, -⟩ := hs
    have h0 := hstay [] (armed b'.dma) rfl rfl
    simp only [InBuffer, Dma.current, armed, hbase, hr, hw, hz, BitVec.sub_self,
      BitVec.toNat_ofNat] at h0
    omega
  · intro hsize
    refine ⟨openEnded_staysInBuffer h hsize, fun hn acts s hr => ?_⟩
    have h1 : (1#32).slt b'.dma.numBlocks = false := by
      rw [← Bool.not_eq_true, one_slt_iff]
      omega
    have hsingle := single_run hc h1 hr
    have hs := hsingle.setup.trans (Dma.setup_arm hc)
    simp only [Dma.setup, Dma.Setup.mk.injEq, h1] at hs
    obtain ⟨-, -, -, -, hd, hcirc, hct, hbase, htarget⟩ := hs
    exact ⟨hct, hcirc, hd, hbase, htarget, hsingle.length_le, hsingle.ended⟩

theorem openEnded_in_buffer_2048x1536 :
    ∃ b', Board.dcmiDmaInitOpenEnded tableEntry (openEndedBoard .mode2048x1536) = (0, b') ∧
      b'.dma.numBlocks = 23#32 ∧ StaysInBuffer .shuffleOpenEnded b'.dma := by
  refine ⟨_, rfl, rfl, ?_⟩
  exact ((openEnded_in_buffer_iff (A := tableEntry) (b := openEndedBoard .mode2048x1536) rfl).mpr
    (by decide)).1

/-- In the smallest mode the first block already runs past the end of the buffer. -/
theorem openEnded_overruns_320x240 :
    ∃ b', Board.dcmiDmaInitOpenEnded tableEntry (openEndedBoard .mode320x240) = (0, b') ∧
      b'.dma.numBlocks.toInt = -1 ∧ (armed b'.dma).dma.stream.cr.en = true ∧
      ¬InBuffer b'.dma (armed b'.dma).dma.current ∧
      ¬StaysInBuffer .shuffleOpenEnded b'.dma := by
  have hout : ∃ b', Board.dcmiDmaInitOpenEnded tableEntry (openEndedBoard .mode320x240) = (0, b') ∧
      b'.dma.numBlocks.toInt = -1 ∧ ¬InBuffer b'.dma (armed b'.dma).dma.current :=
    ⟨_, rfl, rfl, by unfold InBuffer; decide⟩
  obtain ⟨b', hb, hn, hout⟩ := hout
  exact ⟨b', hb, hn, rfl, hout, fun hstay => hout (hstay [] (armed b'.dma) rfl rfl)⟩

end WaferSat.DcmiDma
