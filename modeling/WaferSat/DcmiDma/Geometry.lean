import WaferSat.DcmiDma.Handlers

/-! What the two initialisations leave behind when they return zero, and the state in which
`dcmi_dma_arm` starts the stream. -/
namespace WaferSat.DcmiDma
open DmaStream

theorem slt_iff_toNat_lt {x y : BitVec 32} (hx : x.toNat < 2 ^ 31) (hy : y.toNat < 2 ^ 31) :
    x.slt y = true ↔ x.toNat < y.toNat := by
  rw [BitVec.slt_eq_decide, BitVec.toInt_eq_toNat_of_lt (by omega),
    BitVec.toInt_eq_toNat_of_lt (by omega), decide_eq_true_eq]
  exact Int.ofNat_lt

theorem toNat_lt_of_not_slt {x y : BitVec 32} (hy : y.toNat < 2 ^ 31) (h : ¬x.slt y = true) :
    x.toNat < 2 ^ 31 := by
  by_contra hc
  rw [BitVec.slt_eq_decide, BitVec.toInt_eq_toNat_cond,
    BitVec.toInt_eq_toNat_of_lt (by omega), if_neg (by omega), decide_eq_true_eq] at h
  have hx := x.isLt
  omega

theorem toNat_lt_of_slt {x y : BitVec 32} (hx : x.toNat < 2 ^ 31) (h : x.slt y = true) :
    x.toNat < y.toNat ∧ y.toNat < 2 ^ 31 := by
  have hy : y.toNat < 2 ^ 31 := by
    by_contra hc
    rw [BitVec.slt_eq_decide, BitVec.toInt_eq_toNat_of_lt (by omega),
      BitVec.toInt_eq_toNat_cond, if_neg (by omega), decide_eq_true_eq] at h
    have hlt := y.isLt
    omega
  exact ⟨(slt_iff_toNat_lt hx hy).mp h, hy⟩

theorem one_slt_iff {n : BitVec 32} : (1#32).slt n = true ↔ 2 ≤ n.toInt := by
  rw [BitVec.slt_eq_decide, decide_eq_true_eq]
  simp only [BitVec.reduceToInt]
  omega

theorem factorBlocks_some {size n m w : BitVec 32} (h : factorBlocks size n = some (m, w)) :
    256 ≤ w.toNat ∧ w.toNat ≤ 65535 ∧ 4#32 * w * m = size := by
  fun_induction factorBlocks size n with
  | case1 => simp at h
  | case2 _ _ _ _ ih => exact ih h
  | case3 _ _ _ _ _ ih => exact ih h
  | case4 n words hge heq hle =>
    obtain ⟨rfl, rfl⟩ := Prod.mk.inj (Option.some.inj h)
    have hw := toNat_lt_of_not_slt (by decide) hge
    rw [slt_iff_toNat_lt hw (by decide), BitVec.toNat_ofNat] at hge
    rw [slt_iff_toNat_lt (by decide) hw, BitVec.toNat_ofNat] at hle
    exact ⟨by omega, by omega, not_not.mp heq⟩

/-- A stream set up for blocks of `ndtr` words; double buffering from two blocks on. -/
structure Configured (d : Dma) : Prop where
  mode : d.streamControlRegister = { captureMode with dbm := (1#32).slt d.numBlocks }
  blockSize_eq : d.blockSize = 4#32 * d.stream.ndtr
  ndtr_ge : 256 ≤ d.stream.ndtr.toNat
  ndtr_le : d.stream.ndtr.toNat ≤ 65535

theorem Configured.blockSize_toNat {d : Dma} (h : Configured d) :
    d.blockSize.toNat = 4 * d.stream.ndtr.toNat := by
  have hn := h.ndtr_le
  rw [h.blockSize_eq, BitVec.toNat_mul, BitVec.toNat_ofNat]
  omega

namespace Board

variable {τ : Type*} {A : StreamAllocator τ}

/-- The initialisation that goes with each handler. -/
def initFor (A : StreamAllocator τ) : Isr → Board τ → ℤ × Board τ
  | .shuffle => dcmiDmaInit A
  | .shuffleOpenEnded => dcmiDmaInitOpenEnded A

theorem configure_dma (handler : Isr) (b : Board τ) :
    (configure A handler b).dma =
      let mode := { captureMode with dbm := (1#32).slt b.dma.numBlocks }
      { b.dma with
        streamControlRegister := mode
        stream := { b.dma.stream with
          cr := mode
          par := dcmiRegDrAddress
          ndtr := b.dma.blockSize.sdiv 4#32
          fcr := .full } } := by
  by_cases hn : (1#32).slt b.dma.numBlocks = true <;>
    simp [configure, hn, captureMode, dmaStreamSetPeripheral, dmaStreamSetTransactionSize,
      dmaStreamSetMode, dmaStreamSetFIFO]

theorem configure_hal (handler : Isr) (b : Board τ) :
    (configure A handler b).hal = (A.dmaStreamAllocate handler b.hal).2 := by
  unfold configure
  dsimp only
  split <;> rfl

theorem four_mul_sdiv_four {w : BitVec 32} (h : w.toNat ≤ 65535) :
    (4#32 * w).sdiv 4#32 = w := by
  have hm : (4#32 * w).toNat = 4 * w.toNat := by
    rw [BitVec.toNat_mul, BitVec.toNat_ofNat]
    omega
  have hmsb : (4#32 * w).msb = false := by
    rw [BitVec.msb_eq_decide, decide_eq_false_iff_not, hm]
    omega
  have h4 : (4#32).msb = false := by decide
  rw [BitVec.sdiv_eq, hmsb, h4]
  apply BitVec.eq_of_toNat_eq
  simp [BitVec.toNat_udiv, hm]

theorem configured_configure {handler : Isr} {b : Board τ} {w : BitVec 32}
    (hb : b.dma.blockSize = 4#32 * w) (hge : 256 ≤ w.toNat) (hle : w.toNat ≤ 65535) :
    Configured (configure A handler b).dma := by
  have hs : b.dma.blockSize.sdiv 4#32 = w := by rw [hb, four_mul_sdiv_four hle]
  rw [configure_dma]
  exact ⟨rfl, hs.symm ▸ hb, hs.symm ▸ hge, hs.symm ▸ hle⟩

theorem dcmiDmaInit_of_factorBlocks {b : Board τ} {n w : BitVec 32}
    (hb : b.dma.dcmiDmaBuffer ≠ 0#32) (hs : b.dma.dcmiDmaImageSize ≠ 0#32)
    (hf : factorBlocks b.dma.dcmiDmaImageSize 1#32 = some (n, w)) :
    dcmiDmaInit A b = (0, configure A .shuffle
      { b with dma := { b.dma with numBlocks := n, blockSize := 4#32 * w } }) := by
  simp [dcmiDmaInit, hb, hs, hf]

theorem dcmiDmaInit_eq_zero {b b' : Board τ} (h : dcmiDmaInit A b = (0, b')) :
    b.dma.dcmiDmaBuffer ≠ 0#32 ∧ b.dma.dcmiDmaImageSize ≠ 0#32 ∧
    ∃ n w, factorBlocks b.dma.dcmiDmaImageSize 1#32 = some (n, w) ∧
      b' = configure A .shuffle
        { b with dma := { b.dma with numBlocks := n, blockSize := 4#32 * w } } := by
  unfold dcmiDmaInit at h
  split_ifs at h with hz
  · simp at h
  · rw [not_or] at hz
    split at h
    · simp at h
    next n w hf => exact ⟨hz.1, hz.2, n, w, hf, (Prod.mk.inj h).2.symm⟩

theorem dcmiDmaInitOpenEnded_eq_zero {b b' : Board τ} (h : dcmiDmaInitOpenEnded A b = (0, b')) :
    b.dma.dcmiDmaBuffer ≠ 0#32 ∧ b.dma.dcmiDmaBufferSize ≠ 0#32 ∧
    b' = configure A .shuffleOpenEnded { b with dma := { b.dma with
      blockSize := 4#32 * 65534#32
      numBlocks := b.dma.dcmiDmaBufferSize / (4#32 * 65534#32) - 1#32 } } := by
  unfold dcmiDmaInitOpenEnded at h
  split_ifs at h with hz
  · simp at h
  · rw [not_or] at hz
    exact ⟨hz.1, hz.2, (Prod.mk.inj h).2.symm⟩

/-- Both initialisations hand a configured stream to `dcmi_dma_arm`. -/
theorem configured_of_init {kind : Isr} {b b' : Board τ} (h : initFor A kind b = (0, b')) :
    Configured b'.dma := by
  cases kind with
  | shuffle =>
    obtain ⟨_, _, n, w, hf, rfl⟩ := dcmiDmaInit_eq_zero h
    obtain ⟨hge, hle, _⟩ := factorBlocks_some hf
    exact configured_configure rfl hge hle
  | shuffleOpenEnded =>
    obtain ⟨_, _, rfl⟩ := dcmiDmaInitOpenEnded_eq_zero h
    exact configured_configure rfl (by decide) (by decide)

theorem initFor_keeps {kind : Isr} {b b' : Board τ} (h : initFor A kind b = (0, b')) :
    b'.dma.dcmiDmaBuffer = b.dma.dcmiDmaBuffer ∧
    b'.dma.dcmiDmaDoneCallback = b.dma.dcmiDmaDoneCallback ∧
    b'.dma.dcmiDmaErrorCallback = b.dma.dcmiDmaErrorCallback ∧
    b'.hal = (A.dmaStreamAllocate kind b.hal).2 := by
  cases kind with
  | shuffle =>
    obtain ⟨_, _, n, w, _, rfl⟩ := dcmiDmaInit_eq_zero h
    rw [configure_dma, configure_hal]
    exact ⟨rfl, rfl, rfl, rfl⟩
  | shuffleOpenEnded =>
    obtain ⟨_, _, rfl⟩ := dcmiDmaInitOpenEnded_eq_zero h
    rw [configure_dma, configure_hal]
    exact ⟨rfl, rfl, rfl, rfl⟩

end Board

namespace Dma

/-- Armed, the stream fills the start of the buffer and looks one block ahead. -/
theorem setup_arm {d : Dma} (h : Configured d) :
    d.dcmiDmaArm.setup =
      ⟨d.dcmiDmaBuffer, d.blockSize, d.numBlocks, d.stream.ndtr, (1#32).slt d.numBlocks, false,
        false, d.dcmiDmaBuffer, d.dcmiDmaBuffer⟩ := by
  simp [dcmiDmaArm, setup, dmaStreamSetMode, dmaStreamSetMemory0, dmaStreamSetMemory1,
    dmaStreamEnable, target, h.mode, captureMode]

theorem arm_other {d : Dma} (h : Configured d) :
    d.dcmiDmaArm.stream.other = d.dcmiDmaBuffer + d.blockSize := by
  simp [dcmiDmaArm, dmaStreamSetMode, dmaStreamSetMemory0, dmaStreamSetMemory1,
    dmaStreamEnable, other, h.mode, captureMode]

@[simp] theorem arm_en (d : Dma) : d.dcmiDmaArm.stream.cr.en = true := rfl

@[simp] theorem arm_numBlocks (d : Dma) : d.dcmiDmaArm.numBlocks = d.numBlocks := rfl

@[simp] theorem arm_blockSize (d : Dma) : d.dcmiDmaArm.blockSize = d.blockSize := rfl

@[simp] theorem arm_blocksDone (d : Dma) : d.dcmiDmaArm.blocksDone = 0#32 := rfl

end Dma
end WaferSat.DcmiDma
