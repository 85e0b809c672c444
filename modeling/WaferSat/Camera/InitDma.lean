import WaferSat.Camera.Mode
import WaferSat.DcmiDma.Geometry

/-! The entry points of `ov5640.c` that set the capture driver up and stop it. -/
namespace WaferSat.Camera
open DcmiDma

/-- `OV5640_ram_buffer` as the linker places it: an object of the address space. -/
structure RamBuffer where
  base : BitVec 32
  size : BitVec 32
  base_ne : base ≠ 0#32
  size_ne : size ≠ 0#32
  fits : base.toNat + size.toNat ≤ 2 ^ 32

def Mode.ramBuffer (m : Mode) : RamBuffer where
  base := 0xD0000000#32
  size := BitVec.ofNat 32 m.ramBufferBytes
  base_ne := by decide
  size_ne := by cases m <;> decide
  fits := by cases m <;> decide

variable {τ : Type*}

def requestRGB (buf : RamBuffer) (d : Dma) : Dma := { d with
  dcmiDmaBuffer := buf.base
  dcmiDmaImageSize := buf.size
  dcmiDmaDoneCallback := some .dmaAvail
  dcmiDmaErrorCallback := some .dmaError }

def requestJPEG (buf : RamBuffer) (d : Dma) : Dma := { d with
  dcmiDmaBuffer := buf.base
  dcmiDmaBufferSize := buf.size
  dcmiDmaDoneCallback := some .dmaAvail
  dcmiDmaErrorCallback := some .dmaError }

def thenArm (r : ℤ × Board τ) : ℤ × Board τ := (r.1, { r.2 with dma := r.2.dma.dcmiDmaArm })

/-- `OV5640_InitDMA_RGB`, with the return value of `dcmi_dma_init` that it drops. -/
def ov5640InitDMARGB (A : StreamAllocator τ) (buf : RamBuffer) (b : Board τ) : ℤ × Board τ :=
  thenArm (Board.dcmiDmaInit A { b with dma := requestRGB buf b.dma })

/-- `OV5640_InitDMA`, with the return value of `dcmi_dma_init_open_ended` that it drops. -/
def ov5640InitDMA (A : StreamAllocator τ) (buf : RamBuffer) (b : Board τ) : ℤ × Board τ :=
  thenArm (Board.dcmiDmaInitOpenEnded A { b with dma := requestJPEG buf b.dma })

def initDMAFor (A : StreamAllocator τ) (buf : RamBuffer) : Isr → Board τ → ℤ × Board τ
  | .shuffle => ov5640InitDMARGB A buf
  | .shuffleOpenEnded => ov5640InitDMA A buf

def ov5640DeinitDMA (b : Board τ) : Board τ :=
  { b with dma := { b.dma with stream := b.dma.stream.dmaStreamDisable } }

theorem initDMAFor_eq_thenArm (A : StreamAllocator τ) (buf : RamBuffer) (kind : Isr)
    (b : Board τ) :
    ∃ d, initDMAFor A buf kind b = thenArm (Board.initFor A kind { b with dma := d }) ∧
      d.dcmiDmaBuffer = buf.base ∧ d.dcmiDmaDoneCallback = some .dmaAvail ∧
      d.dcmiDmaErrorCallback = some .dmaError := by
  cases kind with
  | shuffle => exact ⟨requestRGB buf b.dma, rfl, rfl, rfl, rfl⟩
  | shuffleOpenEnded => exact ⟨requestJPEG buf b.dma, rfl, rfl, rfl, rfl⟩

/-- An initialisation that succeeds ends in `dcmi_dma_arm` on a configured stream, with both
callbacks in place and one more request made to the allocator. -/
theorem initDMAFor_eq_zero {A : StreamAllocator τ} {buf : RamBuffer} {kind : Isr}
    {b b' : Board τ} (h : initDMAFor A buf kind b = (0, b')) :
    ∃ d, Configured d ∧ b'.dma = d.dcmiDmaArm ∧ d.dcmiDmaBuffer = buf.base ∧
      d.dcmiDmaDoneCallback = some .dmaAvail ∧ d.dcmiDmaErrorCallback = some .dmaError ∧
      b'.hal = (A.dmaStreamAllocate kind b.hal).2 := by
  obtain ⟨d, hd, hb, hdone, herror⟩ := initDMAFor_eq_thenArm A buf kind b
  rw [hd, thenArm, Prod.mk.injEq] at h
  obtain ⟨h0, rfl⟩ := h
  have hinit : Board.initFor A kind { b with dma := d } =
      (0, (Board.initFor A kind { b with dma := d }).2) := Prod.ext h0 rfl
  obtain ⟨hb', hdone', herror', hhal⟩ := Board.initFor_keeps hinit
  exact ⟨_, Board.configured_of_init hinit, rfl, hb'.trans hb, hdone'.trans hdone,
    herror'.trans herror, hhal⟩

theorem installed_init {A : StreamAllocator τ} {buf : RamBuffer} {kind : Isr} {b b' : Board τ}
    (h : initDMAFor A buf kind b = (0, b')) :
    A.installed b'.hal = some ((A.installed b.hal).getD kind) := by
  obtain ⟨_, _, _, _, _, _, hhal⟩ := initDMAFor_eq_zero h
  rw [hhal]
  cases hi : A.installed b.hal with
  | none => exact (A.allocate_free kind b.hal hi).2
  | some handler => simp [A.allocate_taken kind b.hal (by simp [hi]), hi]

end WaferSat.Camera
