import WaferSat.Camera.Snapshot
import WaferSat.DcmiDma.OverAllocation

/-!
The length that `dcmi_dma_open_ended_stop` reports when nothing is known about the hardware:
completions that are never served, errors, interrupts with any flags. The memory registers only
ever hold the starts of blocks up to the block count, and the length is read off them.
-/
namespace WaferSat.Camera
open DcmiDma DmaStream GuardedRun

variable {τ : Type*} {A : StreamAllocator τ} {buf : RamBuffer} {b : Board τ} {handler : Isr}
  {s : FeedState} {acts : List FeedAct}

theorem bytesReceived_of_feeding {d₀ : Dma} (h : Feeding d₀ s)
    (hfit : d₀.numBlocks.toNat * d₀.blockSize.toNat < 2 ^ 32) :
    ∃ k ≤ d₀.numBlocks.toNat,
      s.dma.dcmiDmaOpenEndedStop.dcmiDmaBytesReceived.toNat = k * d₀.blockSize.toNat := by
  obtain ⟨h0, h1⟩ := h.registers_mem
  have htop : ∃ a ∈ s.armed, s.dma.dcmiDmaOpenEndedStop.dcmiDmaBytesReceived =
      a - d₀.dcmiDmaBuffer := by
    rw [← h.buffer]
    by_cases hgt : s.dma.stream.m1ar > s.dma.stream.m0ar
    · refine ⟨_, h1, ?_⟩
      simp [Dma.dcmiDmaOpenEndedStop, dmaStreamDisable, dmaStreamGetMemory0, dmaStreamGetMemory1,
        hgt]
    · refine ⟨_, h0, ?_⟩
      simp [Dma.dcmiDmaOpenEndedStop, dmaStreamDisable, dmaStreamGetMemory0, dmaStreamGetMemory1,
        hgt]
  obtain ⟨a, ha, hreceived⟩ := htop
  obtain ⟨k, hk, rfl⟩ := h.mem_armed ha
  refine ⟨k, hk, ?_⟩
  have hmul := Nat.mul_le_mul_right d₀.blockSize.toNat hk
  rw [hreceived, slot_sub_toNat (by omega)]

/-- Whatever completions and interrupts come, and with either handler, a JPEG capture with a
positive block count fills blocks of its buffer only, and the length it reports when it is
stopped is a number of whole blocks with room for one more behind them. -/
theorem capture_length_in_buffer (hn : 1 ≤ (ov5640InitDMA A buf b).2.dma.numBlocks.toInt)
    (hrun : run (feedStep handler) (fed (ov5640InitDMA A buf b).2.dma) acts = some s) :
    (∀ a ∈ s.armed, buf.base.toNat ≤ a.toNat ∧
      a.toNat + openEndedBytes ≤ buf.base.toNat + buf.size.toNat) ∧
    s.dma.stream.m0ar ∈ s.armed ∧ s.dma.stream.m1ar ∈ s.armed ∧
    openEndedBytes ∣ s.dma.dcmiDmaOpenEndedStop.dcmiDmaBytesReceived.toNat ∧
    s.dma.dcmiDmaOpenEndedStop.dcmiDmaBytesReceived.toNat + openEndedBytes ≤ buf.size.toNat := by
  obtain ⟨d, hd, hc, hbase, hbytes, hcount, -⟩ := ov5640InitDMA_armed A buf b
  rw [hd, Dma.arm_numBlocks] at hn
  have hroom := openEnded_room (hcount ▸ hn)
  rw [← hcount, Nat.add_mul, Nat.one_mul] at hroom
  have hpos : 1 ≤ d.numBlocks.toNat := by
    rw [BitVec.toInt_eq_toNat_of_lt (by omega)] at hn
    omega
  rw [hd] at hrun
  have hf := feeding_run hc hpos hrun
  have hlt := buf.size.isLt
  have hfits := buf.fits
  refine ⟨fun a ha => ?_, hf.registers_mem.1, hf.registers_mem.2, ?_⟩
  · obtain ⟨k, hk, rfl⟩ := hf.mem_armed ha
    have hmul := Nat.mul_le_mul_right openEndedBytes hk
    have haddress := slot_toNat (d := d) (k := k) (by
      rw [hbase, hbytes]
      have hblock : 0 < openEndedBytes := by decide
      omega)
    rw [haddress, hbase, hbytes]
    omega
  · obtain ⟨k, hk, hreceived⟩ := bytesReceived_of_feeding hf (by rw [hbytes]; omega)
    have hmul := Nat.mul_le_mul_right openEndedBytes hk
    rw [hreceived, hbytes]
    exact ⟨Nat.dvd_mul_left _ _, by omega⟩

/-- Two completions of which none is served, and then a transfer error. -/
theorem capture_length_after_error : ∃ s,
    run (feedStep .shuffleOpenEnded)
      (fed (ov5640InitDMA tableEntry Mode.mode2048x1536.ramBuffer ⟨Dma.boot, none⟩).2.dma)
      [.complete, .complete, .interrupt (tcif ||| teif)] = some s ∧
    s.dma.dcmiDmaOpenEndedStop.dcmiDmaBytesReceived.toNat + 262136 ≤ 6291456 := by
  have hrun : ∃ s, run (feedStep .shuffleOpenEnded)
      (fed (ov5640InitDMA tableEntry Mode.mode2048x1536.ramBuffer ⟨Dma.boot, none⟩).2.dma)
      [.complete, .complete, .interrupt (tcif ||| teif)] = some s := ⟨_, rfl⟩
  obtain ⟨s, hs⟩ := hrun
  exact ⟨s, hs, (capture_length_in_buffer (by decide) hs).2.2.2.2⟩

end WaferSat.Camera
