import WaferSat.DcmiDma.Blocks
import WaferSat.DcmiDma.Factoring

/-!
How far a capture can reach. The memory registers run one block ahead of the block being filled,
so they come to point one block past the image; an error falls through into the same code and
moves them once more, but not further.
-/
namespace WaferSat.DcmiDma
open DmaStream GuardedRun

/-- `armed` lists the addresses put in a memory register, in the order they were put there. -/
structure FeedState where
  dma : Dma
  armed : List (BitVec 32)

inductive FeedAct where
  | complete
  | interrupt (flags : BitVec 32)
  deriving DecidableEq, Repr

/-- Whether an activation with these flags writes a memory register. -/
def Dma.Rearms (d : Dma) (flags : BitVec 32) : Prop :=
  flagKind flags ≠ .half ∧ d.blocksDone + 1#32 ≠ d.numBlocks

instance (d : Dma) (flags : BitVec 32) : Decidable (d.Rearms flags) :=
  inferInstanceAs (Decidable (_ ∧ _))

/-- Blocks complete while the engine is enabled, served or not. Interrupts come with any flags
until the driver disables the stream, which masks them; the engine itself clears only the enable
bit at the end of a single block. -/
def feedStep (handler : Isr) (s : FeedState) : FeedAct → Option FeedState
  | .complete => if s.dma.stream.cr.en = true then some { s with dma := s.dma.complete } else none
  | .interrupt flags =>
    if s.dma.stream.cr.tcie = true then
      let dma := (handler.run flags s.dma).1
      some ⟨dma, if s.dma.Rearms flags then s.armed ++ [dma.stream.other] else s.armed⟩
    else none

/-- A stream with both registers loaded. -/
def fed (d : Dma) : FeedState := ⟨d, [d.stream.m0ar, d.stream.m1ar]⟩

namespace Dma

theorem shuffleBuffers_tcie (d : Dma) : d.shuffleBuffers.stream.cr.tcie = d.stream.cr.tcie := by
  unfold shuffleBuffers
  dsimp only
  split <;> rfl

theorem proceed_tcie (d : Dma) :
    d.proceed.stream.cr.tcie = true ↔ d.stream.cr.tcie = true ∧ d.blocksDone ≠ d.numBlocks := by
  unfold proceed
  split
  next h => simp [disable, dmaStreamDisable, h]
  next h => simp [shuffleBuffers_tcie, h]

theorem proceed_other (d : Dma) : d.proceed.stream.other =
    if d.blocksDone = d.numBlocks then d.stream.other
    else d.dcmiDmaBuffer + d.blockSize * (d.blocksDone + 1#32) := by
  unfold proceed
  split
  · rfl
  · exact shuffleBuffers_other d

/-- An activation that is not only for a half transfer counts a block and moves the idle register
on, unless the count is reached; afterwards interrupts come only if it was clean. -/
theorem isr_not_half (lastBlock : Dma → BitVec 32 → List Call) {flags : BitVec 32} (d : Dma)
    (h : flagKind flags ≠ .half) :
    (isr lastBlock flags d).1.blocksDone = d.blocksDone + 1#32 ∧
    ((isr lastBlock flags d).1.stream.other =
      if d.blocksDone + 1#32 = d.numBlocks then d.stream.other
      else d.dcmiDmaBuffer + d.blockSize * (d.blocksDone + 1#32 + 1#32)) ∧
    ((isr lastBlock flags d).1.stream.cr.tcie = true → d.blocksDone + 1#32 ≠ d.numBlocks) := by
  have hp (e : Dma) (hb : e.blocksDone = d.blocksDone) (hn : e.numBlocks = d.numBlocks)
      (ho : e.stream.other = d.stream.other) (ha : e.dcmiDmaBuffer = d.dcmiDmaBuffer)
      (hs : e.blockSize = d.blockSize) :
      e.count.proceed.blocksDone = d.blocksDone + 1#32 ∧
      (e.count.proceed.stream.other = if d.blocksDone + 1#32 = d.numBlocks then d.stream.other
        else d.dcmiDmaBuffer + d.blockSize * (d.blocksDone + 1#32 + 1#32)) ∧
      (e.count.proceed.stream.cr.tcie = true → d.blocksDone + 1#32 ≠ d.numBlocks) := by
    have hcount : e.count.blocksDone = d.blocksDone + 1#32 := congrArg (· + 1#32) hb
    have hnum : e.count.numBlocks = d.numBlocks := hn
    refine ⟨by rw [proceed_blocksDone, hcount], ?_, fun ht => ?_⟩
    · rw [proceed_other, hcount, hnum, ← ho, ← ha, ← hs]
      rfl
    · rw [← hcount, ← hnum]
      exact ((proceed_tcie _).mp ht).2
  cases hk : flagKind flags with
  | half => exact absurd hk h
  | clean =>
    rw [isr_of_clean hk]
    exact hp d rfl rfl rfl rfl rfl
  | error =>
    rw [isr_of_error hk]
    exact hp d.disable rfl rfl rfl rfl rfl

end Dma

/-- The `k`-th address put in a register is the start of the `k`-th block. While interrupts can
come, the blocks armed are those counted, the one being filled and the one after it. -/
structure Feeding (d₀ : Dma) (s : FeedState) : Prop where
  buffer : s.dma.dcmiDmaBuffer = d₀.dcmiDmaBuffer
  blockSize : s.dma.blockSize = d₀.blockSize
  numBlocks : s.dma.numBlocks = d₀.numBlocks
  armed : s.armed = (List.range s.armed.length).map d₀.slot
  length_le : s.armed.length ≤ d₀.numBlocks.toNat + 1
  ahead : s.dma.stream.cr.tcie = true → s.armed.length = s.dma.blocksDone.toNat + 2
  target_mem : s.dma.stream.target ∈ s.armed
  other_mem : s.dma.stream.other ∈ s.armed

variable {handler : Isr} {d₀ : Dma} {s t : FeedState} {acts : List FeedAct}

theorem feeding_fed {d : Dma} (h : Configured d) (hn : 1 ≤ d.numBlocks.toNat) :
    Feeding d (fed d.dcmiDmaArm) := by
  have h0 : d.slot 0 = d.dcmiDmaBuffer := by simp [Dma.slot]
  have h1 : d.slot 1 = d.dcmiDmaBuffer + d.blockSize := by simp [Dma.slot]
  have hct : d.dcmiDmaArm.stream.cr.ct = false := congrArg Dma.Setup.ct (Dma.setup_arm h)
  refine ⟨rfl, rfl, rfl, ?_, by simp only [fed, List.length_cons, List.length_nil]; omega,
    fun _ => rfl, ?_, ?_⟩
  · simp only [fed, List.length_cons, List.length_nil, List.range_succ, List.range_zero,
      List.nil_append, List.map_cons, List.map_nil, List.cons_append, h0, h1]
    rfl
  · simp [fed, target, hct]
  · simp [fed, other, hct]

theorem feeding_complete (h : Feeding d₀ s) : Feeding d₀ { s with dma := s.dma.complete } := by
  have hreg : (s.dma.stream.complete.target = s.dma.stream.target ∧
        s.dma.stream.complete.other = s.dma.stream.other) ∨
      (s.dma.stream.complete.target = s.dma.stream.other ∧
        s.dma.stream.complete.other = s.dma.stream.target) := by
    unfold complete
    split_ifs
    · refine .inr ?_
      cases hc : s.dma.stream.cr.ct <;> simp [target, other, hc]
    · exact .inl ⟨rfl, rfl⟩
    · exact .inl ⟨rfl, rfl⟩
  have htcie : s.dma.stream.complete.cr.tcie = s.dma.stream.cr.tcie := by
    unfold complete
    split_ifs <;> rfl
  refine ⟨h.buffer, h.blockSize, h.numBlocks, h.armed, h.length_le,
    fun ht => h.ahead (htcie.symm.trans ht), ?_, ?_⟩
  · rcases hreg with hr | hr
    · exact hr.1 ▸ h.target_mem
    · exact hr.1 ▸ h.other_mem
  · rcases hreg with hr | hr
    · exact hr.2 ▸ h.other_mem
    · exact hr.2 ▸ h.target_mem

theorem Feeding.blocksDone_succ (h : Feeding d₀ s) (ht : s.dma.stream.cr.tcie = true) :
    (s.dma.blocksDone + 1#32).toNat = s.dma.blocksDone.toNat + 1 := by
  have hahead := h.ahead ht
  have hlength := h.length_le
  have hlt := d₀.numBlocks.isLt
  rw [BitVec.toNat_add, BitVec.toNat_ofNat]
  omega

theorem Feeding.next_slot (h : Feeding d₀ s) (ht : s.dma.stream.cr.tcie = true) :
    s.dma.dcmiDmaBuffer + s.dma.blockSize * (s.dma.blocksDone + 1#32 + 1#32) =
      d₀.slot s.armed.length := by
  rw [h.ahead ht, h.buffer, h.blockSize, Dma.slot]
  congr 2
  apply BitVec.eq_of_toNat_eq
  rw [BitVec.toNat_add, h.blocksDone_succ ht, BitVec.toNat_ofNat, BitVec.toNat_ofNat]

theorem feeding_interrupt (h : Feeding d₀ s) {flags : BitVec 32}
    (ht : s.dma.stream.cr.tcie = true) :
    Feeding d₀ ⟨(handler.run flags s.dma).1,
      if s.dma.Rearms flags then
        s.armed ++ [(handler.run flags s.dma).1.stream.other] else s.armed⟩ := by
  obtain ⟨lastBlock, hrun⟩ := handler.run_eq_isr
  rw [hrun]
  have hs := Dma.setup_isr lastBlock flags s.dma
  simp only [Dma.setup, Dma.Setup.mk.injEq] at hs
  obtain ⟨hb, hz, hc, -, -, -, -, -, htarget⟩ := hs
  have hahead := h.ahead ht
  have hlength := h.length_le
  have hsucc := h.blocksDone_succ ht
  by_cases hk : flagKind flags = .half
  · rw [Dma.isr_of_half hk, if_neg fun hr => hr.1 hk]
    exact h
  · obtain ⟨hdone, hother, htcie⟩ := Dma.isr_not_half lastBlock s.dma hk
    by_cases hlast : s.dma.blocksDone + 1#32 = s.dma.numBlocks
    · rw [if_neg fun hr => hr.2 hlast]
      rw [if_pos hlast] at hother
      exact ⟨hb.trans h.buffer, hz.trans h.blockSize, hc.trans h.numBlocks, h.armed, hlength,
        fun ht => absurd hlast (htcie ht), htarget ▸ h.target_mem, hother ▸ h.other_mem⟩
    · rw [if_pos ⟨hk, hlast⟩]
      rw [if_neg hlast, h.next_slot ht] at hother
      have hroom : s.dma.blocksDone.toNat + 1 ≠ d₀.numBlocks.toNat := by
        rw [← hsucc, ← h.numBlocks]
        exact fun he => hlast (BitVec.eq_of_toNat_eq he)
      refine ⟨hb.trans h.buffer, hz.trans h.blockSize, hc.trans h.numBlocks, ?_, ?_, fun _ => ?_,
        ?_, by simp⟩
      · simp only [List.length_append, List.length_singleton, List.range_succ, List.map_append,
          List.map_singleton, hother]
        rw [← h.armed]
      · simp only [List.length_append, List.length_singleton]
        omega
      · rw [hdone, hsucc]
        simp only [List.length_append, List.length_singleton]
        omega
      · rw [htarget]
        exact List.mem_append_left _ h.target_mem

theorem feeding_step (h : Feeding d₀ s) {a : FeedAct} (ht : feedStep handler s a = some t) :
    Feeding d₀ t := by
  cases a with
  | complete =>
    simp only [feedStep, Option.ite_none_right_eq_some, Option.some.injEq] at ht
    obtain ⟨-, rfl⟩ := ht
    exact feeding_complete h
  | interrupt flags =>
    simp only [feedStep, Option.ite_none_right_eq_some, Option.some.injEq] at ht
    obtain ⟨htcie, rfl⟩ := ht
    exact feeding_interrupt h htcie

theorem feeding_run {d : Dma} (h : Configured d) (hn : 1 ≤ d.numBlocks.toNat)
    (hr : run (feedStep handler) (fed d.dcmiDmaArm) acts = some s) : Feeding d s :=
  run_invariant (fun _ _ _ hs ht => feeding_step hs ht) (feeding_fed h hn) hr

theorem Feeding.registers_mem (h : Feeding d₀ s) :
    s.dma.stream.m0ar ∈ s.armed ∧ s.dma.stream.m1ar ∈ s.armed := by
  have htarget := h.target_mem
  have hother := h.other_mem
  unfold target at htarget
  unfold other at hother
  split_ifs at htarget hother
  · exact ⟨hother, htarget⟩
  · exact ⟨htarget, hother⟩

theorem Feeding.mem_armed (h : Feeding d₀ s) {a : BitVec 32} (ha : a ∈ s.armed) :
    ∃ k ≤ d₀.numBlocks.toNat, a = d₀.slot k := by
  rw [h.armed, List.mem_map] at ha
  obtain ⟨k, hk, rfl⟩ := ha
  have hlen := h.length_le
  rw [List.mem_range] at hk
  exact ⟨k, by omega, rfl⟩

theorem fixedSize_geometry {τ : Type*} {A : StreamAllocator τ} {b b' : Board τ}
    (h : Board.dcmiDmaInit A b = (0, b')) :
    b'.dma.dcmiDmaBuffer = b.dma.dcmiDmaBuffer ∧ 1 ≤ b'.dma.numBlocks.toNat ∧
    b'.dma.numBlocks.toNat * b'.dma.blockSize.toNat = b.dma.dcmiDmaImageSize.toNat ∧
    b'.dma.blockSize.toNat ≤ 262140 := by
  obtain ⟨-, -, n, w, hf, rfl⟩ := Board.dcmiDmaInit_eq_zero h
  obtain ⟨hleast, -, hle, heq⟩ := least_of_factorBlocks hf
  have hbytes := four_mul_toNat hle
  rw [Board.configure_dma]
  refine ⟨rfl, hleast.1.1, ?_, ?_⟩
  · dsimp only
    rw [hbytes, Nat.mul_comm, heq]
  · dsimp only
    omega

/-- The over-allocation of 256 KiB that the header asks for is enough: whatever interrupts come and
whichever handler serves them, no block reaches past it, and at most one block more than the image
has is ever armed. The bound is given for addresses and for offsets, which do not depend on where
the buffer lies. -/
theorem overAllocation_suffices {τ : Type*} {A : StreamAllocator τ} {b b' : Board τ}
    (hinit : Board.dcmiDmaInit A b = (0, b'))
    (hrun : run (feedStep handler) (fed b'.dma.dcmiDmaArm) acts = some s) :
    s.dma.stream.m0ar ∈ s.armed ∧ s.dma.stream.m1ar ∈ s.armed ∧
    (∀ a ∈ s.armed,
      a.toNat + b'.dma.blockSize.toNat ≤
        b.dma.dcmiDmaBuffer.toNat + b.dma.dcmiDmaImageSize.toNat + 262144 ∧
      (a - b.dma.dcmiDmaBuffer).toNat + b'.dma.blockSize.toNat ≤
        b.dma.dcmiDmaImageSize.toNat + 262144) ∧
    s.armed.length ≤ b'.dma.numBlocks.toNat + 1 := by
  have hc := @Board.configured_of_init _ A .shuffle _ _ hinit
  obtain ⟨hbuffer, hn, hsize, hle⟩ := fixedSize_geometry hinit
  have hf := feeding_run hc hn hrun
  refine ⟨hf.registers_mem.1, hf.registers_mem.2, fun a ha => ?_, hf.length_le⟩
  obtain ⟨k, hk, rfl⟩ := hf.mem_armed ha
  have hmul := Nat.mul_le_mul_right b'.dma.blockSize.toNat hk
  have hlt := b.dma.dcmiDmaImageSize.isLt
  have hoffset : (b'.dma.slot k - b.dma.dcmiDmaBuffer).toNat = k * b'.dma.blockSize.toNat := by
    rw [← hbuffer]
    exact slot_sub_toNat (by omega)
  have haddress : (b'.dma.slot k).toNat ≤
      b.dma.dcmiDmaBuffer.toNat + (b'.dma.slot k - b.dma.dcmiDmaBuffer).toNat := by
    rw [BitVec.toNat_sub]
    omega
  rw [hoffset] at haddress ⊢
  omega

/-- Two blocks, the second with an error: a third one is armed, one past the image. -/
theorem overAllocation_suffices_twoBlocks : ∃ s,
    run (feedStep .shuffle) (fed twoBlocksReady.dma.dcmiDmaArm)
      [.complete, .interrupt tcif, .complete, .interrupt (tcif ||| teif)] = some s ∧
    s.armed.length = 3 ∧ ∀ a ∈ s.armed, a.toNat + 0x20000 ≤ 0xD0000000 + 0x40000 + 262144 := by
  have hrun : ∃ s, run (feedStep .shuffle) (fed twoBlocksReady.dma.dcmiDmaArm)
      [.complete, .interrupt tcif, .complete, .interrupt (tcif ||| teif)] = some s ∧
      s.armed.length = 3 := ⟨_, rfl, rfl⟩
  obtain ⟨s, hs, hl⟩ := hrun
  exact ⟨s, hs, hl, fun a ha => ((overAllocation_suffices twoBlocks_init hs).2.2.1 a ha).1⟩

end WaferSat.DcmiDma
