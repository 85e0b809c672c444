import WaferSat.DcmiDma.Geometry
import WaferSat.Foundation.GuardedRun

/-!
Runs of the armed stream at the level of blocks. The engine completes a block only while the
stream is enabled and the previous completion has been served; activations for half transfers
and for errors can come at any time. `stored` records where each completed block went.
-/
namespace WaferSat.DcmiDma
open DmaStream GuardedRun

structure Block where
  start : BitVec 32
  bytes : ℕ
  deriving DecidableEq, Repr

structure BlockState where
  dma : Dma
  unserved : Bool
  stored : List Block
  deriving DecidableEq, Repr

inductive BlockAct where
  | complete
  | interrupt (flags : BitVec 32)
  deriving DecidableEq, Repr

/-- The block the engine is set to fill. -/
def Dma.current (d : Dma) : Block := ⟨d.stream.base, 4 * d.stream.ndtr.toNat⟩

/-- The start of the `k`-th block of the buffer. -/
def Dma.slot (d : Dma) (k : ℕ) : BitVec 32 := d.dcmiDmaBuffer + d.blockSize * BitVec.ofNat 32 k

def Dma.complete (d : Dma) : Dma := { d with stream := d.stream.complete }

def blockStep (handler : Isr) (s : BlockState) : BlockAct → Option BlockState
  | .complete =>
    if s.dma.stream.cr.en = true ∧ s.unserved = false then
      some ⟨s.dma.complete, true, s.stored ++ [s.dma.current]⟩
    else none
  | .interrupt flags =>
    let dma := (handler.run flags s.dma).1
    match flagKind flags with
    | .half => some { s with dma := dma }
    | .clean => if s.unserved = true then some { s with dma := dma, unserved := false } else none
    | .error => some { s with dma := dma, unserved := false }

def armed (d : Dma) : BlockState := ⟨d.dcmiDmaArm, false, []⟩

/-- Double-buffered capture on the buffer of `d₀`, `n` blocks long. While the stream runs,
the block being filled is the one after those stored, and once the last completion has been
served the register ahead already holds the block that follows. -/
structure Linear (d₀ : Dma) (n : ℕ) (s : BlockState) : Prop where
  buffer : s.dma.dcmiDmaBuffer = d₀.dcmiDmaBuffer
  blockSize : s.dma.blockSize = d₀.blockSize
  numBlocks : s.dma.numBlocks = BitVec.ofNat 32 n
  ndtr : s.dma.stream.ndtr = d₀.stream.ndtr
  dbm : s.dma.stream.cr.dbm = true
  stored : s.stored = (List.range s.stored.length).map fun k =>
    ⟨d₀.slot k, 4 * d₀.stream.ndtr.toNat⟩
  length_le : s.stored.length ≤ n
  base : s.dma.stream.cr.en = true → s.dma.stream.base = d₀.slot s.stored.length ∧
    s.dma.stream.target = d₀.slot s.stored.length
  ahead : s.dma.stream.cr.en = true → s.unserved = false →
    s.dma.stream.other = d₀.slot (s.stored.length + 1) ∧
      s.dma.blocksDone = BitVec.ofNat 32 s.stored.length ∧ s.stored.length < n
  behind : s.dma.stream.cr.en = true → s.unserved = true →
    s.dma.blocksDone + 1#32 = BitVec.ofNat 32 s.stored.length

variable {d₀ : Dma} {n : ℕ} {handler : Isr} {s t : BlockState}

theorem ofNat_succ (k : ℕ) : BitVec.ofNat 32 (k + 1) = BitVec.ofNat 32 k + 1#32 := by
  rw [BitVec.ofNat_add]

theorem linear_armed {d : Dma} (h : Configured d) (hn : (1#32).slt d.numBlocks = true) :
    Linear d d.numBlocks.toNat (armed d) := by
  have hs := Dma.setup_arm h
  simp only [Dma.setup, Dma.Setup.mk.injEq] at hs
  obtain ⟨hb, hz, hc, hr, hd, _, _, hbase, htarget⟩ := hs
  have h1 : 1 < d.numBlocks.toNat := (toNat_lt_of_slt (by decide) hn).1
  refine ⟨hb, hz, hc.trans (by simp), hr, hd.trans hn, rfl, Nat.zero_le _, fun _ => ?_,
    fun _ _ => ?_, fun _ hu => ?_⟩
  · exact ⟨by simpa [armed, Dma.slot] using hbase, by simpa [armed, Dma.slot] using htarget⟩
  · exact ⟨by simpa [armed, Dma.slot] using Dma.arm_other h, rfl, by simp [armed]; omega⟩
  · simp [armed] at hu

theorem linear_complete (h : Linear d₀ n s) (hen : s.dma.stream.cr.en = true)
    (hu : s.unserved = false) :
    Linear d₀ n ⟨s.dma.complete, true, s.stored ++ [s.dma.current]⟩ := by
  obtain ⟨hother, hdone, hlt⟩ := h.ahead hen hu
  have hcur : s.dma.current = ⟨d₀.slot s.stored.length, 4 * d₀.stream.ndtr.toNat⟩ := by
    rw [Dma.current, (h.base hen).1, h.ndtr]
  have hbase : s.dma.complete.stream.base = d₀.slot (s.stored.length + 1) := by
    simp [Dma.complete, complete, h.dbm, hother]
  refine ⟨h.buffer, h.blockSize, h.numBlocks, ?_, ?_, ?_, ?_, fun _ => ?_, fun _ hu => ?_,
    fun _ _ => ?_⟩
  · simpa [Dma.complete, complete, h.dbm] using h.ndtr
  · simp [Dma.complete, complete, h.dbm]
  · simp only [List.length_append, List.length_singleton, List.range_succ, List.map_append,
      List.map_singleton, hcur]
    rw [← h.stored]
  · simp only [List.length_append, List.length_singleton]
    omega
  · simp only [List.length_append, List.length_singleton]
    exact ⟨hbase, (complete_base_eq_target h.dbm).symm.trans hbase⟩
  · simp at hu
  · simp only [List.length_append, List.length_singleton]
    exact (congrArg (· + 1#32) hdone).trans (ofNat_succ _).symm

theorem complete_cases (ht : blockStep handler s .complete = some t) :
    s.dma.stream.cr.en = true ∧ s.unserved = false ∧
      t = ⟨s.dma.complete, true, s.stored ++ [s.dma.current]⟩ := by
  simp only [blockStep, Option.ite_none_right_eq_some, Option.some.injEq] at ht
  exact ⟨ht.1.1, ht.1.2, ht.2.symm⟩

theorem interrupt_cases {flags : BitVec 32}
    (ht : blockStep handler s (.interrupt flags) = some t) :
    (flagKind flags = .half ∧ t = s) ∨
    (flagKind flags = .clean ∧ s.unserved = true ∧
      t = { s with dma := (handler.run flags s.dma).1, unserved := false }) ∨
    (flagKind flags = .error ∧
      t = { s with dma := (handler.run flags s.dma).1, unserved := false }) := by
  simp only [blockStep] at ht
  cases hk : flagKind flags with
  | half =>
    obtain ⟨lastBlock, hrun⟩ := handler.run_eq_isr
    simp only [hk, hrun, Dma.isr_of_half hk, Option.some.injEq] at ht
    exact .inl ⟨rfl, ht.symm⟩
  | clean =>
    simp only [hk, Option.ite_none_right_eq_some, Option.some.injEq] at ht
    exact .inr (.inl ⟨rfl, ht.1, ht.2.symm⟩)
  | error =>
    simp only [hk, Option.some.injEq] at ht
    exact .inr (.inr ⟨rfl, ht.symm⟩)

theorem linear_interrupt (h : Linear d₀ n s) {flags : BitVec 32}
    (ht : blockStep handler s (.interrupt flags) = some t) : Linear d₀ n t := by
  obtain ⟨lastBlock, hrun⟩ := handler.run_eq_isr
  have hs := Dma.setup_isr lastBlock flags s.dma
  simp only [Dma.setup, Dma.Setup.mk.injEq] at hs
  obtain ⟨hb, hz, hc, hr, hd, _, _, hbase, htarget⟩ := hs
  obtain ⟨-, rfl⟩ | ⟨hk, hu, rfl⟩ | ⟨hk, rfl⟩ := interrupt_cases ht
  · exact h
  · rw [hrun]
    refine ⟨hb.trans h.buffer, hz.trans h.blockSize, hc.trans h.numBlocks, hr.trans h.ndtr,
      hd.trans h.dbm, h.stored, h.length_le, fun hen => ?_, fun hen _ => ?_, fun _ hu => ?_⟩
    · have hb := h.base ((Dma.isr_clean_en hk).mp hen).1
      exact ⟨hbase.trans hb.1, htarget.trans hb.2⟩
    · obtain ⟨hen, hlast⟩ := (Dma.isr_clean_en hk).mp hen
      have hdone := h.behind hen hu
      have hne : s.stored.length ≠ n := by
        intro he
        exact hlast (by rw [hdone, h.numBlocks, he])
      refine ⟨?_, (Dma.isr_clean_blocksDone hk).trans hdone, lt_of_le_of_ne h.length_le hne⟩
      rw [Dma.isr_clean_other hk hlast, hdone, h.buffer, h.blockSize, ← ofNat_succ]
      rfl
    · simp at hu
  · rw [hrun]
    have hoff : (Dma.isr lastBlock flags s.dma).1.stream.cr.en = false := Dma.isr_error_en hk
    refine ⟨hb.trans h.buffer, hz.trans h.blockSize, hc.trans h.numBlocks, hr.trans h.ndtr,
      hd.trans h.dbm, h.stored, h.length_le, ?_, ?_, ?_⟩ <;> intro hen <;>
      exact absurd (hoff.symm.trans hen) (by decide)

theorem linear_step (h : Linear d₀ n s) {a : BlockAct}
    (ht : blockStep handler s a = some t) : Linear d₀ n t := by
  cases a with
  | complete =>
    obtain ⟨hen, hu, rfl⟩ := complete_cases ht
    exact linear_complete h hen hu
  | interrupt flags => exact linear_interrupt h ht

theorem linear_run {d : Dma} (h : Configured d) (hn : (1#32).slt d.numBlocks = true)
    {acts : List BlockAct} (hr : run (blockStep handler) (armed d) acts = some t) :
    Linear d d.numBlocks.toNat t :=
  run_invariant (fun _ _ _ hs ht => linear_step hs ht) (linear_armed h hn) hr

theorem slot_toNat {d : Dma} {k : ℕ}
    (h : d.dcmiDmaBuffer.toNat + k * d.blockSize.toNat < 2 ^ 32) :
    (d.slot k).toNat = d.dcmiDmaBuffer.toNat + k * d.blockSize.toNat := by
  have hm : (d.slot k).toNat = (d.dcmiDmaBuffer.toNat + k * d.blockSize.toNat) % 2 ^ 32 := by
    simp [Dma.slot, BitVec.toNat_add, BitVec.toNat_mul, Nat.mul_comm]
  rw [hm, Nat.mod_eq_of_lt h]

/-- Offsets from the buffer are right even where the buffer wraps. -/
theorem slot_sub_toNat {d : Dma} {k : ℕ} (h : k * d.blockSize.toNat < 2 ^ 32) :
    (d.slot k - d.dcmiDmaBuffer).toNat = k * d.blockSize.toNat := by
  have hs : d.slot k - d.dcmiDmaBuffer = d.blockSize * BitVec.ofNat 32 k := by
    rw [Dma.slot, BitVec.add_comm, BitVec.add_sub_cancel]
  rw [hs, BitVec.toNat_mul, BitVec.toNat_ofNat, Nat.mul_mod_mod, Nat.mul_comm, Nat.mod_eq_of_lt h]

theorem interrupt_dma {flags : BitVec 32}
    (ht : blockStep handler s (.interrupt flags) = some t) :
    t.dma = (handler.run flags s.dma).1 ∧ t.stored = s.stored := by
  obtain ⟨hk, rfl⟩ | ⟨-, -, rfl⟩ | ⟨-, rfl⟩ := interrupt_cases ht
  · obtain ⟨lastBlock, hrun⟩ := handler.run_eq_isr
    rw [hrun, Dma.isr_of_half hk]
    exact ⟨rfl, rfl⟩
  · exact ⟨rfl, rfl⟩
  · exact ⟨rfl, rfl⟩

/-- An activation never rewrites the register of the block being filled. -/
theorem interrupt_keeps_target {flags : BitVec 32}
    (ht : blockStep handler s (.interrupt flags) = some t) :
    t.dma.stream.cr.ct = s.dma.stream.cr.ct ∧ t.dma.stream.target = s.dma.stream.target := by
  obtain ⟨lastBlock, hrun⟩ := handler.run_eq_isr
  have hs := Dma.setup_isr lastBlock flags s.dma
  simp only [Dma.setup, Dma.Setup.mk.injEq] at hs
  rw [(interrupt_dma ht).1, hrun]
  exact ⟨hs.2.2.2.2.2.2.1, hs.2.2.2.2.2.2.2.2⟩

/-- Double buffering fills memory linearly, whichever initialisation chose the geometry and
whichever handler serves the interrupts. -/
theorem blocks_fill_linearly {τ : Type*} {A : StreamAllocator τ} {kind handler : Isr}
    {b b' : Board τ} (hinit : Board.initFor A kind b = (0, b'))
    (hn : 2 ≤ b'.dma.numBlocks.toInt)
    (hfit : b'.dma.dcmiDmaBuffer.toNat + b'.dma.numBlocks.toNat * b'.dma.blockSize.toNat ≤ 2 ^ 32)
    {acts : List BlockAct} {s : BlockState}
    (hrun : run (blockStep handler) (armed b'.dma) acts = some s) :
    s.stored.length ≤ b'.dma.numBlocks.toNat ∧
    (∀ k x, s.stored[k]? = some x →
      x.start.toNat = b'.dma.dcmiDmaBuffer.toNat + k * b'.dma.blockSize.toNat ∧
      x.bytes = b'.dma.blockSize.toNat) ∧
    s.stored.Pairwise (fun x y => x.start.toNat + x.bytes ≤ y.start.toNat) ∧
    ∀ flags t, blockStep handler s (.interrupt flags) = some t →
      t.dma.stream.cr.ct = s.dma.stream.cr.ct ∧
      t.dma.stream.target = s.dma.stream.target := by
  have hc := Board.configured_of_init hinit
  have hl := linear_run hc (one_slt_iff.mpr hn) hrun
  have hsize := hc.blockSize_toNat
  have hpos : 0 < b'.dma.blockSize.toNat := by have := hc.ndtr_ge; omega
  have hstart (k : ℕ) (hk : k < s.stored.length) : (b'.dma.slot k).toNat =
      b'.dma.dcmiDmaBuffer.toNat + k * b'.dma.blockSize.toNat := by
    apply slot_toNat
    have hlen := hl.length_le
    have hmul := Nat.mul_le_mul_right b'.dma.blockSize.toNat (show k + 1 ≤ _ from hk.trans_le hlen)
    rw [Nat.add_mul, Nat.one_mul] at hmul
    omega
  refine ⟨hl.length_le, ?_, ?_, fun flags t ht => interrupt_keeps_target ht⟩
  · intro k x hx
    have hk := (List.getElem?_eq_some_iff.mp hx).1
    rw [hl.stored, List.getElem?_map, List.getElem?_range hk] at hx
    obtain rfl := Option.some.inj hx
    exact ⟨hstart k hk, hsize.symm⟩
  · rw [hl.stored, List.pairwise_map]
    refine (List.pairwise_lt_range).imp_of_mem ?_
    intro i j hi hj hij
    rw [List.mem_range] at hi hj
    dsimp only
    rw [hstart i hi, hstart j hj, ← hsize]
    have hmul := Nat.mul_le_mul_right b'.dma.blockSize.toNat (show i + 1 ≤ j from hij)
    rw [Nat.add_mul, Nat.one_mul] at hmul
    omega

def twoBlocks : Board (Option Isr) :=
  ⟨{ Dma.boot with dcmiDmaBuffer := 0xD0000000#32, dcmiDmaImageSize := 0x40000#32 }, none⟩

def twoBlocksReady : Board (Option Isr) :=
  Board.configure tableEntry .shuffle { twoBlocks with
    dma := { twoBlocks.dma with numBlocks := 2#32, blockSize := 4#32 * 0x8000#32 } }

theorem twoBlocks_init : Board.initFor tableEntry .shuffle twoBlocks = (0, twoBlocksReady) := by
  have hf : factorBlocks 0x40000#32 1#32 = some (2#32, 0x8000#32) := by simp [factorBlocks]
  exact Board.dcmiDmaInit_of_factorBlocks (by decide) (by decide) hf

def twoBlocksActs : List BlockAct :=
  [.complete, .interrupt tcif, .interrupt htif, .complete, .interrupt (tcif ||| htif)]

theorem twoBlocks_fill_linearly :
    ∃ s, run (blockStep .shuffle) (armed twoBlocksReady.dma) twoBlocksActs = some s ∧
      s.stored.length = 2 ∧
      ∀ k x, s.stored[k]? = some x →
        x.start.toNat = 0xD0000000 + k * 0x20000 ∧ x.bytes = 0x20000 := by
  have hrun : ∃ s, run (blockStep .shuffle) (armed twoBlocksReady.dma) twoBlocksActs = some s ∧
      s.stored.length = 2 := ⟨_, rfl, rfl⟩
  obtain ⟨s, hs, hl⟩ := hrun
  exact ⟨s, hs, hl, (blocks_fill_linearly twoBlocks_init (by decide) (by decide) hs).2.1⟩

end WaferSat.DcmiDma
