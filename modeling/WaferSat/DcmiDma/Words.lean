import WaferSat.DcmiDma.OpenEnded
import WaferSat.Foundation.ByteMemory

/-!
The armed stream at the level of words. The camera's words go into the FIFO of the stream with
the address they are bound for and reach memory later; the last word of a block completes it.
A run at this level is a run of blocks, and as long as the block count is not reached the bytes
end up in memory one after the other.
-/
namespace WaferSat.DcmiDma
open DmaStream GuardedRun ByteMemory

def BlockAct.Clean (a : BlockAct) : Prop := ∀ flags, a = .interrupt flags → flagKind flags ≠ .error

/-- The states of blocks that are reached without errors. -/
inductive CleanReach (handler : Isr) (d : Dma) : BlockState → Prop
  | armed : CleanReach handler d (armed d)
  | step {s t : BlockState} {a : BlockAct} (hs : CleanReach handler d s) (ha : a.Clean)
      (ht : blockStep handler s a = some t) : CleanReach handler d t

/-- A capture whose last block is still to come. Once the completions have been served the two
memory registers hold the current block and the next one. -/
structure Going (d : Dma) (s : BlockState) : Prop where
  en : s.dma.stream.cr.en = true
  buffer : s.dma.dcmiDmaBuffer = d.dcmiDmaBuffer
  ndtr : s.dma.stream.ndtr = d.stream.ndtr
  base : s.dma.stream.base = d.slot s.stored.length
  registers : s.unserved = false →
    s.dma.stream.target = d.slot s.stored.length ∧
    s.dma.stream.other = d.slot (s.stored.length + 1)

namespace CleanReach

variable {handler : Isr} {d : Dma} {s t : BlockState}

theorem linear (hc : Configured d) (hn : (1#32).slt d.numBlocks = true)
    (h : CleanReach handler d s) : Linear d d.numBlocks.toNat s := by
  induction h with
  | armed => exact linear_armed hc hn
  | step _ _ ht ih => exact linear_step ih ht

theorem en_of_lt (hc : Configured d) (hn : (1#32).slt d.numBlocks = true)
    (h : CleanReach handler d s) (hk : s.stored.length < d.numBlocks.toNat) :
    s.dma.stream.cr.en = true := by
  induction h with
  | armed => exact Dma.arm_en d
  | @step s t a hs ha ht ih =>
    have hl := hs.linear hc hn
    cases a with
    | complete =>
      obtain ⟨hen, -, rfl⟩ := complete_cases ht
      simpa [Dma.complete, complete, hl.dbm] using hen
    | interrupt flags =>
      obtain ⟨lastBlock, hrun⟩ := handler.run_eq_isr
      obtain ⟨-, rfl⟩ | ⟨hf, hu, rfl⟩ | ⟨hf, -⟩ := interrupt_cases ht
      · exact ih hk
      · rw [hrun]
        refine (Dma.isr_clean_en hf).mpr ⟨ih hk, fun hlast => ?_⟩
        rw [hl.behind (ih hk) hu, hl.numBlocks] at hlast
        have heq := congrArg BitVec.toNat hlast
        have hlt := d.numBlocks.isLt
        rw [BitVec.toNat_ofNat, BitVec.toNat_ofNat] at heq
        dsimp only at hk
        omega
      · exact absurd hf (ha flags rfl)

theorem eq_armed (h : CleanReach handler d s) (h0 : s.stored = []) :
    s.dma = d.dcmiDmaArm ∧ s.unserved = false := by
  induction h with
  | armed => exact ⟨rfl, rfl⟩
  | @step s t a hs ha ht ih =>
    cases a with
    | complete =>
      obtain ⟨-, -, rfl⟩ := complete_cases ht
      simp at h0
    | interrupt flags =>
      obtain ⟨hdma, hu⟩ := ih ((interrupt_dma ht).2 ▸ h0)
      obtain ⟨-, rfl⟩ | ⟨-, hserved, -⟩ | ⟨hf, -⟩ := interrupt_cases ht
      · exact ⟨hdma, hu⟩
      · exact absurd (hu.symm.trans hserved) (by decide)
      · exact absurd hf (ha flags rfl)

theorem going (hc : Configured d) (hn : d.numBlocks.toNat < 2 ^ 31)
    (h : CleanReach handler d s) (hk : s.stored.length < d.numBlocks.toNat) : Going d s := by
  have hs := Dma.setup_arm hc
  simp only [Dma.setup, Dma.Setup.mk.injEq] at hs
  by_cases h1 : 1 < d.numBlocks.toNat
  · have hdouble : (1#32).slt d.numBlocks = true := (slt_iff_toNat_lt (by decide) hn).mpr h1
    have hl := h.linear hc hdouble
    have hen := h.en_of_lt hc hdouble hk
    refine ⟨hen, hl.buffer, hl.ndtr, (hl.base hen).1, fun hu => ?_⟩
    exact ⟨(hl.base hen).2, (hl.ahead hen hu).1⟩
  · have h0 : s.stored = [] := List.length_eq_zero_iff.mp (by omega)
    obtain ⟨hb, -, -, hr, -, -, -, hbase, htarget⟩ := hs
    have hother := Dma.arm_other hc
    obtain ⟨hdma, -⟩ := h.eq_armed h0
    rw [← hdma] at hb hr hbase htarget hother
    refine ⟨by rw [hdma]; rfl, hb, hr, ?_, fun _ => ?_⟩
    · simp [h0, hbase, Dma.slot]
    · simp [h0, htarget, hother, Dma.slot]

end CleanReach

/-- `filled` counts the words of the current block. -/
structure WordState where
  dma : Dma
  unserved : Bool
  filled : ℕ
  fifo : List (ℕ × List (BitVec 8))
  mem : ℕ → BitVec 8

inductive WordAct where
  | word (b₀ b₁ b₂ b₃ : BitVec 8)
  | drain
  | interrupt (flags : BitVec 32)
  deriving DecidableEq, Repr

/-- The address of the next word. -/
def WordState.address (s : WordState) : ℕ :=
  (s.dma.stream.base + BitVec.ofNat 32 (4 * s.filled)).toNat

/-- A word that meets a disabled stream is lost. A block is not completed before the previous
completion has been served, and no activation carries an error flag. -/
def wordStep (handler : Isr) (s : WordState) : WordAct → Option WordState
  | .word b₀ b₁ b₂ b₃ =>
    if s.dma.stream.cr.en = true then
      let s' := { s with
        filled := s.filled + 1
        fifo := s.fifo ++ [(s.address, [b₀, b₁, b₂, b₃])] }
      if s.filled + 1 = s.dma.stream.ndtr.toNat then
        if s.unserved = false then
          some { s' with dma := s.dma.complete, unserved := true, filled := 0 }
        else none
      else some s'
    else some s
  | .drain =>
    match s.fifo with
    | [] => none
    | w :: fifo => some { s with fifo := fifo, mem := writeBytes w.1 w.2 s.mem }
  | .interrupt flags =>
    let dma := (handler.run flags s.dma).1
    match flagKind flags with
    | .half => some { s with dma := dma }
    | .clean => if s.unserved = true then some { s with dma := dma, unserved := false } else none
    | .error => none

/-- The bytes that the camera sends in the course of a run. -/
def delivered (acts : List WordAct) : List (BitVec 8) :=
  acts.flatMap fun
    | .word b₀ b₁ b₂ b₃ => [b₀, b₁, b₂, b₃]
    | .drain => []
    | .interrupt _ => []

/-- What memory holds once the FIFO has been flushed. -/
def WordState.settled (s : WordState) : ℕ → BitVec 8 := flush s.fifo s.mem

def armedWords (d : Dma) (mem : ℕ → BitVec 8) : WordState := ⟨d.dcmiDmaArm, false, 0, [], mem⟩

/-- The bytes `D` have come in, the driver has seen the blocks `stored`, and memory will hold
the bytes from the start of the buffer on. -/
structure Filling (handler : Isr) (d : Dma) (mem : ℕ → BitVec 8) (D : List (BitVec 8))
    (s : WordState) (stored : List Block) : Prop where
  reach : CleanReach handler d ⟨s.dma, s.unserved, stored⟩
  length_eq : D.length = stored.length * d.blockSize.toNat + 4 * s.filled
  filled_lt : s.filled < d.stream.ndtr.toNat
  settled : s.settled = writeBytes d.dcmiDmaBuffer.toNat D mem

section Fill

variable {handler : Isr} {d : Dma} {mem : ℕ → BitVec 8} {D : List (BitVec 8)} {s t : WordState}
  {stored : List Block} {acts : List WordAct}

theorem Filling.stored_lt (h : Filling handler d mem D s stored)
    (hD : D.length < d.numBlocks.toNat * d.blockSize.toNat) :
    stored.length < d.numBlocks.toNat := by
  by_contra hge
  have hmul := Nat.mul_le_mul_right d.blockSize.toNat (not_lt.mp hge)
  have hlen := h.length_eq
  omega

theorem Filling.address_eq (hc : Configured d) (hn : d.numBlocks.toNat < 2 ^ 31)
    (hfit : d.dcmiDmaBuffer.toNat + d.numBlocks.toNat * d.blockSize.toNat ≤ 2 ^ 32)
    (h : Filling handler d mem D s stored)
    (hD : D.length < d.numBlocks.toNat * d.blockSize.toNat) :
    s.address = d.dcmiDmaBuffer.toNat + D.length := by
  have hlen := h.length_eq
  have hbase : s.dma.stream.base = d.slot stored.length :=
    (h.reach.going hc hn (h.stored_lt hD)).base
  rw [WordState.address, hbase, BitVec.toNat_add, slot_toNat (by omega), BitVec.toNat_ofNat]
  omega

theorem filling_word (hc : Configured d) (hn : d.numBlocks.toNat < 2 ^ 31)
    (hfit : d.dcmiDmaBuffer.toNat + d.numBlocks.toNat * d.blockSize.toNat ≤ 2 ^ 32)
    (h : Filling handler d mem D s stored) {b₀ b₁ b₂ b₃ : BitVec 8}
    (hD : D.length < d.numBlocks.toNat * d.blockSize.toNat)
    (ht : wordStep handler s (.word b₀ b₁ b₂ b₃) = some t) :
    ∃ stored', Filling handler d mem (D ++ [b₀, b₁, b₂, b₃]) t stored' := by
  have hgo := h.reach.going hc hn (h.stored_lt hD)
  have hsettled : flush (s.fifo ++ [(s.address, [b₀, b₁, b₂, b₃])]) s.mem =
      writeBytes d.dcmiDmaBuffer.toNat (D ++ [b₀, b₁, b₂, b₃]) mem := by
    have hs : flush s.fifo s.mem = _ := h.settled
    rw [flush_concat, hs, h.address_eq hc hn hfit hD, writeBytes_append]
  have hlen := h.length_eq
  have hsize := hc.blockSize_toNat
  have hen : s.dma.stream.cr.en = true := hgo.en
  have hndtr : s.dma.stream.ndtr = d.stream.ndtr := hgo.ndtr
  have hlt := h.filled_lt
  simp only [wordStep, hen, ↓reduceIte, hndtr] at ht
  split_ifs at ht with hlast hu
  · obtain rfl := Option.some.inj ht
    refine ⟨stored ++ [s.dma.current], h.reach.step (a := .complete) ?_ ?_, ?_, ?_, hsettled⟩
    · intro flags hf
      cases hf
    · simp [blockStep, hen, hu]
    · simp only [List.length_append, List.length_cons, List.length_nil, Nat.add_mul]
      omega
    · dsimp only
      omega
  · obtain rfl := Option.some.inj ht
    refine ⟨stored, h.reach, ?_, ?_, hsettled⟩
    · simp only [List.length_append, List.length_cons, List.length_nil]
      omega
    · dsimp only
      omega

theorem filling_drain (h : Filling handler d mem D s stored)
    (ht : wordStep handler s .drain = some t) : Filling handler d mem D t stored := by
  simp only [wordStep] at ht
  split at ht
  · cases ht
  · next w fifo hf =>
    obtain rfl := Option.some.inj ht
    have hs := h.settled
    rw [WordState.settled, hf, flush_cons] at hs
    exact ⟨h.reach, h.length_eq, h.filled_lt, hs⟩

theorem filling_interrupt (h : Filling handler d mem D s stored) {flags : BitVec 32}
    (ht : wordStep handler s (.interrupt flags) = some t) : Filling handler d mem D t stored := by
  have hclean : flagKind flags ≠ .error → (BlockAct.interrupt flags).Clean := by
    rintro hk flags' ⟨⟩
    exact hk
  simp only [wordStep] at ht
  cases hk : flagKind flags with
  | half =>
    simp only [hk, Option.some.injEq] at ht
    subst t
    refine ⟨h.reach.step (hclean (by simp [hk])) ?_, h.length_eq, h.filled_lt, h.settled⟩
    simp [blockStep, hk]
  | clean =>
    simp only [hk, Option.ite_none_right_eq_some, Option.some.injEq] at ht
    obtain ⟨hu, rfl⟩ := ht
    refine ⟨h.reach.step (hclean (by simp [hk])) ?_, h.length_eq, h.filled_lt, h.settled⟩
    simp [blockStep, hk, hu]
  | error => simp [hk] at ht

theorem filling_step (hc : Configured d) (hn : d.numBlocks.toNat < 2 ^ 31)
    (hfit : d.dcmiDmaBuffer.toNat + d.numBlocks.toNat * d.blockSize.toNat ≤ 2 ^ 32)
    (h : Filling handler d mem D s stored) {a : WordAct}
    (hD : (D ++ delivered [a]).length ≤ d.numBlocks.toNat * d.blockSize.toNat)
    (ht : wordStep handler s a = some t) :
    ∃ stored', Filling handler d mem (D ++ delivered [a]) t stored' := by
  cases a with
  | word b₀ b₁ b₂ b₃ =>
    have hw : delivered [.word b₀ b₁ b₂ b₃] = [b₀, b₁, b₂, b₃] := rfl
    rw [hw] at hD ⊢
    rw [List.length_append, List.length_cons] at hD
    exact filling_word hc hn hfit h (by omega) ht
  | drain =>
    have hd : delivered [.drain] = [] := rfl
    rw [hd, List.append_nil]
    exact ⟨stored, filling_drain h ht⟩
  | interrupt flags =>
    have hd : delivered [.interrupt flags] = [] := rfl
    rw [hd, List.append_nil]
    exact ⟨stored, filling_interrupt h ht⟩

theorem delivered_cons (a : WordAct) (acts : List WordAct) :
    delivered (a :: acts) = delivered [a] ++ delivered acts := by
  simp [delivered]

theorem filling_run (hc : Configured d) (hn : d.numBlocks.toNat < 2 ^ 31)
    (hfit : d.dcmiDmaBuffer.toNat + d.numBlocks.toNat * d.blockSize.toNat ≤ 2 ^ 32)
    (h : Filling handler d mem D s stored)
    (hD : (D ++ delivered acts).length ≤ d.numBlocks.toNat * d.blockSize.toNat)
    (hr : run (wordStep handler) s acts = some t) :
    ∃ stored', Filling handler d mem (D ++ delivered acts) t stored' := by
  induction acts generalizing s D stored with
  | nil =>
    obtain rfl := Option.some.inj hr
    exact ⟨stored, by simpa [delivered] using h⟩
  | cons a acts ih =>
    obtain ⟨u, hu, hr⟩ := run_cons_eq_some.mp hr
    rw [delivered_cons, ← List.append_assoc] at hD ⊢
    obtain ⟨stored', hf⟩ := filling_step hc hn hfit h (by
      rw [List.length_append] at hD
      omega) hu
    exact ih hf hD hr

theorem filling_armed (hc : Configured d) (handler : Isr) (mem : ℕ → BitVec 8) :
    Filling handler d mem [] (armedWords d mem) [] := by
  refine ⟨.armed, by simp [armedWords], ?_, by simp [WordState.settled, armedWords]⟩
  have hge := hc.ndtr_ge
  simp only [armedWords]
  omega

/-- The length that `dcmi_dma_open_ended_stop` reports: the data, rounded up to whole blocks. -/
theorem Filling.bytesReceived (hc : Configured d) (hn : d.numBlocks.toNat < 2 ^ 31)
    (hfit : d.dcmiDmaBuffer.toNat + d.numBlocks.toNat * d.blockSize.toNat < 2 ^ 32)
    (h : Filling handler d mem D s stored)
    (hD : D.length < d.numBlocks.toNat * d.blockSize.toNat) (hu : s.unserved = false) :
    s.dma.dcmiDmaOpenEndedStop.dcmiDmaBytesReceived.toNat =
      (stored.length + 1) * d.blockSize.toNat := by
  have hk := h.stored_lt hD
  have hgo := h.reach.going hc hn hk
  have hmul := Nat.mul_le_mul_right d.blockSize.toNat (show stored.length + 1 ≤ _ from hk)
  obtain ⟨htarget, hother⟩ := hgo.registers hu
  dsimp only at htarget hother
  have hcur := slot_toNat (d := d) (k := stored.length) (by rw [Nat.add_mul] at hmul; omega)
  have hnext := slot_toNat (d := d) (k := stored.length + 1) (by omega)
  have hbuf : s.dma.dcmiDmaBuffer = d.dcmiDmaBuffer := hgo.buffer
  have hlt : d.slot stored.length < d.slot (stored.length + 1) := by
    have hpos := hc.ndtr_ge
    have hsize := hc.blockSize_toNat
    rw [BitVec.lt_def, hcur, hnext, Nat.add_mul]
    omega
  have htop : s.dma.dcmiDmaOpenEndedStop.dcmiDmaBytesReceived =
      d.slot (stored.length + 1) - d.dcmiDmaBuffer := by
    cases hct : s.dma.stream.cr.ct with
    | false =>
      simp only [target, other, hct, Bool.false_eq_true, ↓reduceIte] at htarget hother
      simp [Dma.dcmiDmaOpenEndedStop, dmaStreamDisable, dmaStreamGetMemory0, dmaStreamGetMemory1,
        htarget, hother, hlt, hbuf]
    | true =>
      simp only [target, other, hct, ↓reduceIte] at htarget hother
      simp [Dma.dcmiDmaOpenEndedStop, dmaStreamDisable, dmaStreamGetMemory0, dmaStreamGetMemory1,
        htarget, hother, BitVec.lt_asymm hlt, hbuf]
  rw [htop, slot_sub_toNat (by omega)]

theorem exists_run_word (hc : Configured d) (hn : d.numBlocks.toNat < 2 ^ 31)
    (h : Filling handler d mem D s stored)
    (hD : D.length < d.numBlocks.toNat * d.blockSize.toNat) (hu : s.unserved = false)
    (b₀ b₁ b₂ b₃ : BitVec 8) :
    ∃ acts t, delivered acts = [b₀, b₁, b₂, b₃] ∧ run (wordStep handler) s acts = some t ∧
      t.unserved = false := by
  have hen : s.dma.stream.cr.en = true := (h.reach.going hc hn (h.stored_lt hD)).en
  by_cases hlast : s.filled + 1 = s.dma.stream.ndtr.toNat
  · have hword : ∃ u, wordStep handler s (.word b₀ b₁ b₂ b₃) = some u ∧ u.unserved = true := by
      simp [wordStep, hen, hlast, hu]
    obtain ⟨u, hu, hunserved⟩ := hword
    have hint : ∃ t, wordStep handler u (.interrupt tcif) = some t ∧ t.unserved = false := by
      simp [wordStep, show flagKind tcif = .clean from by decide, hunserved]
    obtain ⟨t, ht, hserved⟩ := hint
    refine ⟨[.word b₀ b₁ b₂ b₃, .interrupt tcif], t, rfl, ?_, hserved⟩
    rw [run_cons_eq_some]
    exact ⟨u, hu, run_cons_eq_some.mpr ⟨t, ht, rfl⟩⟩
  · have hword : ∃ t, wordStep handler s (.word b₀ b₁ b₂ b₃) = some t ∧ t.unserved = false := by
      simp [wordStep, hen, hlast, hu]
    obtain ⟨t, ht, hserved⟩ := hword
    exact ⟨[.word b₀ b₁ b₂ b₃], t, rfl, run_cons_eq_some.mpr ⟨t, ht, rfl⟩, hserved⟩

theorem delivered_append (acts acts' : List WordAct) :
    delivered (acts ++ acts') = delivered acts ++ delivered acts' := List.flatMap_append

theorem exists_run_delivering (hc : Configured d) (hn : d.numBlocks.toNat < 2 ^ 31)
    (hfit : d.dcmiDmaBuffer.toNat + d.numBlocks.toNat * d.blockSize.toNat ≤ 2 ^ 32)
    (h : Filling handler d mem D s stored) (hu : s.unserved = false)
    (ws : List (BitVec 8 × BitVec 8 × BitVec 8 × BitVec 8))
    (hD : D.length + 4 * ws.length ≤ d.numBlocks.toNat * d.blockSize.toNat) :
    ∃ acts t, delivered acts = ws.flatMap (fun w => [w.1, w.2.1, w.2.2.1, w.2.2.2]) ∧
      run (wordStep handler) s acts = some t ∧ t.unserved = false := by
  induction ws generalizing s D stored with
  | nil => exact ⟨[], s, rfl, rfl, hu⟩
  | cons w ws ih =>
    rw [List.length_cons] at hD
    obtain ⟨as, u, hw, hr, hu⟩ := exists_run_word hc hn h (by omega) hu w.1 w.2.1 w.2.2.1 w.2.2.2
    have hlen : (D ++ delivered as).length = D.length + 4 := by simp [hw]
    obtain ⟨stored', hf⟩ := filling_run hc hn hfit h (by omega) hr
    obtain ⟨bs, t, hb, hr', ht⟩ := ih hf hu (by omega)
    refine ⟨as ++ bs, t, ?_, run_append_eq_some.mpr ⟨u, hr, hr'⟩, ht⟩
    rw [delivered_append, hw, hb, List.flatMap_cons]

end Fill

end WaferSat.DcmiDma
