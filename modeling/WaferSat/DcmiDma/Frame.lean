import WaferSat.DcmiDma.OverAllocation
import WaferSat.DcmiDma.Words

/-!
The end of a fixed-size capture at the level of words. The counter of the driver follows the
blocks that have been served, so the activation that reaches the count is the one for the last
block, and it finds all the bytes of the frame on their way to memory.
-/
namespace WaferSat.DcmiDma
open DmaStream GuardedRun ByteMemory

variable {handler : Isr} {d : Dma}

/-- The counter holds the blocks served, and the request is as it was when the stream was armed. -/
structure Counted (d : Dma) (s : BlockState) : Prop where
  numBlocks : s.dma.numBlocks = d.numBlocks
  done : s.dma.dcmiDmaDoneCallback = d.dcmiDmaDoneCallback
  error : s.dma.dcmiDmaErrorCallback = d.dcmiDmaErrorCallback
  blocksDone : s.dma.blocksDone + (if s.unserved = true then 1#32 else 0#32) =
    BitVec.ofNat 32 s.stored.length

theorem CleanReach.counted {s : BlockState} (h : CleanReach handler d s) : Counted d s := by
  induction h with
  | armed => exact ⟨rfl, rfl, rfl, rfl⟩
  | @step s t a hs ha ht ih =>
    obtain ⟨lastBlock, hrun⟩ := handler.run_eq_isr
    cases a with
    | complete =>
      obtain ⟨-, hu, rfl⟩ := complete_cases ht
      refine ⟨ih.numBlocks, ih.done, ih.error, ?_⟩
      have hcount := ih.blocksDone
      rw [hu, if_neg (by decide), BitVec.add_zero] at hcount
      rw [if_pos rfl, List.length_append, List.length_singleton]
      exact (congrArg (· + 1#32) hcount).trans (ofNat_succ _).symm
    | interrupt flags =>
      obtain ⟨-, rfl⟩ | ⟨hk, hu, rfl⟩ | ⟨hk, -⟩ := interrupt_cases ht
      · exact ih
      · have hsetup := congrArg Dma.Setup.numBlocks (Dma.setup_isr lastBlock flags s.dma)
        obtain ⟨hdone, herror⟩ := Dma.isr_callbacks lastBlock flags s.dma
        have hcount := ih.blocksDone
        rw [hu, if_pos rfl] at hcount
        rw [hrun]
        refine ⟨hsetup.trans ih.numBlocks, hdone.trans ih.done, herror.trans ih.error, ?_⟩
        rw [if_neg Bool.false_ne_true, BitVec.add_zero, Dma.isr_clean_blocksDone hk, hcount]
      · exact absurd hk (ha flags rfl)

theorem CleanReach.single {s : BlockState} (hc : Configured d)
    (hn : (1#32).slt d.numBlocks = false) (h : CleanReach handler d s) : Single d s := by
  induction h with
  | armed => exact ⟨rfl, Nat.zero_le _, fun h => absurd rfl h⟩
  | step _ _ ht ih => exact single_step hc hn ih ht

theorem CleanReach.off_of_full {s : BlockState} (hc : Configured d) (hpos : 1 ≤ d.numBlocks.toNat)
    (h : CleanReach handler d s) (hfull : s.stored.length = d.numBlocks.toNat)
    (hu : s.unserved = false) : s.dma.stream.cr.en = false := by
  by_contra hen
  rw [Bool.not_eq_false] at hen
  cases h1 : (1#32).slt d.numBlocks with
  | true =>
    have hlt := ((h.linear hc h1).ahead hen hu).2.2
    omega
  | false =>
    have hne : s.stored ≠ [] := List.ne_nil_of_length_pos (by omega)
    exact absurd (((h.single hc h1).ended hne).symm.trans hen) (by decide)

theorem wordStep_interrupt {s t : WordState} {flags : BitVec 32}
    (ht : wordStep handler s (.interrupt flags) = some t) :
    (flagKind flags = .half ∧ t = { s with dma := (handler.run flags s.dma).1 }) ∨
    (flagKind flags = .clean ∧ s.unserved = true ∧
      t = { s with dma := (handler.run flags s.dma).1, unserved := false }) := by
  simp only [wordStep] at ht
  cases hk : flagKind flags with
  | half =>
    simp only [hk, Option.some.injEq] at ht
    exact .inl ⟨rfl, ht.symm⟩
  | clean =>
    simp only [hk, Option.ite_none_right_eq_some, Option.some.injEq] at ht
    exact .inr ⟨rfl, ht.1, ht.2.symm⟩
  | error => simp [hk] at ht

theorem wordStep_drain {s t : WordState} (ht : wordStep handler s .drain = some t) :
    t.dma = s.dma ∧ t.unserved = s.unserved := by
  simp only [wordStep] at ht
  split at ht
  · cases ht
  · obtain rfl := Option.some.inj ht
    exact ⟨rfl, rfl⟩

section Frame

variable {mem : ℕ → BitVec 8} {D : List (BitVec 8)} {s : WordState} {stored : List Block}

/-- All the blocks have been completed exactly when all the bytes have come in. -/
theorem Filling.full_iff (hc : Configured d) (h : Filling handler d mem D s stored)
    (hD : D.length ≤ d.numBlocks.toNat * d.blockSize.toNat) :
    stored.length = d.numBlocks.toNat ↔ D.length = d.numBlocks.toNat * d.blockSize.toNat := by
  have hlen := h.length_eq
  have hlt := h.filled_lt
  have hsize := hc.blockSize_toNat
  constructor
  · intro hfull
    rw [hfull] at hlen
    omega
  · intro hall
    refine le_antisymm ?_ ?_
    · refine Nat.le_of_mul_le_mul_right ?_ (show 0 < d.blockSize.toNat by omega)
      omega
    · refine Nat.le_of_lt_succ (Nat.lt_of_mul_lt_mul_right (a := d.blockSize.toNat) ?_)
      rw [Nat.succ_mul]
      omega

theorem Filling.stored_le (hc : Configured d) (h : Filling handler d mem D s stored)
    (hD : D.length ≤ d.numBlocks.toNat * d.blockSize.toNat) :
    stored.length ≤ d.numBlocks.toNat := by
  have hlen := h.length_eq
  have hlt := h.filled_lt
  have hsize := hc.blockSize_toNat
  refine Nat.le_of_mul_le_mul_right ?_ (show 0 < d.blockSize.toNat by omega)
  omega

/-- The activation that reaches the block count comes when all the bytes have come in. -/
theorem Filling.last_iff (hc : Configured d) (h : Filling handler d mem D s stored)
    (hD : D.length ≤ d.numBlocks.toNat * d.blockSize.toNat) (hu : s.unserved = true) :
    s.dma.blocksDone + 1#32 = s.dma.numBlocks ↔
      D.length = d.numBlocks.toNat * d.blockSize.toNat := by
  have hcount := h.reach.counted
  have hle := h.stored_le hc hD
  have hlt := d.numBlocks.isLt
  have hdone : s.dma.blocksDone + 1#32 = BitVec.ofNat 32 stored.length := by
    have hb := hcount.blocksDone
    dsimp only at hb
    rwa [hu, if_pos rfl] at hb
  have hnum : s.dma.numBlocks = d.numBlocks := hcount.numBlocks
  rw [← h.full_iff hc hD, hdone, hnum, ← BitVec.toNat_inj, BitVec.toNat_ofNat]
  omega

theorem Filling.off (hc : Configured d) (hpos : 1 ≤ d.numBlocks.toNat)
    (h : Filling handler d mem D s stored)
    (hD : D.length = d.numBlocks.toNat * d.blockSize.toNat) (hu : s.unserved = false) :
    s.dma.stream.cr.en = false :=
  h.reach.off_of_full hc hpos ((h.full_iff hc hD.le).mpr hD) hu

theorem Filling.last_word (hc : Configured d) (hn : d.numBlocks.toNat < 2 ^ 31)
    (h : Filling handler d mem D s stored) {b₀ b₁ b₂ b₃ : BitVec 8} {t : WordState}
    (hD : D.length + 4 = d.numBlocks.toNat * d.blockSize.toNat)
    (ht : wordStep handler s (.word b₀ b₁ b₂ b₃) = some t) : t.unserved = true := by
  have hk := h.stored_lt (by omega)
  have hgo := h.reach.going hc hn hk
  have hen : s.dma.stream.cr.en = true := hgo.en
  have hndtr : s.dma.stream.ndtr = d.stream.ndtr := hgo.ndtr
  simp only [wordStep, hen, ↓reduceIte, hndtr] at ht
  split_ifs at ht with hlast
  · obtain rfl := Option.some.inj ht
    rfl
  · have hmul := Nat.mul_le_mul_right d.blockSize.toNat (show stored.length + 1 ≤ _ from hk)
    have hlen := h.length_eq
    have hlt := h.filled_lt
    have hsize := hc.blockSize_toNat
    rw [Nat.add_mul, Nat.one_mul] at hmul
    omega

end Frame

theorem fixedSize_small {τ : Type*} {A : StreamAllocator τ} {b b' : Board τ}
    (h : Board.dcmiDmaInit A b = (0, b')) : b'.dma.numBlocks.toNat < 2 ^ 31 := by
  have hc := @Board.configured_of_init _ A .shuffle _ _ h
  obtain ⟨-, -, hsize, -⟩ := fixedSize_geometry h
  have hlt := b.dma.dcmiDmaImageSize.isLt
  have hge := hc.ndtr_ge
  have hbytes : 2 ≤ b'.dma.blockSize.toNat := by
    rw [hc.blockSize_toNat]
    omega
  have hmul := Nat.mul_le_mul_left b'.dma.numBlocks.toNat hbytes
  omega

theorem factorBlocks_of_split {size : BitVec 32} {n : ℕ} (h : n ∈ splits size.toNat) :
    ∃ r, factorBlocks size 1#32 = some r := by
  cases hf : factorBlocks size 1#32 with
  | some r => exact ⟨r, rfl⟩
  | none =>
    have hleast := findsLeast_factorBlocks size 1#32 (by decide)
    rw [hf] at hleast
    have hlt := hleast n h
    have hpos := h.1
    rw [BitVec.toNat_ofNat] at hlt
    omega

end WaferSat.DcmiDma
