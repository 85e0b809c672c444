import WaferSat.Foundation.ByteMemory
import Mathlib.Data.BitVec

/-!
`memcpy_dma`, a copy in DMA transfers of at most 65535 words. The loop over full transfers
counts the words down and leaves the two pointers where they are, so every transfer copies
from the start and only the first 65535 words of a large area arrive.
-/
namespace WaferSat.MemcpyDma
open ByteMemory

/-- `memcpy` of the C library on areas that do not overlap. -/
def memcpy (dest src : BitVec 32) (n : BitVec 32) (m : ℕ → BitVec 8) : ℕ → BitVec 8 :=
  copyBytes dest.toNat src.toNat n.toNat m

structure Areas (dest src size : BitVec 32) : Prop where
  dest_fits : dest.toNat + size.toNat ≤ 2 ^ 32
  src_fits : src.toNat + size.toNat ≤ 2 ^ 32
  apart : Apart dest.toNat src.toNat size.toNat

/-- `dmaStartMemCopy` followed by `dmaWaitCompletion`: up to 65535 words are copied. -/
structure CopyEngine where
  copyWords : (src dest words : BitVec 32) → (ℕ → BitVec 8) → ℕ → BitVec 8
  copyWords_eq : ∀ src dest words m, words.toNat ≤ 65535 →
    dest.toNat + 4 * words.toNat ≤ 2 ^ 32 → src.toNat + 4 * words.toNat ≤ 2 ^ 32 →
    Apart dest.toNat src.toNat (4 * words.toNat) →
    copyWords src dest words m = copyBytes dest.toNat src.toNat (4 * words.toNat) m

def plainEngine : CopyEngine where
  copyWords src dest words m := copyBytes dest.toNat src.toNat (4 * words.toNat) m
  copyWords_eq _ _ _ _ _ _ _ _ := rfl

/-- `max_block` -/
def maxBlock : BitVec 32 := 0xFFFF#32

/-- The loop over full transfers, with the words that are left for the last one. -/
def fullTransfers (E : CopyEngine) (dest src words : BitVec 32) (m : ℕ → BitVec 8) :
    BitVec 32 × (ℕ → BitVec 8) :=
  if maxBlock < words then
    fullTransfers E dest src (words - maxBlock) (E.copyWords src dest maxBlock m)
  else (words, m)
termination_by words.toNat
decreasing_by
  have hlt : maxBlock < words := by assumption
  have hm : maxBlock.toNat = 65535 := rfl
  rw [BitVec.lt_def] at hlt
  rw [BitVec.toNat_sub_of_le (BitVec.le_of_lt (by assumption))]
  omega

def memcpyDma (E : CopyEngine) (dest src size : BitVec 32) (m : ℕ → BitVec 8) : ℕ → BitVec 8 :=
  let words := size / 4#32
  let remainder := size % 4#32
  let r := fullTransfers E dest src words m
  let m := E.copyWords src dest r.1 r.2
  if 0#32 < remainder then
    memcpy (dest + size - remainder) (src + size - remainder) remainder m
  else m

variable {E : CopyEngine} {dest src size : BitVec 32} {m : ℕ → BitVec 8}

theorem Areas.copyWords_eq (h : Areas dest src size) {words : BitVec 32}
    (hw : words.toNat ≤ 65535) (hs : 4 * words.toNat ≤ size.toNat) (m : ℕ → BitVec 8) :
    E.copyWords src dest words m = copyBytes dest.toNat src.toNat (4 * words.toNat) m := by
  have hd := h.dest_fits
  have hf := h.src_fits
  apply E.copyWords_eq src dest words m hw (by omega) (by omega)
  rcases h.apart with ha | ha
  · exact .inl (by omega)
  · exact .inr (by omega)

theorem transfers_eq (h : Areas dest src size) (words : BitVec 32)
    (hs : 4 * words.toNat ≤ size.toNat) (m : ℕ → BitVec 8) :
    E.copyWords src dest (fullTransfers E dest src words m).1 (fullTransfers E dest src words m).2 =
      copyBytes dest.toNat src.toNat (4 * min words.toNat 65535) m := by
  fun_induction fullTransfers E dest src words m with
  | case1 words m hlt ih =>
    have hgt : 65535 < words.toNat := BitVec.lt_def.mp hlt
    have hsub : (words - maxBlock).toNat = words.toNat - 65535 :=
      BitVec.toNat_sub_of_le (BitVec.le_of_lt hlt)
    have hmax : maxBlock.toNat = 65535 := rfl
    have hlonger : max (4 * 65535) (4 * min (words.toNat - 65535) 65535) =
        4 * min words.toNat 65535 := by omega
    rw [ih (by omega), hsub, h.copyWords_eq hmax.le (by omega), hmax,
      copyBytes_copyBytes m h.apart (by omega) (by omega), hlonger]
  | case2 words m hle =>
    have hw : words.toNat ≤ 65535 := by
      rw [BitVec.lt_def] at hle
      exact not_lt.mp hle
    rw [h.copyWords_eq hw hs m, Nat.min_eq_left hw]

theorem tail_toNat (h : dest.toNat + size.toNat ≤ 2 ^ 32) (hr : 0 < size.toNat % 4) :
    (dest + size - size % 4#32).toNat = dest.toNat + 4 * (size.toNat / 4) := by
  have hm : (size % 4#32).toNat = size.toNat % 4 := by simp [BitVec.toNat_umod]
  rw [BitVec.toNat_sub, BitVec.toNat_add, hm]
  omega

theorem memcpyDma_eq (h : Areas dest src size) (m : ℕ → BitVec 8) :
    memcpyDma E dest src size m =
      copyBytes (dest.toNat + 4 * (size.toNat / 4)) (src.toNat + 4 * (size.toNat / 4))
        (size.toNat % 4) (copyBytes dest.toNat src.toNat (4 * min (size.toNat / 4) 65535) m) := by
  have hw : (size / 4#32).toNat = size.toNat / 4 := by simp [BitVec.toNat_udiv]
  have hr : (size % 4#32).toNat = size.toNat % 4 := by simp [BitVec.toNat_umod]
  have hwords := transfers_eq (E := E) h (size / 4#32) (by omega) m
  rw [hw] at hwords
  unfold memcpyDma
  dsimp only
  rw [hwords]
  split_ifs with hpos
  · rw [BitVec.lt_def, hr] at hpos
    rw [memcpy, tail_toNat h.dest_fits hpos, tail_toNat h.src_fits hpos, hr]
  · rw [BitVec.lt_def, hr] at hpos
    have hz : size.toNat % 4 = 0 := Nat.eq_zero_of_not_pos hpos
    rw [hz, copyBytes_zero]

/-- Byte by byte: what is not copied is the part between the first full transfer and the odd
bytes at the end. -/
theorem memcpyDma_byte (h : Areas dest src size) {i : ℕ} (hi : i < size.toNat) :
    memcpyDma E dest src size m (dest.toNat + i) =
      if 262140 ≤ i ∧ i < 4 * (size.toNat / 4) then m (dest.toNat + i) else m (src.toNat + i) := by
  rw [memcpyDma_eq h]
  split_ifs with hgap
  · rw [copyBytes_outside _ (by omega), copyBytes_outside _ (by omega)]
  · by_cases hw : i < 4 * (size.toNat / 4)
    · rw [copyBytes_outside _ (by omega), copyBytes_inside _ (by omega)]
    · obtain ⟨k, rfl⟩ := Nat.exists_eq_add_of_le (not_lt.mp hw)
      rw [← Nat.add_assoc, copyBytes_inside _ (by omega), copyBytes_outside, Nat.add_assoc]
      rcases h.apart with ha | ha <;> omega

/-- `memcpy_dma` does what `memcpy` does exactly when the destination already holds the source
from the end of the first full transfer to the end of the whole words. Below 256 KiB there is
no such part. -/
theorem memcpyDma_eq_memcpy_iff (h : Areas dest src size) :
    memcpyDma E dest src size m = memcpy dest src size m ↔
      ∀ i, 262140 ≤ i → i < 4 * (size.toNat / 4) → m (dest.toNat + i) = m (src.toNat + i) := by
  constructor
  · intro heq i hge hlt
    have hbyte := memcpyDma_byte (E := E) (m := m) h (show i < size.toNat by omega)
    rw [heq, memcpy, copyBytes_inside m (by omega), if_pos ⟨hge, hlt⟩] at hbyte
    exact hbyte.symm
  · intro hsame
    funext a
    by_cases ha : dest.toNat ≤ a ∧ a < dest.toNat + size.toNat
    · obtain ⟨i, rfl⟩ := Nat.exists_eq_add_of_le ha.1
      have hi : i < size.toNat := by omega
      rw [memcpyDma_byte h hi, memcpy, copyBytes_inside m hi]
      split_ifs with hgap
      · exact hsame i hgap.1 hgap.2
      · rfl
    · rw [memcpyDma_eq h, memcpy, copyBytes_outside _ (by omega), copyBytes_outside _ (by omega),
        copyBytes_outside _ (by omega)]

/-- An area of 64 KiB, the size that the memory benchmark copies. -/
theorem memcpyDma_membench :
    memcpyDma plainEngine 0x20000000#32 0xD0000000#32 0x10000#32 (fun i => BitVec.ofNat 8 i) =
      memcpy 0x20000000#32 0xD0000000#32 0x10000#32 (fun i => BitVec.ofNat 8 i) := by
  refine (memcpyDma_eq_memcpy_iff ⟨by decide, by decide, .inl (by decide)⟩).mpr fun i hge hlt => ?_
  have hsize : 4 * ((0x10000#32).toNat / 4) = 65536 := rfl
  omega

/-- One word more than a full transfer, and its last word does not arrive. -/
theorem memcpyDma_misses_last_word :
    memcpyDma plainEngine 0x20000000#32 0xD0000000#32 262144#32
        (fun i => if i < 0xD0000000 then 0#8 else 1#8) ≠
      memcpy 0x20000000#32 0xD0000000#32 262144#32
        (fun i => if i < 0xD0000000 then 0#8 else 1#8) := by
  have hareas : Areas 0x20000000#32 0xD0000000#32 262144#32 :=
    ⟨by decide, by decide, .inl (by decide)⟩
  intro heq
  have hbyte := congrFun heq ((0x20000000#32).toNat + 262140)
  rw [memcpyDma_byte hareas (by decide), memcpy, copyBytes_inside _ (by decide)] at hbyte
  exact absurd hbyte (by decide)

end WaferSat.MemcpyDma
