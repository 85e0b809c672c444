import WaferSat.DcmiDma.Geometry
import Mathlib.Order.Bounds.Basic

/-!
The search of `dcmi_dma_init` for a block count. Candidates are tried in order; the block size
shrinks from one to the next, so the first tiny one ends the search, and an exact split has no
choice in its block size.
-/
namespace WaferSat.DcmiDma

/-- The block counts into which an image of `size` bytes can be split. -/
def splits (size : ℕ) : Set ℕ := {n | 1 ≤ n ∧ ∃ w, 256 ≤ w ∧ w ≤ 65535 ∧ 4 * w * n = size}

/-- The candidates that the search looks at. -/
inductive Tried (size : BitVec 32) : BitVec 32 → Prop where
  | first : Tried size 1#32
  | next {n : BitVec 32} (h : Tried size n) (hge : ¬(size / n / 4#32).slt 256#32 = true)
      (hcontinue : 4#32 * (size / n / 4#32) * n ≠ size ∨ (65535#32).slt (size / n / 4#32) = true) :
      Tried size (n + 1#32)

/-- At this candidate the divisor is not zero, the quotient and the next count are `int`s, and the
unsigned product does not wrap. -/
structure NoOverflow (size n : BitVec 32) : Prop where
  pos : 0 < n.toNat
  next_lt : n.toNat + 1 < 2 ^ 31
  words_lt : size.toNat / n.toNat / 4 < 2 ^ 31
  product_lt : 4 * (size.toNat / n.toNat / 4) * n.toNat < 2 ^ 32

section Split

variable {size n m : ℕ}

theorem mem_splits_iff (hn : 1 ≤ n) :
    n ∈ splits size ↔
      256 ≤ size / n / 4 ∧ size / n / 4 ≤ 65535 ∧ 4 * (size / n / 4) * n = size := by
  constructor
  · rintro ⟨-, w, hge, hle, rfl⟩
    have hw : 4 * w * n / n / 4 = w := by
      rw [Nat.mul_div_cancel _ hn, Nat.mul_div_cancel_left _ (by decide)]
    rw [hw]
    exact ⟨hge, hle, rfl⟩
  · rintro ⟨hge, hle, heq⟩
    exact ⟨hn, _, hge, hle, heq⟩

theorem not_mem_splits_of_tiny (hn : 1 ≤ n) (ht : size / n / 4 < 256) (hm : n ≤ m) :
    m ∉ splits size := by
  intro h
  have hge := ((mem_splits_iff h.1).mp h).1
  have hmono : size / m / 4 ≤ size / n / 4 :=
    Nat.div_le_div_right (Nat.div_le_div_left hm hn)
  omega

theorem four_mul_words_mul_le (size n : ℕ) : 4 * (size / n / 4) * n ≤ size := by
  have h4 : 4 * (size / n / 4) ≤ size / n := Nat.mul_div_le _ _
  exact (Nat.mul_le_mul_right n h4).trans (Nat.div_mul_le_self size n)

end Split

section Words

variable {size n : BitVec 32}

theorem words_toNat (size n : BitVec 32) :
    (size / n / 4#32).toNat = size.toNat / n.toNat / 4 := by
  simp [BitVec.toNat_udiv]

theorem words_lt (size n : BitVec 32) : size.toNat / n.toNat / 4 < 2 ^ 31 := by
  have hs := size.isLt
  have hd := Nat.div_le_self size.toNat n.toNat
  omega

theorem tiny_iff : (size / n / 4#32).slt 256#32 = true ↔ size.toNat / n.toNat / 4 < 256 := by
  rw [slt_iff_toNat_lt (by rw [words_toNat]; exact words_lt size n) (by decide), words_toNat]
  rfl

theorem large_iff : (65535#32).slt (size / n / 4#32) = true ↔ 65535 < size.toNat / n.toNat / 4 := by
  rw [slt_iff_toNat_lt (by decide) (by rw [words_toNat]; exact words_lt size n), words_toNat]
  rfl

theorem product_toNat (size n : BitVec 32) :
    (4#32 * (size / n / 4#32) * n).toNat = 4 * (size.toNat / n.toNat / 4) * n.toNat := by
  have hs := size.isLt
  have hle := four_mul_words_mul_le size.toNat n.toNat
  rw [BitVec.toNat_mul, BitVec.toNat_mul, words_toNat, Nat.mod_mul_mod]
  exact Nat.mod_eq_of_lt (hle.trans_lt hs)

theorem exact_iff : 4#32 * (size / n / 4#32) * n = size ↔
    4 * (size.toNat / n.toNat / 4) * n.toNat = size.toNat := by
  rw [← BitVec.toNat_inj, product_toNat]

end Words

/-- What the search from the candidate `n` on has to answer: nothing if there is no split from
there on, and otherwise the least one with its block size in words. -/
def FindsLeast (size n : ℕ) : Option (BitVec 32 × BitVec 32) → Prop
  | none => ∀ m ∈ splits size, m < n
  | some (k, w) => IsLeast {m | m ∈ splits size ∧ n ≤ m} k.toNat ∧ w.toNat = size / k.toNat / 4

theorem FindsLeast.skip {size n : ℕ} {r : Option (BitVec 32 × BitVec 32)}
    (h : FindsLeast size (n + 1) r) (hno : n ∉ splits size) : FindsLeast size n r := by
  have hne {m : ℕ} (hm : m ∈ splits size) : m ≠ n := fun he => hno (he ▸ hm)
  match r with
  | none =>
    intro m hm
    have hlt := h m hm
    have hmn := hne hm
    omega
  | some (k, w) =>
    obtain ⟨⟨⟨hk, hle⟩, hleast⟩, hw⟩ := h
    refine ⟨⟨⟨hk, by omega⟩, fun m ⟨hm, hnm⟩ => hleast ⟨hm, ?_⟩⟩, hw⟩
    have hmn := hne hm
    omega

theorem findsLeast_factorBlocks (size n : BitVec 32) (hn : 1 ≤ n.toNat) :
    FindsLeast size.toNat n.toNat (factorBlocks size n) := by
  fun_induction factorBlocks size n with
  | case1 n words htiny =>
    intro m hm
    by_contra hge
    exact not_mem_splits_of_tiny hn (tiny_iff.mp htiny) (not_lt.mp hge) hm
  | case2 n words hge hne ih =>
    have hsucc := count_succ_toNat hge
    rw [hsucc] at ih
    refine (ih (by omega)).skip fun h => hne ?_
    exact exact_iff.mpr ((mem_splits_iff hn).mp h).2.2
  | case3 n words hge heq hlarge ih =>
    have hsucc := count_succ_toNat hge
    rw [hsucc] at ih
    refine (ih (by omega)).skip fun h => ?_
    have hle := ((mem_splits_iff hn).mp h).2.1
    have hlt := large_iff.mp hlarge
    omega
  | case4 n words hge heq hle =>
    rw [tiny_iff] at hge
    rw [large_iff] at hle
    refine ⟨⟨⟨(mem_splits_iff hn).mpr ⟨by omega, by omega, ?_⟩, le_rfl⟩, fun m hm => hm.2⟩,
      words_toNat size n⟩
    exact exact_iff.mp (not_not.mp heq)

theorem least_of_factorBlocks {size n w : BitVec 32} (hf : factorBlocks size 1#32 = some (n, w)) :
    IsLeast (splits size.toNat) n.toNat ∧ 256 ≤ w.toNat ∧ w.toNat ≤ 65535 ∧
      4 * w.toNat * n.toNat = size.toNat := by
  have hfinds := findsLeast_factorBlocks size 1#32 (by decide)
  rw [hf] at hfinds
  obtain ⟨⟨⟨hsplit, -⟩, hleast⟩, hw⟩ := hfinds
  have hwords := (mem_splits_iff hsplit.1).mp hsplit
  rw [← hw] at hwords
  exact ⟨⟨hsplit, fun m hm => hleast ⟨hm, hm.1⟩⟩, hwords⟩

theorem four_mul_toNat {w : BitVec 32} (hw : w.toNat ≤ 65535) :
    (4#32 * w).toNat = 4 * w.toNat := by
  rw [BitVec.toNat_mul, BitVec.toNat_ofNat]
  omega

theorem Tried.noOverflow {size n : BitVec 32} (h : Tried size n) : NoOverflow size n := by
  have hsize := size.isLt
  have hcount : 0 < n.toNat ∧ n.toNat ≤ size.toNat / 1024 + 1 := by
    cases h with
    | first => exact ⟨by decide, by simp⟩
    | next h hge hcontinue =>
      have hle := count_le_of_not_tiny hge
      rw [count_succ_toNat hge]
      omega
  exact ⟨hcount.1, by omega, words_lt size n,
    (four_mul_words_mul_le size.toNat n.toNat).trans_lt hsize⟩

namespace Board

variable {τ : Type*} {A : StreamAllocator τ} {b : Board τ}

theorem dcmiDmaInit_cases (hb : b.dma.dcmiDmaBuffer ≠ 0#32) (hs : b.dma.dcmiDmaImageSize ≠ 0#32) :
    (factorBlocks b.dma.dcmiDmaImageSize 1#32 = none ∧ dcmiDmaInit A b = (-1, b)) ∨
    ∃ n w, factorBlocks b.dma.dcmiDmaImageSize 1#32 = some (n, w) ∧
      dcmiDmaInit A b = (0, configure A .shuffle
        { b with dma := { b.dma with numBlocks := n, blockSize := 4#32 * w } }) := by
  cases hf : factorBlocks b.dma.dcmiDmaImageSize 1#32 with
  | none => exact .inl ⟨rfl, by simp [dcmiDmaInit, hb, hs, hf]⟩
  | some r => exact .inr ⟨r.1, r.2, rfl, dcmiDmaInit_of_factorBlocks hb hs hf⟩

/-- The fixed-size initialisation accepts exactly the images that can be split into blocks of 256
to 65535 words, chooses the least number of blocks, and otherwise leaves everything alone. -/
theorem dcmiDmaInit_least_split (A : StreamAllocator τ) (hb : b.dma.dcmiDmaBuffer ≠ 0#32)
    (hs : 0 < b.dma.dcmiDmaImageSize.toNat) :
    (∀ n, Tried b.dma.dcmiDmaImageSize n → NoOverflow b.dma.dcmiDmaImageSize n) ∧
    ((dcmiDmaInit A b).1 = 0 ↔
      ∃ n w, 1 ≤ n ∧ 256 ≤ w ∧ w ≤ 65535 ∧ 4 * w * n = b.dma.dcmiDmaImageSize.toNat) ∧
    ((dcmiDmaInit A b).1 = 0 → ∃ n w, IsLeast (splits b.dma.dcmiDmaImageSize.toNat) n ∧
      256 ≤ w ∧ w ≤ 65535 ∧ 4 * w * n = b.dma.dcmiDmaImageSize.toNat ∧
      (dcmiDmaInit A b).2.dma.numBlocks.toInt = n ∧
      (dcmiDmaInit A b).2.dma.blockSize.toInt = 4 * w ∧
      (dcmiDmaInit A b).2.dma.stream.ndtr.toNat = w) ∧
    ((dcmiDmaInit A b).1 ≠ 0 → dcmiDmaInit A b = (-1, b)) := by
  have hs0 : b.dma.dcmiDmaImageSize ≠ 0#32 := by
    intro h
    simp [h] at hs
  refine ⟨fun n hn => hn.noOverflow, ?_⟩
  rcases dcmiDmaInit_cases (A := A) hb hs0 with ⟨hf, hinit⟩ | ⟨n, w, hf, hinit⟩
  · have hfinds := findsLeast_factorBlocks b.dma.dcmiDmaImageSize 1#32 (by decide)
    rw [hf] at hfinds
    rw [hinit]
    refine ⟨⟨fun h => by simp at h, ?_⟩, fun h => by simp at h, fun _ => rfl⟩
    rintro ⟨n, w, hn, hw⟩
    exact absurd (hfinds n ⟨hn, w, hw⟩) (by simp; omega)
  · obtain ⟨hleast, hge, hle, heq⟩ := least_of_factorBlocks hf
    have hn : n.toNat < 2 ^ 31 := by
      have hlt := b.dma.dcmiDmaImageSize.isLt
      have hmul := Nat.mul_le_mul_right n.toNat (show 1024 ≤ 4 * w.toNat by omega)
      omega
    have hcount : n.toInt = n.toNat := BitVec.toInt_eq_toNat_of_lt (by omega)
    have hbytes : (4#32 * w).toInt = 4 * w.toNat := by
      have hmul := four_mul_toNat hle
      rw [BitVec.toInt_eq_toNat_of_lt (by omega), hmul]
      rfl
    have hwords : (4#32 * w).sdiv 4#32 = w := four_mul_sdiv_four hle
    rw [hinit, configure_dma]
    refine ⟨⟨fun _ => ⟨_, _, hleast.1.1, hge, hle, heq⟩, fun _ => rfl⟩, fun _ => ?_,
      fun h => absurd rfl h⟩
    exact ⟨n.toNat, w.toNat, hleast, hge, hle, heq, hcount, hbytes, congrArg BitVec.toNat hwords⟩

/-- A picture of 640 by 480 pixels is too large for two blocks and captured as three. -/
theorem dcmiDmaInit_least_split_640x480 : ∃ b : Board (Option Isr),
    b.dma.dcmiDmaImageSize = 614400#32 ∧ (dcmiDmaInit tableEntry b).1 = 0 ∧
      (dcmiDmaInit tableEntry b).2.dma.numBlocks.toInt = 3 ∧
      (dcmiDmaInit tableEntry b).2.dma.blockSize.toInt = 204800 := by
  let b : Board (Option Isr) :=
    ⟨{ Dma.boot with dcmiDmaBuffer := 0xD0000000#32, dcmiDmaImageSize := 614400#32 }, none⟩
  have hsize : b.dma.dcmiDmaImageSize.toNat = 614400 := rfl
  obtain ⟨-, hiff, hok, -⟩ :=
    dcmiDmaInit_least_split tableEntry (b := b) (by decide) (by decide)
  rw [hsize] at hiff hok
  have hzero := hiff.mpr ⟨3, 51200, by decide, by decide, by decide, by decide⟩
  obtain ⟨n, w, ⟨-, hleast⟩, -, hle, heq, hcount, hbytes, -⟩ := hok hzero
  have hthree : n ≤ 3 := hleast ⟨by decide, 51200, by decide, by decide, by decide⟩
  have hn : n = 3 := by
    by_contra hne
    have htwo := Nat.mul_le_mul_left (4 * w) (show n ≤ 2 by omega)
    omega
  subst hn
  refine ⟨b, rfl, hzero, hcount, ?_⟩
  rw [hbytes]
  omega

end Board

end WaferSat.DcmiDma
