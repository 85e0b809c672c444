import WaferSat.MemcpyDma

/-!
The memory benchmark of the shell: the external memory is filled, overwritten with the internal
buffer and compared with it, then the same is done the other way round. `memcpy_dma` comes after
`memcpy` and so does no harm, although it does not copy large areas completely.
-/
namespace WaferSat.Commands
open ByteMemory MemcpyDma

/-- `membench_t` -/
structure Membench where
  start : BitVec 32
  size : BitVec 32

/-- `membench_result_t`, in bytes per second. -/
structure MembenchResult where
  memset : BitVec 32
  memcpy : BitVec 32
  memcpyDma : BitVec 32
  memcmp : BitVec 32
  deriving DecidableEq

structure Durations where
  memset : BitVec 32
  memcpy : BitVec 32
  memcmp : BitVec 32
  memcpyDma : BitVec 32

/-- `STM32_SYSCLK` -/
def sysclk : BitVec 64 := 168000000#64

def speedBps (last len : BitVec 32) : BitVec 32 :=
  ((len.setWidth 64 * sysclk) / last.setWidth 64).setWidth 32

def memset (dest : BitVec 32) (c : BitVec 8) (n : BitVec 32) (m : ℕ → BitVec 8) : ℕ → BitVec 8 :=
  writeBytes dest.toNat (List.replicate n.toNat c) m

/-- The difference at the first byte in which two areas differ. -/
def compareBytes : List (BitVec 8) → List (BitVec 8) → ℤ
  | x :: xs, y :: ys => if x = y then compareBytes xs ys else x.toNat - y.toNat
  | _, _ => 0

def memcmp (a b n : BitVec 32) (m : ℕ → BitVec 8) : ℤ :=
  compareBytes (readBytes m a.toNat n.toNat) (readBytes m b.toNat n.toNat)

/-- The result of a run, `warning_suppressor` and the memory. -/
structure MembenchRun where
  result : MembenchResult
  warningSuppressor : ℤ
  mem : ℕ → BitVec 8

def membenchRun (E : CopyEngine) (dest src : Membench) (t : Durations) (m : ℕ → BitVec 8) :
    MembenchRun :=
  let len := if src.size < dest.size then src.size else dest.size
  let m := memset dest.start 0x55#8 dest.size m
  let m := memcpy dest.start src.start len m
  let warningSuppressor := memcmp dest.start src.start len m
  let m := memcpyDma E dest.start src.start len m
  { result :=
      { memset := speedBps t.memset dest.size
        memcpy := speedBps t.memcpy len
        memcpyDma := speedBps t.memcpyDma len
        memcmp := speedBps t.memcmp len }
    warningSuppressor := warningSuppressor
    mem := m }

/-- `membench`: the run from the internal to the external memory and the one back. -/
def membench (E : CopyEngine) (ext int : Membench) (t t' : Durations) (m : ℕ → BitVec 8) :
    MembenchRun × MembenchRun :=
  let int2ext := membenchRun E ext int t m
  (int2ext, membenchRun E int ext t' int2ext.mem)

/-- Two memories in the address space without a byte in common. -/
structure Separate (a b : Membench) : Prop where
  fits : a.start.toNat + a.size.toNat ≤ 2 ^ 32
  fits' : b.start.toNat + b.size.toNat ≤ 2 ^ 32
  apart : a.start.toNat + a.size.toNat ≤ b.start.toNat ∨
    b.start.toNat + b.size.toNat ≤ a.start.toNat

theorem Separate.symm {a b : Membench} (h : Separate a b) : Separate b a :=
  ⟨h.fits', h.fits, h.apart.symm⟩

variable {E : CopyEngine} {dest src : Membench} {m : ℕ → BitVec 8}

theorem copyBytes_of_same {β : Type*} {a b n : ℕ} {m : ℕ → β}
    (h : ∀ k < n, m (a + k) = m (b + k)) : copyBytes a b n m = m := by
  funext i
  by_cases hi : i < a ∨ a + n ≤ i
  · exact copyBytes_outside m hi
  · obtain ⟨k, rfl⟩ := Nat.exists_eq_add_of_le (show a ≤ i by omega)
    rw [copyBytes_inside m (by omega), h k (by omega)]

theorem compareBytes_self (xs : List (BitVec 8)) : compareBytes xs xs = 0 := by
  induction xs with
  | nil => rfl
  | cons x xs ih => rw [compareBytes, if_pos rfl, ih]

/-- The memory after the fill and the copy. -/
def filled (dest src : Membench) (m : ℕ → BitVec 8) (i : ℕ) : BitVec 8 :=
  if dest.start.toNat ≤ i ∧ i < dest.start.toNat + dest.size.toNat then
    if i - dest.start.toNat < src.size.toNat then m (src.start.toNat + (i - dest.start.toNat))
    else 0x55#8
  else m i

theorem length_toNat (a b : BitVec 32) :
    (if a < b then a else b).toNat = min a.toNat b.toNat := by
  split_ifs with h
  · rw [BitVec.lt_def] at h
    omega
  · rw [BitVec.lt_def] at h
    omega

theorem filled_source (h : Separate dest src) {k : ℕ} (hk : k < src.size.toNat) :
    filled dest src m (src.start.toNat + k) = m (src.start.toNat + k) := by
  rw [filled, if_neg]
  rcases h.apart with ha | ha <;> omega

theorem filled_same (h : Separate dest src) {k : ℕ} (hk : k < src.size.toNat)
    (hk' : k < dest.size.toNat) :
    filled dest src m (dest.start.toNat + k) = filled dest src m (src.start.toNat + k) := by
  rw [filled_source h hk, filled, if_pos (by omega), Nat.add_sub_cancel_left, if_pos hk]

theorem memcpy_memset (h : Separate dest src) {len : BitVec 32}
    (hlen : len.toNat = min src.size.toNat dest.size.toNat) :
    memcpy dest.start src.start len (memset dest.start 0x55#8 dest.size m) = filled dest src m := by
  have hsize : (List.replicate dest.size.toNat 0x55#8).length = dest.size.toNat :=
    List.length_replicate
  funext i
  rw [memcpy, memset]
  by_cases hi : dest.start.toNat ≤ i ∧ i < dest.start.toNat + dest.size.toNat
  · obtain ⟨k, rfl⟩ := Nat.exists_eq_add_of_le hi.1
    rw [filled, if_pos hi, Nat.add_sub_cancel_left]
    by_cases hk : k < src.size.toNat
    · rw [if_pos hk, copyBytes_inside _ (by omega)]
      apply writeBytes_frame
      rw [hsize]
      rcases h.apart with ha | ha <;> omega
    · rw [if_neg hk, copyBytes_outside _ (by omega)]
      apply writeBytes_inside
      rw [List.getElem?_replicate_of_lt (by omega)]
  · rw [filled, if_neg hi, copyBytes_outside _ (by omega)]
    apply writeBytes_frame
    omega

/-- One run: the destination holds the source and behind it the fill, the comparison finds no
difference, and no other byte changes. -/
theorem membenchRun_eq (h : Separate dest src) (t : Durations) :
    (membenchRun E dest src t m).mem = filled dest src m ∧
      (membenchRun E dest src t m).warningSuppressor = 0 := by
  have hlen := length_toNat src.size dest.size
  unfold membenchRun
  generalize (if src.size < dest.size then src.size else dest.size) = len at hlen ⊢
  dsimp only
  rw [memcpy_memset h hlen]
  have hsame : ∀ k < len.toNat,
      filled dest src m (dest.start.toNat + k) = filled dest src m (src.start.toNat + k) :=
    fun k hk => filled_same h (by omega) (by omega)
  constructor
  · have hareas : Areas dest.start src.start len := by
      have hfits := h.fits
      have hfits' := h.fits'
      refine ⟨by omega, by omega, ?_⟩
      rcases h.apart with ha | ha
      · exact .inl (by omega)
      · exact .inr (by omega)
    rw [memcpyDma_eq hareas, copyBytes_of_same fun k hk => hsame k (by omega), copyBytes_of_same]
    intro k hk
    rw [Nat.add_assoc, Nat.add_assoc]
    exact hsame _ (by omega)
  · have hread : readBytes (filled dest src m) dest.start.toNat len.toNat =
        readBytes (filled dest src m) src.start.toNat len.toNat :=
      List.map_congr_left fun k hk => hsame k (List.mem_range.mp hk)
    rw [memcmp, hread, compareBytes_self]

/-- The whole benchmark finds the two memories equal both times, gives the internal buffer back as
it was, and leaves it with the fill behind it in the external memory; no other byte changes. -/
theorem membench_restores {ext int : Membench} (h : Separate ext int)
    (hsize : int.size.toNat ≤ ext.size.toNat) (t t' : Durations) :
    (membench E ext int t t' m).2.mem = filled ext int m ∧
    (∀ k < int.size.toNat, (membench E ext int t t' m).2.mem (int.start.toNat + k) =
      m (int.start.toNat + k)) ∧
    (membench E ext int t t' m).1.warningSuppressor = 0 ∧
    (membench E ext int t t' m).2.warningSuppressor = 0 := by
  obtain ⟨hfirst, hcmp⟩ := membenchRun_eq (E := E) (m := m) h t
  obtain ⟨hsecond, hcmp'⟩ :=
    membenchRun_eq (E := E) (m := (membenchRun E ext int t m).mem) h.symm t'
  have hmem : (membench E ext int t t' m).2.mem = filled ext int m := by
    rw [membench]
    dsimp only
    rw [hsecond, hfirst]
    funext i
    by_cases hi : int.start.toNat ≤ i ∧ i < int.start.toNat + int.size.toNat
    · obtain ⟨k, rfl⟩ := Nat.exists_eq_add_of_le hi.1
      rw [filled, if_pos hi, Nat.add_sub_cancel_left, if_pos (by omega)]
      exact filled_same h (by omega) (by omega)
    · rw [filled, if_neg hi]
  exact ⟨hmem, fun k hk => by rw [hmem, filled_source h hk], hcmp, hcmp'⟩

/-- 64 KiB of internal memory against the 8 MiB of the external one. -/
theorem membench_restores_board :
    let ext : Membench := ⟨0xD0000000#32, 0x800000#32⟩
    let int : Membench := ⟨0x20000400#32, 0x10000#32⟩
    let t : Durations := ⟨500000#32, 30000#32, 40000#32, 20000#32⟩
    let out := membench plainEngine ext int t t (BitVec.ofNat 8)
    out.2.mem 0x20000405 = 5#8 ∧ out.2.warningSuppressor = 0 := by
  intro ext int t out
  have h : Separate ext int := ⟨by decide, by decide, by decide⟩
  obtain ⟨-, hint, -, hcmp⟩ :=
    membench_restores (E := plainEngine) (m := BitVec.ofNat 8) h (by decide) t t
  have haddress : int.start.toNat + 5 = 0x20000405 := rfl
  have hbyte := hint 5 (by decide)
  rw [haddress] at hbyte
  exact ⟨hbyte.trans (by decide), hcmp⟩

end WaferSat.Commands
