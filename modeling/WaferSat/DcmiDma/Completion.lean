import WaferSat.DcmiDma.Geometry
import Mathlib.Data.List.Count

/-!
When a fixed-size capture is reported complete. The handler is activated with arbitrary flag
words; the report is faithful as long as none of them carries an error flag. An error falls
through into the code for a completed block, so it is counted as one.
-/
namespace WaferSat.DcmiDma
open DmaStream

namespace Dma

/-- The state after a sequence of activations of the fixed-size handler. -/
def served (d : Dma) (fs : List (BitVec 32)) : Dma :=
  fs.foldl (fun d flags => (d.dcmiDmaShuffleIsr flags).1) d

def cleanCount (fs : List (BitVec 32)) : ℕ := fs.countP fun flags => flagKind flags = .clean

/-- The capture is reported complete by the activation for its last block only, and only if
no error came up; an error is reported, stops the stream and changes nothing else. -/
def ReportsFaithfully (d : Dma) (fs : List (BitVec 32)) : Prop :=
  ∀ pre flags post, fs = pre ++ flags :: post →
    let e := d.served pre
    let r := e.dcmiDmaShuffleIsr flags
    ((∃ c ∈ r.2, c.slot = .done) →
      flagKind flags = .clean ∧ cleanCount pre + 1 = d.numBlocks.toNat ∧
      ∀ g ∈ pre, flagKind g ≠ .error) ∧
    (flagKind flags = .error →
      (e.dcmiDmaErrorCallback ≠ none → ∃ c ∈ r.2, c.slot = .error) ∧
      r.1.stream.cr.en = false ∧ r.1.blocksDone = e.blocksDone ∧
      r.1.stream.m0ar = e.stream.m0ar ∧ r.1.stream.m1ar = e.stream.m1ar)

variable {d : Dma} {fs pre : List (BitVec 32)} {flags : BitVec 32}

theorem served_keeps (d : Dma) (fs : List (BitVec 32)) :
    (d.served fs).numBlocks = d.numBlocks ∧
    (d.served fs).dcmiDmaDoneCallback = d.dcmiDmaDoneCallback := by
  induction fs generalizing d with
  | nil => exact ⟨rfl, rfl⟩
  | cons flags fs ih =>
    obtain ⟨hn, hc⟩ := ih (d.dcmiDmaShuffleIsr flags).1
    exact ⟨hn.trans (congrArg Setup.numBlocks (setup_isr _ flags d)),
      hc.trans (isr_callbacks _ flags d).1⟩

theorem served_blocksDone (d : Dma) (h : ∀ g ∈ fs, flagKind g ≠ .error) :
    (d.served fs).blocksDone = d.blocksDone + BitVec.ofNat 32 (cleanCount fs) := by
  induction fs generalizing d with
  | nil => simp [served, cleanCount]
  | cons flags fs ih =>
    have hs : d.served (flags :: fs) = (d.dcmiDmaShuffleIsr flags).1.served fs := rfl
    rw [hs, ih _ fun g hg => h g (List.mem_cons_of_mem _ hg)]
    cases hk : flagKind flags with
    | half => simp [dcmiDmaShuffleIsr, isr_of_half hk, cleanCount, hk]
    | clean =>
      simp only [dcmiDmaShuffleIsr, isr_clean_blocksDone hk, cleanCount, List.countP_cons, hk,
        decide_true, ↓reduceIte, BitVec.ofNat_add]
      ac_rfl
    | error => exact absurd hk (h flags (by simp))

theorem done_called_of_clean (hk : flagKind flags = .clean) :
    (∃ c ∈ (d.dcmiDmaShuffleIsr flags).2, c.slot = .done) ↔
      d.dcmiDmaDoneCallback ≠ none ∧ d.blocksDone + 1#32 = d.numBlocks := by
  have hc : d.count.dcmiDmaDoneCallback = d.dcmiDmaDoneCallback := rfl
  rw [dcmiDmaShuffleIsr, isr_of_clean hk]
  by_cases hn : d.blocksDone + 1#32 = d.numBlocks <;>
    by_cases hd : d.dcmiDmaDoneCallback = none <;>
    simp [hn, hd, hc, callDone]

theorem isr_error_blocksDone {lastBlock : Dma → BitVec 32 → List Call}
    (hk : flagKind flags = .error) :
    (isr lastBlock flags d).1.blocksDone = d.blocksDone + 1#32 := by
  rw [isr_of_error hk, proceed_blocksDone]
  rfl

theorem exists_reaching {k : ℕ} (h : k < cleanCount fs) :
    ∃ pre flags post, fs = pre ++ flags :: post ∧ flagKind flags = .clean ∧ cleanCount pre = k := by
  induction fs generalizing k with
  | nil => simp [cleanCount] at h
  | cons g fs ih =>
    by_cases hg : flagKind g = .clean
    · cases k with
      | zero => exact ⟨[], g, fs, rfl, hg, rfl⟩
      | succ k =>
        have hk : k < cleanCount fs := by simpa [cleanCount, hg] using h
        obtain ⟨pre, flags, post, rfl, hf, hc⟩ := ih hk
        exact ⟨g :: pre, flags, post, rfl, hf, by simpa [cleanCount, hg] using hc⟩
    · have hk : k < cleanCount fs := by simpa [cleanCount, hg] using h
      obtain ⟨pre, flags, post, rfl, hf, hc⟩ := ih hk
      exact ⟨g :: pre, flags, post, rfl, hf, by simpa [cleanCount, hg] using hc⟩

theorem cleanCount_split_lt {post : List (BitVec 32)} (hk : flagKind flags = .clean) :
    cleanCount pre < cleanCount (pre ++ flags :: post) := by
  simp only [cleanCount, List.countP_append, List.countP_cons, hk, decide_true, ↓reduceIte]
  omega

theorem ReportsFaithfully.no_error (h : ReportsFaithfully d fs) :
    ∀ g ∈ fs, flagKind g ≠ .error := by
  intro g hg hk
  obtain ⟨pre, post, rfl⟩ := List.append_of_mem hg
  obtain ⟨-, -, hsame, -⟩ := (h pre g post rfl).2 hk
  rw [dcmiDmaShuffleIsr, isr_error_blocksDone hk] at hsame
  simp at hsame

theorem done_called_after_arm (d₀ : Dma) (hpre : ∀ g ∈ pre, flagKind g ≠ .error)
    (hk : flagKind flags = .clean) :
    (∃ c ∈ ((d₀.dcmiDmaArm.served pre).dcmiDmaShuffleIsr flags).2, c.slot = .done) ↔
      d₀.dcmiDmaDoneCallback ≠ none ∧ (cleanCount pre + 1) % 2 ^ 32 = d₀.numBlocks.toNat := by
  have hn : d₀.dcmiDmaArm.numBlocks = d₀.numBlocks := rfl
  have hc : d₀.dcmiDmaArm.dcmiDmaDoneCallback = d₀.dcmiDmaDoneCallback := rfl
  have hzero : d₀.dcmiDmaArm.blocksDone = 0#32 := rfl
  have hcount : (d₀.dcmiDmaArm.served pre).blocksDone + 1#32 =
      BitVec.ofNat 32 (cleanCount pre + 1) := by
    rw [served_blocksDone _ hpre, BitVec.ofNat_add, hzero, BitVec.zero_add]
  rw [done_called_of_clean hk, (served_keeps _ pre).1, (served_keeps _ pre).2, hn, hc, hcount,
    ← BitVec.toNat_inj, BitVec.toNat_ofNat]

end Dma

open Dma

/-- The report of a fixed-size capture is faithful exactly when no activation carries an error
flag and, with a callback to call, the 32-bit counter does not come round to the block count
a second time. This holds for every geometry, so for each one that `dcmi_dma_init` sets. -/
theorem reportsFaithfully_iff (d₀ : Dma) (fs : List (BitVec 32)) :
    ReportsFaithfully d₀.dcmiDmaArm fs ↔
      (∀ g ∈ fs, flagKind g ≠ .error) ∧
      (d₀.dcmiDmaDoneCallback = none ∨ cleanCount fs < d₀.numBlocks.toNat + 2 ^ 32) := by
  have hlt := d₀.numBlocks.isLt
  have hn : d₀.dcmiDmaArm.numBlocks = d₀.numBlocks := rfl
  constructor
  · intro h
    refine ⟨h.no_error, or_iff_not_imp_left.mpr fun hcb => ?_⟩
    by_contra hge
    have hreach : d₀.numBlocks.toNat + 2 ^ 32 - 1 < cleanCount fs := by omega
    obtain ⟨pre, flags, post, rfl, hk, hcount⟩ := exists_reaching hreach
    have hpre : ∀ g ∈ pre, flagKind g ≠ .error := fun g hg => h.no_error g (by simp [hg])
    have hcall := (done_called_after_arm d₀ hpre hk).mpr ⟨hcb, by omega⟩
    have hwrong := ((h pre flags post rfl).1 hcall).2.1
    rw [hcount, hn] at hwrong
    omega
  · rintro ⟨herr, hcount⟩ pre flags post rfl
    have hpre : ∀ g ∈ pre, flagKind g ≠ .error := fun g hg => herr g (by simp [hg])
    refine ⟨fun hcall => ?_, fun hk => absurd hk (herr flags (by simp))⟩
    cases hk : flagKind flags with
    | half => simp [dcmiDmaShuffleIsr, isr_of_half hk] at hcall
    | error => exact absurd hk (herr flags (by simp))
    | clean =>
      obtain ⟨hcb, hlast⟩ := (done_called_after_arm d₀ hpre hk).mp hcall
      have hsplit : cleanCount pre < cleanCount (pre ++ flags :: post) := cleanCount_split_lt hk
      have hbound := hcount.resolve_left hcb
      exact ⟨rfl, by rw [hn]; omega, hpre⟩

def oneBlock : Board (Option Isr) :=
  ⟨{ Dma.boot with
      dcmiDmaBuffer := 0xD0000000#32
      dcmiDmaImageSize := 2048#32
      dcmiDmaDoneCallback := some .dmaAvail
      dcmiDmaErrorCallback := some .dmaError }, none⟩

def oneBlockReady : Board (Option Isr) :=
  Board.configure tableEntry .shuffle { oneBlock with
    dma := { oneBlock.dma with numBlocks := 1#32, blockSize := 4#32 * 512#32 } }

theorem oneBlock_init : Board.dcmiDmaInit tableEntry oneBlock = (0, oneBlockReady) := by
  have hf : factorBlocks 2048#32 1#32 = some (1#32, 512#32) := by simp [factorBlocks]
  exact Board.dcmiDmaInit_of_factorBlocks (by decide) (by decide) hf

/-- A bus error on the last block is reported twice: as an error and as a complete capture. -/
theorem error_reported_complete :
    Board.dcmiDmaInit tableEntry oneBlock = (0, oneBlockReady) ∧
    flagKind (tcif ||| teif) = .error ∧
    (oneBlockReady.dma.dcmiDmaArm.dcmiDmaShuffleIsr (tcif ||| teif)).2.map (·.slot) =
      [.error, .done] ∧
    ¬ReportsFaithfully oneBlockReady.dma.dcmiDmaArm [tcif ||| teif] := by
  refine ⟨oneBlock_init, by decide, by decide, fun h => ?_⟩
  have hdone : ∃ c ∈ (oneBlockReady.dma.dcmiDmaArm.dcmiDmaShuffleIsr (tcif ||| teif)).2,
      c.slot = .done := by decide
  exact absurd ((h [] (tcif ||| teif) [] rfl).1 hdone).1 (by decide)

end WaferSat.DcmiDma
