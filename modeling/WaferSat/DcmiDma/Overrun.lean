import WaferSat.DcmiDma.Completion
import WaferSat.DcmiDma.OpenEnded

/-!
How an open-ended capture reports its end. The handler is activated with arbitrary flag words on
whatever stream the hardware has left it. An error and the use of the last block should each stop
the stream and call the error callback once. The branch for the last block tests the done callback
instead, comes after the call for an error, and is not reached at all when the count is not
positive.
-/
namespace WaferSat.DcmiDma
open DmaStream

structure Activation where
  stream : DmaStream
  flags : BitVec 32

namespace Dma

def activate (d : Dma) (a : Activation) : Dma × List Call :=
  dcmiDmaShuffleIsrOpenEnded a.flags { d with stream := a.stream }

/-- The state after a sequence of activations. -/
def activated (d : Dma) (acts : List Activation) : Dma :=
  acts.foldl (fun d a => (d.activate a).1) d

/-- The activations that count a block. -/
def counted (acts : List Activation) : ℕ := acts.countP fun a => flagKind a.flags ≠ .half

def errorCalls (calls : List Call) : ℕ := calls.countP fun c => c.slot = .error

/-- The activation uses up the last block. A capture runs one block even if the count is zero or
negative. -/
def UsesLast (d : Dma) (pre : List Activation) (a : Activation) : Prop :=
  flagKind a.flags ≠ .half ∧ (counted pre + 1 : ℤ) = max 1 d.numBlocks.toInt

def Ends (d : Dma) (pre : List Activation) (a : Activation) : Prop :=
  flagKind a.flags = .error ∨ d.UsesLast pre a

/-- What activation `a` after the activations `pre` should do: no null callback is called, an end
stops the stream and is reported once, and nothing is reported before the first end. -/
structure ReportedAt (d : Dma) (pre : List Activation) (a : Activation) : Prop where
  no_null : ∀ c ∈ ((d.activated pre).activate a).2, c.callee ≠ none
  ends : d.Ends pre a →
    ((d.activated pre).activate a).1.stream.cr.en = false ∧
    errorCalls ((d.activated pre).activate a).2 = if d.dcmiDmaErrorCallback ≠ none then 1 else 0
  silent : (∀ pre' b post, pre ++ [a] = pre' ++ b :: post → ¬d.Ends pre' b) →
    errorCalls ((d.activated pre).activate a).2 = 0

def ReportsEnds (d : Dma) (acts : List Activation) : Prop :=
  ∀ pre a post, acts = pre ++ a :: post → d.ReportedAt pre a

section Step

variable {d : Dma} {a : Activation}

theorem activate_of_half (h : flagKind a.flags = .half) :
    d.activate a = ({ d with stream := a.stream }, []) := by
  rw [activate, dcmiDmaShuffleIsrOpenEnded, isr_of_half h]

/-- The block counted next is the last one and there is a done callback. -/
def Overruns (d : Dma) : Prop := d.blocksDone + 1#32 = d.numBlocks ∧ d.dcmiDmaDoneCallback ≠ none

instance (d : Dma) : Decidable d.Overruns := inferInstanceAs (Decidable (_ ∧ _))

theorem ite_overruns (calls : List Call) :
    (if d.Overruns then calls else []) =
      if d.blocksDone + 1#32 = d.numBlocks then
        if d.dcmiDmaDoneCallback ≠ none then calls else [] else [] := by
  by_cases hn : d.blocksDone + 1#32 = d.numBlocks <;> simp [Overruns, hn]

theorem calls_of_clean (h : flagKind a.flags = .clean) :
    (d.activate a).2 = if d.Overruns then [d.callError tcif] else [] := by
  rw [activate, dcmiDmaShuffleIsrOpenEnded, isr_of_clean h, ite_overruns]
  rfl

theorem calls_of_error (h : flagKind a.flags = .error) :
    (d.activate a).2 =
      (if d.dcmiDmaErrorCallback ≠ none then [d.callError (a.flags &&& ~~~htif)] else []) ++
      if d.Overruns then [d.callError (a.flags &&& ~~~htif)] else [] := by
  rw [activate, dcmiDmaShuffleIsrOpenEnded, isr_of_error h, ite_overruns]
  rfl

theorem errorCalls_ite (p : Prop) [Decidable p] (flags : BitVec 32) :
    errorCalls (if p then [d.callError flags] else []) = if p then 1 else 0 := by
  split_ifs <;> rfl

theorem errorCalls_of_clean (h : flagKind a.flags = .clean) :
    errorCalls (d.activate a).2 = if d.Overruns then 1 else 0 := by
  rw [calls_of_clean h, errorCalls_ite]

theorem errorCalls_of_error (h : flagKind a.flags = .error) :
    errorCalls (d.activate a).2 =
      (if d.dcmiDmaErrorCallback ≠ none then 1 else 0) + if d.Overruns then 1 else 0 := by
  rw [calls_of_error h, errorCalls, List.countP_append]
  exact congrArg₂ (· + ·) (errorCalls_ite _ _) (errorCalls_ite _ _)

theorem no_null_iff (h : flagKind a.flags ≠ .half) :
    (∀ c ∈ (d.activate a).2, c.callee ≠ none) ↔ (d.Overruns → d.dcmiDmaErrorCallback ≠ none) := by
  have hcallee (flags : BitVec 32) : (d.callError flags).callee = d.dcmiDmaErrorCallback := rfl
  cases hk : flagKind a.flags with
  | half => exact absurd hk h
  | clean =>
    rw [calls_of_clean hk]
    by_cases ho : d.Overruns <;> simp [ho, hcallee]
  | error =>
    rw [calls_of_error hk]
    by_cases ho : d.Overruns <;> by_cases he : d.dcmiDmaErrorCallback = none <;>
      simp [ho, he, hcallee]

theorem en_of_clean (h : flagKind a.flags = .clean) :
    (d.activate a).1.stream.cr.en = false ↔
      a.stream.cr.en = false ∨ d.blocksDone + 1#32 = d.numBlocks := by
  rw [← Bool.not_eq_true, activate, dcmiDmaShuffleIsrOpenEnded, isr_clean_en h, not_and_or,
    Bool.not_eq_true, not_ne_iff]

theorem en_of_error (h : flagKind a.flags = .error) : (d.activate a).1.stream.cr.en = false :=
  isr_error_en h

theorem activate_keeps (d : Dma) (a : Activation) :
    (d.activate a).1.numBlocks = d.numBlocks ∧
    (d.activate a).1.dcmiDmaDoneCallback = d.dcmiDmaDoneCallback ∧
    (d.activate a).1.dcmiDmaErrorCallback = d.dcmiDmaErrorCallback :=
  ⟨congrArg Setup.numBlocks (setup_isr _ a.flags _), isr_callbacks _ a.flags _⟩

theorem activate_blocksDone (d : Dma) (a : Activation) :
    (d.activate a).1.blocksDone =
      d.blocksDone + if flagKind a.flags ≠ .half then 1#32 else 0#32 := by
  cases h : flagKind a.flags with
  | half => simp [activate_of_half h]
  | clean => exact isr_clean_blocksDone h
  | error => exact isr_error_blocksDone h

end Step

variable {d : Dma} {acts pre post : List Activation} {a : Activation}

theorem activated_keeps (d : Dma) (acts : List Activation) :
    (d.activated acts).numBlocks = d.numBlocks ∧
    (d.activated acts).dcmiDmaDoneCallback = d.dcmiDmaDoneCallback ∧
    (d.activated acts).dcmiDmaErrorCallback = d.dcmiDmaErrorCallback := by
  induction acts generalizing d with
  | nil => exact ⟨rfl, rfl, rfl⟩
  | cons a acts ih =>
    obtain ⟨hn, hdone, herror⟩ := ih (d.activate a).1
    obtain ⟨hn', hdone', herror'⟩ := d.activate_keeps a
    exact ⟨hn.trans hn', hdone.trans hdone', herror.trans herror'⟩

theorem activated_blocksDone (d : Dma) (acts : List Activation) :
    (d.activated acts).blocksDone = d.blocksDone + BitVec.ofNat 32 (counted acts) := by
  induction acts generalizing d with
  | nil => simp [activated, counted]
  | cons a acts ih =>
    have hs : d.activated (a :: acts) = (d.activate a).1.activated acts := rfl
    rw [hs, ih, activate_blocksDone, counted, counted, List.countP_cons]
    split_ifs with h <;> simp_all [BitVec.ofNat_add]
    ac_rfl

theorem counted_concat (pre : List Activation) (a : Activation) :
    counted (pre ++ [a]) = counted pre + if flagKind a.flags ≠ .half then 1 else 0 := by
  simp [counted, List.countP_append, List.countP_singleton]

theorem counted_lt (acts : List Activation)
    (h : ∀ pre' b post, acts = pre' ++ b :: post → ¬d.UsesLast pre' b) :
    (counted acts : ℤ) < max 1 d.numBlocks.toInt := by
  induction acts using List.reverseRecOn with
  | nil => simp [counted]
  | append_singleton pre a ih =>
    have hpre := ih fun pre' b post heq => h pre' b (post ++ [a]) (by simp [heq])
    have hlast := h pre a [] rfl
    rw [counted_concat]
    by_cases hk : flagKind a.flags = .half
    · simpa [hk] using hpre
    · have hne : (counted pre + 1 : ℤ) ≠ max 1 d.numBlocks.toInt := fun heq => hlast ⟨hk, heq⟩
      rw [if_pos hk]
      push_cast
      omega

/-- The last block brings the counter to the number of blocks, unless that is not positive. -/
theorem reaches_last_iff {n : BitVec 32} {k : ℕ} (h : (k + 1 : ℤ) = max 1 n.toInt) :
    BitVec.ofNat 32 (k + 1) = n ↔ 1 ≤ n.toInt := by
  have hlt := n.isLt
  rw [← BitVec.toNat_inj, BitVec.toNat_ofNat]
  rw [BitVec.toInt_eq_toNat_cond] at h ⊢
  split_ifs at h ⊢ with hsign <;> omega

theorem not_reaches_of_lt {n : BitVec 32} {k : ℕ} (h : (k + 1 : ℤ) < max 1 n.toInt) :
    BitVec.ofNat 32 (k + 1) ≠ n := by
  have hlt := n.isLt
  rw [ne_eq, ← BitVec.toNat_inj, BitVec.toNat_ofNat]
  rw [BitVec.toInt_eq_toNat_cond] at h
  split_ifs at h with hsign <;> omega

/-- What it takes for activation `a` after the activations `pre` to do what it should. -/
structure SafeAt (d : Dma) (pre : List Activation) (a : Activation) : Prop where
  /-- The counter comes to the number of blocks: there is no done callback, or the flags are clean
  and there is an error callback. -/
  reaching : BitVec.ofNat 32 (counted pre + 1) = d.numBlocks →
    d.dcmiDmaDoneCallback = none ∨ flagKind a.flags = .clean ∧ d.dcmiDmaErrorCallback ≠ none
  /-- The last block is used up without an error: with an error callback there is a done callback,
  and a count that is not positive leaves nothing to report and nothing to stop. -/
  last : flagKind a.flags = .clean → (counted pre + 1 : ℤ) = max 1 d.numBlocks.toInt →
    if 1 ≤ d.numBlocks.toInt then d.dcmiDmaErrorCallback ≠ none → d.dcmiDmaDoneCallback ≠ none
    else d.dcmiDmaErrorCallback = none ∧ a.stream.cr.en = false

section

variable (hd : d.blocksDone = 0#32)
include hd

theorem reaches_iff :
    (d.activated pre).blocksDone + 1#32 = (d.activated pre).numBlocks ↔
      BitVec.ofNat 32 (counted pre + 1) = d.numBlocks := by
  rw [(d.activated_keeps pre).1, activated_blocksDone, hd, BitVec.zero_add, BitVec.ofNat_add]

theorem overruns_iff :
    (d.activated pre).Overruns ↔
      BitVec.ofNat 32 (counted pre + 1) = d.numBlocks ∧ d.dcmiDmaDoneCallback ≠ none := by
  rw [Overruns, reaches_iff hd, (d.activated_keeps pre).2.1]

/-- Nothing is ever reported before the first end. -/
theorem silent_before_end
    (h : ∀ pre' b post, pre ++ [a] = pre' ++ b :: post → ¬d.Ends pre' b) :
    errorCalls ((d.activated pre).activate a).2 = 0 := by
  have hlt := counted_lt (d := d) (pre ++ [a]) fun pre' b post heq hlast =>
    h pre' b post heq (.inr hlast)
  cases hk : flagKind a.flags with
  | half =>
    rw [activate_of_half hk]
    rfl
  | error => exact absurd (.inl hk) (h pre a [] rfl)
  | clean =>
    rw [errorCalls_of_clean hk, if_neg]
    rw [overruns_iff hd]
    rintro ⟨hreach, -⟩
    rw [counted_concat, if_pos (by simp [hk])] at hlt
    exact not_reaches_of_lt (by exact_mod_cast hlt) hreach

theorem no_null_of_safeAt (hk : flagKind a.flags ≠ .half) (h : d.SafeAt pre a) :
    ∀ c ∈ ((d.activated pre).activate a).2, c.callee ≠ none := by
  rw [no_null_iff hk, overruns_iff hd, (d.activated_keeps pre).2.2]
  rintro ⟨hreach, hdone⟩
  exact ((h.reaching hreach).resolve_left hdone).2

theorem reportedAt_iff_of_clean (hk : flagKind a.flags = .clean) :
    d.ReportedAt pre a ↔ d.SafeAt pre a := by
  have hhalf : flagKind a.flags ≠ .half := by simp [hk]
  have hcalls := errorCalls_of_clean (d := d.activated pre) hk
  have hen := en_of_clean (d := d.activated pre) hk
  simp only [overruns_iff hd] at hcalls
  rw [reaches_iff hd] at hen
  constructor
  · intro h
    have hnull := (no_null_iff hhalf).mp h.no_null
    rw [overruns_iff hd, (d.activated_keeps pre).2.2] at hnull
    refine ⟨fun hreach => ?_, fun _ hlast => ?_⟩
    · by_cases hdone : d.dcmiDmaDoneCallback = none
      · exact .inl hdone
      · exact .inr ⟨hk, hnull ⟨hreach, hdone⟩⟩
    · obtain ⟨hstop, hcount⟩ := h.ends (.inr ⟨hhalf, hlast⟩)
      simp only [hen, reaches_last_iff hlast] at hstop
      simp only [hcalls, reaches_last_iff hlast] at hcount
      split_ifs with hpos
      · intro herror hdone
        simp [herror, hdone] at hcount
      · simpa [hpos, and_comm] using And.intro hstop hcount
  · intro h
    refine ⟨no_null_of_safeAt hd hhalf h, fun hends => ?_, silent_before_end hd⟩
    have hlast : (counted pre + 1 : ℤ) = max 1 d.numBlocks.toInt :=
      (hends.resolve_left (by simp [hk])).2
    have hreach := reaches_last_iff hlast
    have hsafe := h.last hk hlast
    simp only [hen, hcalls, hreach]
    split_ifs at hsafe with hpos
    · have hnone := h.reaching (hreach.mpr hpos)
      refine ⟨.inr hpos, ?_⟩
      by_cases hdone : d.dcmiDmaDoneCallback = none
      · have herror : d.dcmiDmaErrorCallback = none := not_not.mp fun he => hsafe he hdone
        simp [hdone, herror]
      · simp [hpos, hdone, (hnone.resolve_left hdone).2]
    · simp [hpos, hsafe.1, hsafe.2]

theorem reportedAt_iff_of_error (hk : flagKind a.flags = .error) :
    d.ReportedAt pre a ↔ d.SafeAt pre a := by
  have hhalf : flagKind a.flags ≠ .half := by simp [hk]
  have hcalls := errorCalls_of_error (d := d.activated pre) hk
  simp only [overruns_iff hd, (d.activated_keeps pre).2.2] at hcalls
  constructor
  · intro h
    obtain ⟨-, hcount⟩ := h.ends (.inl hk)
    refine ⟨fun hreach => .inl ?_, fun hclean => absurd (hk.symm.trans hclean) (by decide)⟩
    by_contra hdone
    rw [hcalls, if_pos (And.intro hreach hdone)] at hcount
    omega
  · intro h
    have hover : ¬(BitVec.ofNat 32 (counted pre + 1) = d.numBlocks ∧
        d.dcmiDmaDoneCallback ≠ none) := by
      rintro ⟨hreach, hdone⟩
      have hclean := ((h.reaching hreach).resolve_left hdone).1
      exact absurd (hk.symm.trans hclean) (by decide)
    refine ⟨no_null_of_safeAt hd hhalf h, fun _ => ⟨en_of_error hk, ?_⟩, silent_before_end hd⟩
    rw [hcalls, if_neg hover, Nat.add_zero]

theorem reportedAt_of_half (hk : flagKind a.flags = .half) : d.ReportedAt pre a := by
  refine ⟨by simp [activate_of_half hk], fun hends => ?_, silent_before_end hd⟩
  rcases hends with herror | hlast
  · exact absurd (hk.symm.trans herror) (by decide)
  · exact absurd hk hlast.1

theorem reportsEnds_iff :
    d.ReportsEnds acts ↔
      ∀ pre a post, acts = pre ++ a :: post → flagKind a.flags ≠ .half → d.SafeAt pre a := by
  refine forall_congr' fun pre => forall_congr' fun a => forall_congr' fun post =>
    imp_congr_right fun _ => ?_
  cases hk : flagKind a.flags with
  | half => simp [reportedAt_of_half hd hk]
  | clean => simp [reportedAt_iff_of_clean hd hk]
  | error => simp [reportedAt_iff_of_error hd hk]

end

end Dma

open Dma

theorem openEnded_count_toInt (size : BitVec 32) :
    (size / 262136#32 - 1#32).toInt = (size.toNat / openEndedBytes : ℕ) - 1 := by
  have hlt := size.isLt
  have hle : size.toNat / openEndedBytes ≤ 2 ^ 32 / openEndedBytes := Nat.div_le_div_right hlt.le
  have hsmall : 2 ^ 32 / openEndedBytes = 16384 := by decide
  have hdiv : (size / 262136#32).toNat = size.toNat / openEndedBytes := BitVec.toNat_udiv
  rw [BitVec.toInt_eq_toNat_cond, BitVec.toNat_sub, hdiv, BitVec.toNat_ofNat]
  generalize size.toNat / openEndedBytes = q at *
  split_ifs <;> omega

/-- An open-ended capture reports its errors and its overrun as it should exactly when, at every
activation that counts a block: if the counter comes to the number of blocks, there is no done
callback, or the flags are clean and there is an error callback; and if the flags are clean and the
last block is used up, then in a buffer of two blocks or more an error callback goes with a done
callback, and in a smaller one there is no error callback and the stream has already stopped. -/
theorem openEnded_reportsEnds_iff {τ : Type*} {A : StreamAllocator τ} {b b' : Board τ}
    (h : Board.dcmiDmaInitOpenEnded A b = (0, b')) (acts : List Activation) :
    b'.dma.dcmiDmaArm.ReportsEnds acts ↔
      ∀ pre a post, acts = pre ++ a :: post → flagKind a.flags ≠ .half →
        (BitVec.ofNat 32 (counted pre + 1) = b.dma.dcmiDmaBufferSize / 262136#32 - 1#32 →
          b.dma.dcmiDmaDoneCallback = none ∨
            flagKind a.flags = .clean ∧ b.dma.dcmiDmaErrorCallback ≠ none) ∧
        (flagKind a.flags = .clean →
          counted pre + 1 = max 1 (b.dma.dcmiDmaBufferSize.toNat / openEndedBytes - 1) →
          if 2 * openEndedBytes ≤ b.dma.dcmiDmaBufferSize.toNat then
            b.dma.dcmiDmaErrorCallback ≠ none → b.dma.dcmiDmaDoneCallback ≠ none
          else b.dma.dcmiDmaErrorCallback = none ∧ a.stream.cr.en = false) := by
  obtain ⟨-, hdone, herror, -⟩ := @Board.initFor_keeps _ A .shuffleOpenEnded _ _ h
  obtain ⟨-, -, -, -, hn⟩ := openEnded_geometry h
  have hdone' : b'.dma.dcmiDmaArm.dcmiDmaDoneCallback = b.dma.dcmiDmaDoneCallback := hdone
  have herror' : b'.dma.dcmiDmaArm.dcmiDmaErrorCallback = b.dma.dcmiDmaErrorCallback := herror
  have hn' : b'.dma.dcmiDmaArm.numBlocks = b.dma.dcmiDmaBufferSize / 262136#32 - 1#32 := hn
  have htwo : 1 ≤ (b.dma.dcmiDmaBufferSize / 262136#32 - 1#32).toInt ↔
      2 * openEndedBytes ≤ b.dma.dcmiDmaBufferSize.toNat := by
    rw [openEnded_count_toInt, ← Nat.le_div_iff_mul_le (by decide)]
    omega
  rw [reportsEnds_iff rfl]
  refine forall_congr' fun pre => forall_congr' fun a => forall_congr' fun post =>
    imp_congr_right fun _ => imp_congr_right fun _ => ?_
  have hlast : (counted pre + 1 : ℤ) =
        max 1 (b.dma.dcmiDmaBufferSize / 262136#32 - 1#32).toInt ↔
      counted pre + 1 = max 1 (b.dma.dcmiDmaBufferSize.toNat / openEndedBytes - 1) := by
    rw [openEnded_count_toInt]
    omega
  constructor
  · rintro ⟨hreaching, hl⟩
    simp only [hdone', herror', hn', htwo, hlast] at hreaching hl
    exact ⟨hreaching, hl⟩
  · rintro ⟨hreaching, hl⟩
    constructor
    · simpa only [hdone', herror', hn'] using hreaching
    · simpa only [hdone', herror', hn', htwo, hlast] using hl

def overrunBoard (size : BitVec 32) (done error : Option Callback) : Board (Option Isr) :=
  ⟨{ Dma.boot with
      dcmiDmaBuffer := 0xD0000000#32
      dcmiDmaBufferSize := size
      dcmiDmaDoneCallback := done
      dcmiDmaErrorCallback := error }, none⟩

def overrunArmed (size : BitVec 32) (done error : Option Callback) : Dma :=
  (Board.dcmiDmaInitOpenEnded tableEntry (overrunBoard size done error)).2.dma.dcmiDmaArm

def firstActivation (size flags : BitVec 32) : Activation :=
  ⟨(overrunArmed size none none).stream, flags⟩

theorem overrun_reported :
    (overrunArmed 524272#32 (some .dmaAvail) (some .dmaError)).ReportsEnds
      [firstActivation 524272#32 tcif] := by
  refine (openEnded_reportsEnds_iff (A := tableEntry)
    (b := overrunBoard 524272#32 (some .dmaAvail) (some .dmaError)) rfl _).mpr
      fun pre a post hsplit _ => ?_
  obtain ⟨rfl, rfl, rfl⟩ : pre = [] ∧ a = firstActivation 524272#32 tcif ∧ post = [] := by
    cases pre with
    | nil => simpa [eq_comm] using hsplit
    | cons x pre => simp at hsplit
  exact ⟨fun _ => .inr (by decide), fun _ _ => by decide⟩

/-- Four ways to go wrong at the last block. Without a done callback the overrun is not reported;
without an error callback a null pointer is called; an error on the last block is reported twice;
and in a buffer of one block the overrun goes unnoticed. -/
theorem overrun_misreported :
    (errorCalls ((overrunArmed 524272#32 none (some .dmaError)).activate
        (firstActivation 524272#32 tcif)).2 = 0 ∧
      ¬(overrunArmed 524272#32 none (some .dmaError)).ReportsEnds
        [firstActivation 524272#32 tcif]) ∧
    (((overrunArmed 524272#32 (some .dmaAvail) none).activate
        (firstActivation 524272#32 tcif)).2.map (·.callee) = [none] ∧
      ¬(overrunArmed 524272#32 (some .dmaAvail) none).ReportsEnds
        [firstActivation 524272#32 tcif]) ∧
    (errorCalls ((overrunArmed 524272#32 (some .dmaAvail) (some .dmaError)).activate
        (firstActivation 524272#32 (tcif ||| teif))).2 = 2 ∧
      ¬(overrunArmed 524272#32 (some .dmaAvail) (some .dmaError)).ReportsEnds
        [firstActivation 524272#32 (tcif ||| teif)]) ∧
    (((overrunArmed 262136#32 (some .dmaAvail) (some .dmaError)).activate
        (firstActivation 262136#32 tcif)).2 = [] ∧
      ¬(overrunArmed 262136#32 (some .dmaAvail) (some .dmaError)).ReportsEnds
        [firstActivation 262136#32 tcif]) := by
  refine ⟨⟨by decide, fun h => ?_⟩, ⟨by decide, fun h => ?_⟩, ⟨by decide, fun h => ?_⟩,
    by decide, fun h => ?_⟩
  · have hends := (h [] _ [] rfl).ends (.inr ⟨by decide, by decide⟩)
    exact absurd hends.2 (by decide)
  · exact absurd (h [] _ [] rfl).no_null (by decide)
  · have hends := (h [] _ [] rfl).ends (.inl (by decide))
    exact absurd hends.2 (by decide)
  · have hends := (h [] _ [] rfl).ends (.inr ⟨by decide, by decide⟩)
    exact absurd hends.2 (by decide)

end WaferSat.DcmiDma
