import WaferSat.Camera.Snapshot
import WaferSat.DcmiDma.Completion

/-!
`OV5640_Snapshot2RAM_RGB`, one statement at a time, with the DMA interrupt between any two of
them. The flag `samplingFinished` is cleared after the capture has been enabled, so a callback
that runs in between leaves no trace.
-/
namespace WaferSat.Camera
open DcmiDma GuardedRun

/-- `TIME_MS2I(1000)` at ten ticks a millisecond. -/
def samplingTimeout : BitVec 32 := 10000#32

/-- The wait loop is the one of the JPEG capture, with the flag in place of the capture bit. -/
def waitSampling (timeout : BitVec 32) (readings : List (Bool × BitVec 32)) : Option Bool :=
  waitCapture timeout (readings.map fun p => (!p.1, p.2))

inductive Statement where
  | initDCMI
  | clearFlag
  | setDeadline
  | poll
  | check
  deriving DecidableEq, Repr

/-- The thread, the flag it shares with the interrupt, and the driver. `completed` is whether the
done callback has run since this capture was enabled; it is not part of the code. -/
structure Capture where
  next : Statement
  samplingFinished : Bool
  timeout : BitVec 32
  result : Option Bool
  dma : Dma
  completed : Bool
  deriving DecidableEq, Repr

namespace Capture

/-- One statement of the thread; `now` is the system time if the statement reads it. After the
last one the thread is ready for another call. -/
def thread (now : BitVec 32) (s : Capture) : Capture :=
  match s.next with
  | .initDCMI => { s with next := .clearFlag, completed := false }
  | .clearFlag => { s with next := .setDeadline, samplingFinished := false }
  | .setDeadline => { s with next := .poll, timeout := now + samplingTimeout }
  | .poll => if s.samplingFinished = false ∧ now < s.timeout then s else { s with next := .check }
  | .check => { s with next := .initDCMI, result := some (decide (¬now ≥ s.timeout)) }

/-- Whether an activation runs the given callback. -/
def calls (f : Callback) (flags : BitVec 32) (d : Dma) : Bool :=
  (d.dcmiDmaShuffleIsr flags).2.any fun c => c.callee = some f

/-- An activation of `dcmi_dma_shuffle_isr` with the callbacks it makes: `dma_avail` sets the
flag, and the assertion in `dma_error` halts the system. -/
def interrupt (flags : BitVec 32) (s : Capture) : Option Capture :=
  let dma := (s.dma.dcmiDmaShuffleIsr flags).1
  if calls .dmaError flags s.dma then none
  else if calls .dmaAvail flags s.dma then
    some { s with dma := dma, samplingFinished := true, completed := true }
  else some { s with dma := dma }

end Capture

inductive CaptureAct where
  | thread (now : BitVec 32)
  | interrupt (flags : BitVec 32)
  deriving DecidableEq, Repr

def captureStep (s : Capture) : CaptureAct → Option Capture
  | .thread now => some (s.thread now)
  | .interrupt flags => s.interrupt flags

/-- At a poll ahead of the deadline a completion of this capture ends the wait and is seen, and
what is seen is a completion of this capture. -/
def NoCompletionLost (s : Capture) : Prop :=
  s.next = .poll →
    (s.completed = true → ∀ now, now < s.timeout →
      (s.thread now).next = .check ∧ (s.thread now).samplingFinished = true) ∧
    (s.samplingFinished = true → s.completed = true)

/-- The callback does not run between the enabling of the capture and the clearing of the flag. -/
def NotBeforeClear (s : Capture) : CaptureAct → Prop
  | .thread _ => True
  | .interrupt flags => Capture.calls .dmaAvail flags s.dma = true → s.next ≠ .clearFlag

instance (s : Capture) : ∀ a, Decidable (NotBeforeClear s a)
  | .thread _ => .isTrue trivial
  | .interrupt _ => inferInstanceAs (Decidable (_ → _))

/-- While the flag is to be cleared nothing has been completed; from then on the flag says
whether something has. -/
structure FlagCurrent (s : Capture) : Prop where
  uncleared : s.next = .clearFlag → s.completed = false
  cleared : s.next ≠ .initDCMI → s.next ≠ .clearFlag → s.samplingFinished = s.completed

variable {s t : Capture} {a : CaptureAct} {acts : List CaptureAct}

theorem flagCurrent_thread (h : FlagCurrent s) (now : BitVec 32) : FlagCurrent (s.thread now) := by
  unfold Capture.thread
  cases hn : s.next with
  | initDCMI => exact ⟨fun _ => rfl, fun _ hc => absurd rfl hc⟩
  | clearFlag => exact ⟨fun hc => by simp at hc, fun _ _ => (h.uncleared hn).symm⟩
  | setDeadline =>
    have hflag := h.cleared (by simp [hn]) (by simp [hn])
    exact ⟨fun hc => by simp at hc, fun _ _ => hflag⟩
  | poll =>
    have hflag := h.cleared (by simp [hn]) (by simp [hn])
    dsimp only
    split_ifs
    · exact h
    · exact ⟨fun hc => by simp at hc, fun _ _ => hflag⟩
  | check => exact ⟨fun hc => by simp at hc, fun hi => absurd rfl hi⟩

theorem flagCurrent_interrupt (h : FlagCurrent s) {flags : BitVec 32}
    (hc : NotBeforeClear s (.interrupt flags)) (ht : s.interrupt flags = some t) :
    FlagCurrent t := by
  unfold Capture.interrupt at ht
  dsimp only at ht
  split_ifs at ht with _ havail
  · obtain rfl := Option.some.inj ht
    exact ⟨fun hn => absurd hn (hc havail), fun _ _ => rfl⟩
  · obtain rfl := Option.some.inj ht
    exact ⟨h.uncleared, h.cleared⟩

theorem flagCurrent_step (h : FlagCurrent s) (hc : NotBeforeClear s a)
    (ht : captureStep s a = some t) : FlagCurrent t := by
  cases a with
  | thread now => exact (Option.some.inj ht) ▸ flagCurrent_thread h now
  | interrupt flags => exact flagCurrent_interrupt h hc ht

theorem FlagCurrent.noCompletionLost (h : FlagCurrent s) : NoCompletionLost s := by
  intro hn
  have hflag := h.cleared (by simp [hn]) (by simp [hn])
  refine ⟨fun hdone now hnow => ?_, fun hf => hflag ▸ hf⟩
  have hset : s.samplingFinished = true := hflag.trans hdone
  simp [Capture.thread, hn, hset]

/-- No completion is lost, and none is taken for a later one, in any run of captures in which the
callback never runs between the enabling of a capture and the clearing of the flag. -/
theorem captures_lose_none (hs : s.next = .initDCMI)
    (hc : Meets captureStep NotBeforeClear s acts) : Along captureStep NoCompletionLost s acts :=
  along_of_meets (fun _ _ _ h hc ht => flagCurrent_step h hc ht)
    (fun _ h => h.noCompletionLost) ⟨by simp [hs], fun hi => absurd hs hi⟩ hc

def freshCapture : Capture where
  next := .initDCMI
  samplingFinished := true
  timeout := 0#32
  result := none
  dma := oneBlockReady.dma.dcmiDmaArm
  completed := false

def completedWhileWaiting : List CaptureAct :=
  [.thread 0#32, .thread 0#32, .thread 5#32, .thread 6#32, .interrupt tcif, .thread 7#32]

theorem freshCapture_loses_none :
    (run captureStep freshCapture completedWhileWaiting).map Capture.next = some .check ∧
    Along captureStep NoCompletionLost freshCapture completedWhileWaiting :=
  ⟨by decide, captures_lose_none rfl (by decide)⟩

/-- The block completes before the thread comes to clear the flag: ahead of the deadline the loop
goes on waiting for a capture that is already there. -/
theorem completion_before_clear_lost : ∃ s,
    run captureStep freshCapture
      [.thread 0#32, .interrupt tcif, .thread 0#32, .thread 0#32] = some s ∧
    s.next = .poll ∧ s.completed = true ∧ 1#32 < s.timeout ∧ (s.thread 1#32).next = .poll ∧
    ¬NoCompletionLost s := by
  have hrun : ∃ s, run captureStep freshCapture
      [.thread 0#32, .interrupt tcif, .thread 0#32, .thread 0#32] = some s ∧
      s.next = .poll ∧ s.completed = true ∧ 1#32 < s.timeout ∧ (s.thread 1#32).next = .poll :=
    ⟨_, rfl, by decide, by decide, by decide, by decide⟩
  obtain ⟨s, hs, hn, hdone, hnow, hwait⟩ := hrun
  refine ⟨s, hs, hn, hdone, hnow, hwait, fun h => ?_⟩
  have hend := ((h hn).1 hdone 1#32 hnow).1
  exact absurd (hwait.symm.trans hend) (by decide)

theorem waitSampling_cons (hn : s.next = .poll) (now : BitVec 32)
    (rest : List (Bool × BitVec 32)) :
    waitSampling s.timeout ((s.samplingFinished, now) :: rest) =
      if (s.thread now).next = .poll then waitSampling s.timeout rest
      else some s.samplingFinished := by
  cases hf : s.samplingFinished <;> by_cases hnow : now < s.timeout <;>
    simp [waitSampling, waitCapture, Capture.thread, hn, hf, hnow]

end WaferSat.Camera
