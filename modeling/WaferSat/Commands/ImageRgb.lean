import WaferSat.Camera.Frame
import WaferSat.Image.WriteRgb

/-!
The shell command `cmd_image_rgb` from the camera to the card: the capture driver is set up, a
frame captured and `write_rgb` called on the buffer. The value of the capture is dropped, so the
file is written after a timeout as well.
-/
namespace WaferSat.Commands
open Camera DcmiDma ByteMemory Image

variable {τ φ : Type*}

structure RgbState (τ φ : Type*) where
  board : Board τ
  mem : ℕ → BitVec 8
  samplingFinished : Bool
  card : φ

/-- What a call meets: the camera, the stream and the clock during the capture, the flag of the
card monitor after it, and what the processor reads from a buffer that is still being filled. -/
structure RgbInput where
  acts : List FrameAct
  fsReady : Bool
  late : ℕ → BitVec 8

/-- The state after a call, the value that the capture returned, and the calls of FatFs. -/
structure RgbResult (τ φ : Type*) where
  state : RgbState τ φ
  captured : Option Bool
  written : Option (Session φ)

/-- The call is over when the capture has returned. A stream that is off leaves the buffer alone,
and `write_rgb` reads each byte of it once. -/
def cmdImageRgb (A : StreamAllocator τ) (F : FatFs φ) (fMount : φ → φ) (m : Mode) (argc : ℕ)
    (x : RgbInput) (r : RgbState τ φ) : Option (RgbResult τ φ) :=
  if argc > 0 then some ⟨r, none, none⟩
  else
    (captureRGB A m.ramBuffer x.acts r.board r.mem r.samplingFinished).bind fun s =>
    s.thread.result.map fun captured =>
    let r' : RgbState τ φ :=
      ⟨⟨s.words.dma, (ov5640InitDMARGB A m.ramBuffer r.board).2.hal⟩, s.words.settled,
        s.thread.samplingFinished, r.card⟩
    if x.fsReady = false then ⟨r', some captured, none⟩
    else
      let ram := if s.words.dma.stream.cr.en = true then x.late
        else fun i => s.words.settled (m.ramBuffer.base.toNat + i)
      let w := writeRgb F m ram (fMount r.card)
      ⟨{ r' with card := w.card }, some captured, some w⟩

variable {A : StreamAllocator τ} {F : FatFs φ} {fMount : φ → φ} {m : Mode} {argc : ℕ}
  {x : RgbInput} {r : RgbState τ φ} {out : RgbResult τ φ} {w : Session φ}

theorem cmdImageRgb_written (h : cmdImageRgb A F fMount m argc x r = some out)
    (hw : out.written = some w) :
    ∃ s captured, captureRGB A m.ramBuffer x.acts r.board r.mem r.samplingFinished = some s ∧
      s.thread.result = some captured ∧ out.captured = some captured ∧
      out.state.card = w.card ∧
      w = writeRgb F m (if s.words.dma.stream.cr.en = true then x.late
        else fun i => s.words.settled (m.ramBuffer.base.toNat + i)) (fMount r.card) := by
  unfold cmdImageRgb at h
  by_cases hargc : argc > 0
  · rw [if_pos hargc] at h
    obtain rfl := Option.some.inj h
    simp at hw
  · rw [if_neg hargc] at h
    obtain ⟨s, hs, h⟩ := Option.bind_eq_some_iff.mp h
    obtain ⟨captured, hcaptured, h⟩ := Option.map_eq_some_iff.mp h
    refine ⟨s, captured, hs, hcaptured, ?_⟩
    dsimp only at h
    by_cases hready : x.fsReady = false
    · rw [if_pos hready] at h
      obtain rfl := h
      simp at hw
    · rw [if_neg hready] at h
      obtain rfl := h
      obtain rfl := Option.some.inj hw
      exact ⟨rfl, rfl, rfl⟩

end WaferSat.Commands
