import Mathlib.Data.BitVec

/-! The picture formats that `ov5640.h` offers and the size of the frame buffer in each. -/
namespace WaferSat.Camera

inductive Mode where
  | mode320x240 | mode640x480 | mode1280x960 | mode1280x960x2x2 | mode2048x1536
  deriving DecidableEq, Repr

namespace Mode

/-- `OV5640_MAXX` -/
def maxx : Mode → ℕ
  | mode320x240 => 320
  | mode640x480 => 640
  | mode1280x960 => 1280
  | mode1280x960x2x2 => 1280
  | mode2048x1536 => 2048

/-- `OV5640_MAXY` -/
def maxy : Mode → ℕ
  | mode320x240 => 240
  | mode640x480 => 480
  | mode1280x960 => 960
  | mode1280x960x2x2 => 960
  | mode2048x1536 => 1536

/-- `OV5640_NUM_PIXELS` -/
def numPixels (m : Mode) : ℕ := m.maxx * m.maxy

/-- `sizeof(OV5640_ram_buffer)` -/
def ramBufferBytes (m : Mode) : ℕ := m.numPixels * 2

theorem sides_lt (m : Mode) : m.maxx < 10000 ∧ m.maxy < 10000 := by
  cases m <;> decide

end Mode
end WaferSat.Camera
