import WaferSat.Camera.Mode
import WaferSat.Image.Ppm
import Mathlib.Tactic.IntervalCases

/-!
`write_rgb`, which stores a frame of RGB565 words as a plain PPM file. The two bytes of a pixel
are joined with a shift to the right where a shift to the left is needed, so the upper byte is
lost and the file shows the frame of the lower bytes.
-/
namespace WaferSat.Image
open DecimalText Camera

/-- The calls of FatFs on `image1.ppm`, opened with `FA_WRITE | FA_CREATE_ALWAYS`. Each gives its
return code, `f_write` also the number of bytes written. -/
structure FatFs (φ : Type*) where
  image : φ → List (BitVec 8)
  fOpen : φ → ℕ × φ
  fWrite : List (BitVec 8) → φ → ℕ × ℕ × φ
  fClose : φ → ℕ × φ
  open_ok : ∀ s, (fOpen s).1 = 0 → image (fOpen s).2 = []
  write_ok : ∀ bytes s, (fWrite bytes s).1 = 0 → bytes.length ≤ (fWrite bytes s).2.1 →
    image (fWrite bytes s).2.2 = image s ++ bytes
  close_ok : ∀ s, (fClose s).1 = 0 → image (fClose s).2 = image s

def goodCard : FatFs (List (BitVec 8)) where
  image := id
  fOpen _ := (0, [])
  fWrite bytes s := (0, bytes.length, s ++ bytes)
  fClose s := (0, s)
  open_ok _ _ := rfl
  write_ok _ _ _ _ := rfl
  close_ok _ _ := rfl

variable {φ : Type*} {F : FatFs φ} {m : Mode} {ram : ℕ → BitVec 8}

/-- The card and the outcomes of the calls made so far. -/
structure Session (φ : Type*) where
  card : φ
  outcomes : List Bool

def Session.AllOk (s : Session φ) : Prop := ∀ ok ∈ s.outcomes, ok = true

/-- A write with the test `fr || bw < br` that follows it. -/
def Session.write (F : FatFs φ) (bytes : List (BitVec 8)) (s : Session φ) : Session φ × Bool :=
  let r := F.fWrite bytes s.card
  let ok := decide (¬(r.1 ≠ 0 ∨ r.2.1 < bytes.length))
  (⟨r.2.2, s.outcomes ++ [ok]⟩, ok)

/-- `static char header []` with the digits of the picture size put in. -/
def header (m : Mode) : List (BitVec 8) :=
  let template : List (BitVec 8) :=
    [0x50#8, 0x33#8, 10#8, 48#8, 54#8, 52#8, 48#8, 32#8, 48#8, 52#8, 56#8, 48#8, 10#8,
      50#8, 53#8, 53#8, 10#8]
  template |>.set 3 (digit (m.maxx / 1000)) |>.set 4 (digit (m.maxx / 100))
    |>.set 5 (digit (m.maxx / 10)) |>.set 6 (digit m.maxx)
    |>.set 8 (digit (m.maxy / 1000)) |>.set 9 (digit (m.maxy / 100))
    |>.set 10 (digit (m.maxy / 10)) |>.set 11 (digit m.maxy)

/-- The statement that builds the pixel word; `OV5640_ram_buffer` has bytes, which are promoted
to `int` before the shift. -/
def color (ram : ℕ → BitVec 8) (i : ℕ) : BitVec 16 :=
  (((ram (2 * i + 1)).setWidth 32 >>> 8) + (ram (2 * i)).setWidth 32).setWidth 16

def red (c : BitVec 16) : BitVec 32 := (c.setWidth 32 &&& 0xF800#32) >>> 8

def green (c : BitVec 16) : BitVec 32 := (c.setWidth 32 &&& 0x07E0#32) >>> 3

def blue (c : BitVec 16) : BitVec 32 := (c.setWidth 32 &&& 0x001F#32) <<< 3

/-- The contents of `fbuff` for one pixel. -/
def fbuff (c : BitVec 16) : List (BitVec 8) :=
  let r := (red c).toNat
  let g := (green c).toNat
  let b := (blue c).toNat
  [digit (r / 100), digit (r / 10), digit r, 32#8,
    digit (g / 100), digit (g / 10), digit g, 32#8,
    digit (b / 100), digit (b / 10), digit b, 32#8, 10#8]

/-- One row from the column `x` on; an error leaves the row. -/
def writeRow (F : FatFs φ) (text : ℕ → List (BitVec 8)) : List ℕ → Session φ → Session φ
  | [], s => s
  | x :: xs, s =>
    let r := s.write F (text x)
    if r.2 = false then r.1 else writeRow F text xs r.1

def writeRgb (F : FatFs φ) (m : Mode) (ram : ℕ → BitVec 8) (card : φ) : Session φ :=
  let r := F.fOpen card
  let s : Session φ := ⟨r.2, [decide (r.1 = 0)]⟩
  let h := s.write F (header m)
  if h.2 = false then h.1
  else
    let s := (List.range m.maxy).foldl (fun s y =>
      writeRow F (fun x => fbuff (color ram (y * m.maxx + x))) (List.range m.maxx) s) h.1
    let r := F.fClose s.card
    ⟨r.2, s.outcomes ++ [decide (r.1 = 0)]⟩

/-- The pixel word that the camera left in the buffer. -/
def pixelWord (ram : ℕ → BitVec 8) (i : ℕ) : ℕ :=
  256 * (ram (2 * i + 1)).toNat + (ram (2 * i)).toNat

/-- The file is a picture of the mode's size whose pixels are those of the frame, so the words
can be read back from it. -/
def EncodesFrame (m : Mode) (ram : ℕ → BitVec 8) (file : List (BitVec 8)) : Prop :=
  ∃ ppm, parsePpm file = some ppm ∧ ppm.width = m.maxx ∧ ppm.height = m.maxy ∧
    ppm.maxval = 255 ∧ ppm.pixels.length = m.numPixels ∧
    ∀ i < m.numPixels, ∃ p, ppm.pixels[i]? = some p ∧ p = pixelOf (pixelWord ram i) ∧
      wordOf p = pixelWord ram i

theorem write_allOk {bytes : List (BitVec 8)} {s : Session φ} (h : (s.write F bytes).1.AllOk) :
    s.AllOk ∧ (s.write F bytes).2 = true ∧
      F.image (s.write F bytes).1.card = F.image s.card ++ bytes := by
  have hok : (s.write F bytes).2 = true := h _ (by simp [Session.write])
  refine ⟨fun ok hin => h ok (by simp [Session.write, hin]), hok, ?_⟩
  simp only [Session.write, decide_eq_true_eq, not_or, not_not, not_lt] at hok
  exact F.write_ok bytes s.card hok.1 hok.2

theorem writeRow_allOk {text : ℕ → List (BitVec 8)} {xs : List ℕ} {s : Session φ}
    (h : (writeRow F text xs s).AllOk) :
    s.AllOk ∧ F.image (writeRow F text xs s).card = F.image s.card ++ xs.flatMap text := by
  induction xs generalizing s with
  | nil => exact ⟨h, by simp [writeRow]⟩
  | cons x xs ih =>
    rw [writeRow] at h ⊢
    split_ifs at h ⊢ with hfail
    · exact absurd ((write_allOk h).2.1.symm.trans hfail) (by decide)
    · obtain ⟨hs, himage⟩ := ih h
      obtain ⟨hs, -, hwrite⟩ := write_allOk hs
      exact ⟨hs, by rw [himage, hwrite, List.flatMap_cons, List.append_assoc]⟩

theorem writeRows_allOk {text : ℕ → ℕ → List (BitVec 8)} {xs ys : List ℕ} {s : Session φ}
    (h : (ys.foldl (fun s y => writeRow F (text y) xs s) s).AllOk) :
    s.AllOk ∧ F.image (ys.foldl (fun s y => writeRow F (text y) xs s) s).card =
      F.image s.card ++ ys.flatMap fun y => xs.flatMap (text y) := by
  induction ys generalizing s with
  | nil => exact ⟨h, by simp⟩
  | cons y ys ih =>
    rw [List.foldl_cons] at h ⊢
    obtain ⟨hs, himage⟩ := ih h
    obtain ⟨hs, hrow⟩ := writeRow_allOk hs
    exact ⟨hs, by rw [himage, hrow, List.flatMap_cons, List.append_assoc]⟩

theorem writeRgb_image {card : φ} (h : (writeRgb F m ram card).AllOk) :
    F.image (writeRgb F m ram card).card = header m ++
      (List.range m.maxy).flatMap fun y => (List.range m.maxx).flatMap fun x =>
        fbuff (color ram (y * m.maxx + x)) := by
  unfold writeRgb at h ⊢
  dsimp only at h ⊢
  split_ifs at h ⊢ with hfail
  · exact absurd ((write_allOk h).2.1.symm.trans hfail) (by decide)
  · have hclose := of_decide_eq_true (h _ (List.mem_append_right _ (List.mem_singleton_self _)))
    rw [F.close_ok _ hclose]
    obtain ⟨hs, hrows⟩ := writeRows_allOk (F := F) (s := (Session.write F (header m) ⟨_, _⟩).1)
      fun ok hin => h ok (List.mem_append_left _ hin)
    obtain ⟨hs, -, hheader⟩ := write_allOk hs
    have hopen : F.image (F.fOpen card).2 = [] :=
      F.open_ok card (of_decide_eq_true (hs _ (List.mem_singleton_self _)))
    rw [hrows, hheader, hopen, List.nil_append]

theorem header_eq (m : Mode) : header m = headerText m.maxx m.maxy := by
  have hmax : decimal 3 255 = [50#8, 53#8, 53#8] := by decide
  rw [headerText, hmax]
  simp [header, decimal, Nat.div_div_eq_div_mul]

theorem red_toNat (c : BitVec 16) : (red c).toNat = 8 * (c.toNat / 2048) := by
  have hbits : red c = (c.setWidth 32 >>> 11) <<< 3 := by
    ext i hi
    interval_cases i <;> simp [red]
  have hlt := c.isLt
  rw [hbits]
  simp
  omega

theorem green_toNat (c : BitVec 16) : (green c).toNat = 4 * (c.toNat / 32 % 64) := by
  have hbits : green c = (c.setWidth 32 >>> 5 &&& 63#32) <<< 2 := by
    ext i hi
    interval_cases i <;> simp [green]
  have hmask (n : ℕ) : n &&& 63 = n % 64 := Nat.and_two_pow_sub_one_eq_mod n 6
  have hlt := c.isLt
  rw [hbits]
  simp [hmask]
  omega

theorem blue_toNat (c : BitVec 16) : (blue c).toNat = 8 * (c.toNat % 32) := by
  have hmask (n : ℕ) : n &&& 31 = n % 32 := Nat.and_two_pow_sub_one_eq_mod n 5
  have hlt := c.isLt
  simp [blue, hmask]
  omega

theorem fbuff_eq (c : BitVec 16) : fbuff c = pixelText (pixelOf c.toNat) := by
  simp [fbuff, red_toNat, green_toNat, blue_toNat, pixelText, pixelOf, decimal,
    Nat.div_div_eq_div_mul]

/-- The shift by eight leaves nothing of the upper byte. -/
theorem color_toNat (ram : ℕ → BitVec 8) (i : ℕ) : (color ram i).toNat = (ram (2 * i)).toNat := by
  have hhi := (ram (2 * i + 1)).isLt
  have hlo := (ram (2 * i)).isLt
  simp [color]
  omega

theorem flatMap_rows {β : Type*} (f : ℕ → List β) (w h : ℕ) :
    ((List.range h).flatMap fun y => (List.range w).flatMap fun x => f (y * w + x)) =
      (List.range (w * h)).flatMap f := by
  induction h with
  | zero => simp
  | succ h ih =>
    rw [List.range_succ, List.flatMap_append, ih, Nat.mul_succ, List.range_add, List.flatMap_append]
    simp [List.flatMap_map, Nat.mul_comm]

theorem parse_writeRgb {card : φ} (h : (writeRgb F m ram card).AllOk) :
    parsePpm (F.image (writeRgb F m ram card).card) =
      some ⟨m.maxx, m.maxy, 255, (List.range m.numPixels).map fun i =>
        pixelOf (ram (2 * i)).toNat⟩ := by
  obtain ⟨hx, hy⟩ := m.sides_lt
  rw [writeRgb_image h, header_eq, flatMap_rows fun i => fbuff (color ram i)]
  simp only [fbuff_eq, color_toNat]
  rw [← List.flatMap_map]
  refine parsePpm_text hx hy (by rw [List.length_map, List.length_range]) fun p hp => ?_
  obtain ⟨i, -, rfl⟩ := List.mem_map.mp hp
  have hlo := (ram (2 * i)).isLt
  exact pixelOf_le (by omega)

theorem pixelOf_low_eq_iff (ram : ℕ → BitVec 8) (i : ℕ) :
    pixelOf (ram (2 * i)).toNat = pixelOf (pixelWord ram i) ↔ ram (2 * i + 1) = 0#8 := by
  constructor
  · intro heq
    have hword := congrArg wordOf heq
    rw [wordOf_pixelOf, wordOf_pixelOf, pixelWord] at hword
    apply BitVec.eq_of_toNat_eq
    rw [BitVec.toNat_ofNat]
    omega
  · intro hz
    simp [pixelWord, hz]

theorem encodesFrame_of_parse {file : List (BitVec 8)}
    (h : parsePpm file = some ⟨m.maxx, m.maxy, 255, (List.range m.numPixels).map fun i =>
      pixelOf (ram (2 * i)).toNat⟩) :
    EncodesFrame m ram file ↔ ∀ i < m.numPixels, ram (2 * i + 1) = 0#8 := by
  constructor
  · rintro ⟨ppm, hparse, -, -, -, -, hpixels⟩ i hi
    obtain rfl := Option.some.inj (hparse.symm.trans h)
    obtain ⟨p, hp, hword, -⟩ := hpixels i hi
    rw [List.getElem?_map, List.getElem?_range hi, Option.map_some, Option.some.injEq] at hp
    exact (pixelOf_low_eq_iff ram i).mp (hp.trans hword)
  · intro hz
    refine ⟨_, h, rfl, rfl, rfl, by simp, fun i hi => ?_⟩
    have heq := (pixelOf_low_eq_iff ram i).mpr (hz i hi)
    refine ⟨_, ?_, heq, by rw [heq, wordOf_pixelOf]⟩
    rw [List.getElem?_map, List.getElem?_range hi, Option.map_some]

/-- When all calls of FatFs succeed, the file encodes the frame exactly if the upper byte of
every pixel word is zero. -/
theorem writeRgb_encodes_iff {card : φ} (h : (writeRgb F m ram card).AllOk) :
    EncodesFrame m ram (F.image (writeRgb F m ram card).card) ↔
      ∀ i < m.numPixels, ram (2 * i + 1) = 0#8 :=
  encodesFrame_of_parse (parse_writeRgb h)

theorem writeRow_goodCard (text : ℕ → List (BitVec 8)) (xs : List ℕ) (s : Session (List (BitVec 8)))
    (h : s.AllOk) : (writeRow goodCard text xs s).AllOk := by
  induction xs generalizing s with
  | nil => exact h
  | cons x xs ih =>
    have hstep : (s.write goodCard (text x)).1.AllOk := by
      intro ok hin
      simp only [Session.write, goodCard, List.mem_append, List.mem_singleton] at hin
      rcases hin with hin | rfl
      · exact h ok hin
      · simp
    rw [writeRow]
    split_ifs
    · exact hstep
    · exact ih _ hstep

theorem writeRgb_goodCard (m : Mode) (ram : ℕ → BitVec 8) (card : List (BitVec 8)) :
    (writeRgb goodCard m ram card).AllOk := by
  have hrows (ys : List ℕ) (s : Session (List (BitVec 8))) (h : s.AllOk) :
      (ys.foldl (fun s y => writeRow goodCard (fun x => fbuff (color ram (y * m.maxx + x)))
        (List.range m.maxx) s) s).AllOk := by
    induction ys generalizing s with
    | nil => exact h
    | cons y ys ih => exact ih _ (writeRow_goodCard _ _ s h)
  have hstart : (Session.write goodCard (header m) ⟨[], [true]⟩).1.AllOk := by
    simp [Session.AllOk, Session.write, goodCard]
  have hend := hrows (List.range m.maxy) _ hstart
  unfold writeRgb
  dsimp only
  split_ifs
  · exact hstart
  · intro ok hin
    rcases List.mem_append.mp hin with hin | hin
    · exact hend ok hin
    · rw [List.mem_singleton.mp hin]
      rfl

def rampFrame (i : ℕ) : BitVec 8 := if i % 2 = 1 then 0#8 else BitVec.ofNat 8 (i / 2)

theorem writeRgb_encodes_ramp :
    EncodesFrame .mode320x240 rampFrame
      (goodCard.image (writeRgb goodCard .mode320x240 rampFrame []).card) := by
  refine (writeRgb_encodes_iff (writeRgb_goodCard .mode320x240 rampFrame [])).mpr fun i _ => ?_
  rw [rampFrame, if_pos (by omega)]

def redFrame (i : ℕ) : BitVec 8 := if i % 2 = 1 then 0xF8#8 else 0#8

/-- A red frame is stored as a black picture. -/
theorem writeRgb_red_is_black :
    (writeRgb goodCard .mode320x240 redFrame []).AllOk ∧
    pixelOf (pixelWord redFrame 0) = (248, 0, 0) ∧
    (∃ ppm, parsePpm (goodCard.image (writeRgb goodCard .mode320x240 redFrame []).card) = some ppm ∧
      ppm.pixels[0]? = some (0, 0, 0)) ∧
    ¬EncodesFrame .mode320x240 redFrame
      (goodCard.image (writeRgb goodCard .mode320x240 redFrame []).card) := by
  have hok := writeRgb_goodCard .mode320x240 redFrame []
  have hparse := parse_writeRgb hok
  refine ⟨hok, by decide, ⟨_, hparse, ?_⟩, fun henc => ?_⟩
  · rw [List.getElem?_map, List.getElem?_range (by decide), Option.map_some]
    rfl
  · exact absurd ((encodesFrame_of_parse hparse).mp henc 0 (by decide)) (by decide)

end WaferSat.Image
