import WaferSat.Foundation.DecimalText
import Mathlib.Algebra.Order.Group.Nat

/-!
What a picture file is meant to hold: the plain PPM format (`P3`) as a reader understands it,
and the RGB565 pixel words of the camera.
-/
namespace WaferSat.Image
open DecimalText

structure Ppm where
  width : ℕ
  height : ℕ
  maxval : ℕ
  pixels : List (ℕ × ℕ × ℕ)
  deriving DecidableEq, Repr

def triples : List ℕ → Option (List (ℕ × ℕ × ℕ))
  | [] => some []
  | r :: g :: b :: rest => (triples rest).map ((r, g, b) :: ·)
  | _ => none

/-- A reader of `P3` files: a magic number, the size, the largest sample, then exactly the
samples of `width * height` pixels, row by row. -/
def parsePpm (text : List (BitVec 8)) : Option Ppm :=
  match tokens text with
  | magic :: w :: h :: top :: samples => do
    guard (magic = [0x50#8, 0x33#8])
    let width ← parseDecimal w
    let height ← parseDecimal h
    let maxval ← parseDecimal top
    let values ← samples.mapM parseDecimal
    let pixels ← triples values
    guard (pixels.length = width * height ∧ ∀ v ∈ values, v ≤ maxval)
    some ⟨width, height, maxval, pixels⟩
  | _ => none

/-- The three fields of an RGB565 word, from the top, scaled to eight bits. -/
def pixelOf (w : ℕ) : ℕ × ℕ × ℕ := (8 * (w / 2048), 4 * (w / 32 % 64), 8 * (w % 32))

def wordOf (p : ℕ × ℕ × ℕ) : ℕ := p.1 / 8 * 2048 + p.2.1 / 4 * 32 + p.2.2 / 8

theorem wordOf_pixelOf (w : ℕ) : wordOf (pixelOf w) = w := by
  simp only [wordOf, pixelOf]
  omega

theorem pixelOf_le {w : ℕ} (h : w < 2 ^ 16) :
    (pixelOf w).1 ≤ 255 ∧ (pixelOf w).2.1 ≤ 255 ∧ (pixelOf w).2.2 ≤ 255 := by
  simp only [pixelOf]
  omega

/-- A pixel as text with three digits a sample. -/
def pixelText (p : ℕ × ℕ × ℕ) : List (BitVec 8) :=
  decimal 3 p.1 ++ 32#8 :: (decimal 3 p.2.1 ++ 32#8 :: (decimal 3 p.2.2 ++ [32#8, 10#8]))

def headerText (width height : ℕ) : List (BitVec 8) :=
  [0x50#8, 0x33#8] ++ 10#8 :: (decimal 4 width ++ 32#8 :: (decimal 4 height ++ 10#8 ::
    (decimal 3 255 ++ [10#8])))

def samplesOf (p : ℕ × ℕ × ℕ) : List ℕ := [p.1, p.2.1, p.2.2]

theorem tokens_decimal (k n : ℕ) {c : BitVec 8} (hc : isSpace c = true) (rest : List (BitVec 8)) :
    tokens (decimal (k + 1) n ++ c :: rest) = decimal (k + 1) n :: tokens rest :=
  tokens_word (isSpace_decimal (k + 1) n) (decimal_ne_nil k n) hc rest

theorem tokens_pixelText (p : ℕ × ℕ × ℕ) (rest : List (BitVec 8)) :
    tokens (pixelText p ++ rest) = (samplesOf p).map (decimal 3) ++ tokens rest := by
  simp only [pixelText, List.append_assoc, List.cons_append, List.nil_append]
  rw [tokens_decimal 2 _ (by decide), tokens_decimal 2 _ (by decide),
    tokens_decimal 2 _ (by decide), tokens_space (by decide)]
  rfl

theorem tokens_headerText (width height : ℕ) (rest : List (BitVec 8)) :
    tokens (headerText width height ++ rest) =
      [0x50#8, 0x33#8] :: decimal 4 width :: decimal 4 height :: decimal 3 255 :: tokens rest := by
  have hassoc : headerText width height ++ rest = [0x50#8, 0x33#8] ++ 10#8 ::
      (decimal 4 width ++ 32#8 ::
        (decimal 4 height ++ 10#8 :: (decimal 3 255 ++ 10#8 :: rest))) := by
    simp only [headerText, List.append_assoc, List.cons_append, List.nil_append]
  rw [hassoc, tokens_word (by decide) (by decide) (by decide), tokens_decimal 3 _ (by decide),
    tokens_decimal 3 _ (by decide), tokens_decimal 2 _ (by decide)]

theorem tokens_pixels (ps : List (ℕ × ℕ × ℕ)) :
    tokens (ps.flatMap pixelText) = (ps.flatMap samplesOf).map (decimal 3) := by
  induction ps with
  | nil => rfl
  | cons p ps ih =>
    rw [List.flatMap_cons, tokens_pixelText, ih, List.flatMap_cons, List.map_append]

theorem mapM_parseDecimal {values : List ℕ} (h : ∀ v ∈ values, v ≤ 255) :
    (values.map (decimal 3)).mapM parseDecimal = some values := by
  induction values with
  | nil => rfl
  | cons v values ih =>
    have hv : v ≤ 255 := h v (by simp)
    have hrest := ih fun u hu => h u (by simp [hu])
    rw [List.map_cons, List.mapM_cons, parseDecimal_decimal (by omega), hrest]
    rfl

theorem triples_samples (ps : List (ℕ × ℕ × ℕ)) : triples (ps.flatMap samplesOf) = some ps := by
  induction ps with
  | nil => rfl
  | cons p ps ih =>
    rw [List.flatMap_cons]
    simp [samplesOf, triples, ih]

/-- A file written with four-digit sides and three-digit samples is read back. -/
theorem parsePpm_text {width height : ℕ} {ps : List (ℕ × ℕ × ℕ)} (hw : width < 10000)
    (hh : height < 10000) (hlen : ps.length = width * height)
    (hmax : ∀ p ∈ ps, p.1 ≤ 255 ∧ p.2.1 ≤ 255 ∧ p.2.2 ≤ 255) :
    parsePpm (headerText width height ++ ps.flatMap pixelText) =
      some ⟨width, height, 255, ps⟩ := by
  have hvalues : ∀ v ∈ ps.flatMap samplesOf, v ≤ 255 := by
    intro v hv
    obtain ⟨p, hp, hv⟩ := List.mem_flatMap.mp hv
    obtain ⟨hr, hg, hb⟩ := hmax p hp
    simp only [samplesOf, List.mem_cons, List.not_mem_nil, or_false] at hv
    rcases hv with rfl | rfl | rfl <;> assumption
  simp only [parsePpm, tokens_headerText, tokens_pixels]
  rw [parseDecimal_decimal hw, parseDecimal_decimal hh, parseDecimal_decimal (by decide),
    mapM_parseDecimal hvalues]
  simp only [guard, ↓reduceIte, Option.pure_def, Option.bind_eq_bind, Option.bind_some,
    triples_samples]
  rw [if_pos ⟨hlen, hvalues⟩, Option.bind_some]

end WaferSat.Image
