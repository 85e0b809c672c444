import WaferSat.Commands.Image
import WaferSat.Image.WriteRgb

/-!
Both picture commands on one card. `write_jpeg` creates a file under a new name and `write_rgb`
replaces `image1.ppm`, so in a session of both, in any order and with any failures, no picture
disturbs one of the other kind.
-/
namespace WaferSat.Commands
open Camera Image

variable {φ : Type*}

def ppmName : Name := [105#8, 109#8, 97#8, 103#8, 101#8, 49#8, 46#8, 112#8, 112#8, 109#8]

/-- A card for both commands. `fCreate` is `f_open` with `FA_WRITE | FA_CREATE_ALWAYS`. -/
structure Card (φ : Type*) extends StoringVolume φ where
  fCreate : Name → φ → FResult × φ
  create_ok : ∀ name s, (fCreate name s).1 = .ok →
    content (fCreate name s).2 = Function.update (content s) name (some [])
  create_touches : ∀ name s, TouchesOnly name (content s) (content (fCreate name s).2)
  close_invalid : ∀ s, (fClose none s).1 ≠ .ok ∧ content (fClose none s).2 = content s

def code : FResult → ℕ
  | .ok => 0
  | .diskErr => 1
  | .intErr => 2
  | .notReady => 3
  | .noFile => 4
  | .noPath => 5
  | .invalidName => 6
  | .denied => 7
  | .exist => 8
  | .invalidObject => 9
  | .writeProtected => 10
  | .invalidDrive => 11
  | .notEnabled => 12
  | .noFilesystem => 13
  | .mkfsAborted => 14
  | .timeout => 15
  | .locked => 16
  | .notEnoughCore => 17
  | .tooManyOpenFiles => 18
  | .invalidParameter => 19

theorem code_eq_zero {fr : FResult} : code fr = 0 ↔ fr = .ok := by
  cases fr <;> simp [code]

/-- The card as `write_rgb` sees it, with the state of its file object. -/
structure PpmFile (V : Card φ) where
  card : φ
  isOpen : Bool
  there : isOpen = true → V.content card ppmName ≠ none

namespace PpmFile

variable {V : Card φ}

/-- The file object, which is not valid when `f_open` has failed. -/
def fil (s : PpmFile V) : Option Name := if s.isOpen = true then some ppmName else none

def closed (V : Card φ) (card : φ) : PpmFile V := ⟨card, false, nofun⟩

def create (s : PpmFile V) : FResult × PpmFile V :=
  ((V.fCreate ppmName s.card).1,
    ⟨(V.fCreate ppmName s.card).2, decide ((V.fCreate ppmName s.card).1 = .ok), fun h => by
      rw [V.create_ok _ _ (of_decide_eq_true h), Function.update_self]
      exact Option.some_ne_none _⟩)

def write (bytes : List (BitVec 8)) (s : PpmFile V) : FResult × ℕ × PpmFile V :=
  ((V.fWrite s.fil bytes s.card).1, (V.fWrite s.fil bytes s.card).2.1,
    ⟨(V.fWrite s.fil bytes s.card).2.2, s.isOpen, fun h => by
      rw [fil, if_pos h]
      exact (V.write_touches _ _ _).stays (s.there h)⟩)

def close (s : PpmFile V) : FResult × PpmFile V :=
  ((V.fClose s.fil s.card).1,
    ⟨(V.fClose s.fil s.card).2, s.isOpen, fun h => by
      rw [fil, if_pos h]
      exact (V.close_touches _ _).stays (s.there h)⟩)

theorem write_ok {bytes : List (BitVec 8)} {s : PpmFile V} (hok : (s.write bytes).1 = .ok)
    (hall : bytes.length ≤ (s.write bytes).2.1) :
    (V.content (s.write bytes).2.2.card ppmName).getD [] =
      (V.content s.card ppmName).getD [] ++ bytes := by
  simp only [write, fil] at hok hall ⊢
  cases hopen : s.isOpen with
  | false =>
    rw [hopen, if_neg Bool.false_ne_true] at hok
    exact absurd hok (V.write_invalid _ _).1
  | true =>
    rw [hopen, if_pos rfl] at hok hall
    obtain ⟨file, hfile⟩ := Option.ne_none_iff_exists'.mp (s.there hopen)
    rw [if_pos rfl, V.write_stores _ _ _ hok hall, hfile]
    rfl

theorem close_ok {s : PpmFile V} (hok : s.close.1 = .ok) :
    V.content s.close.2.card = V.content s.card := by
  simp only [close, fil] at hok ⊢
  cases hopen : s.isOpen with
  | false => exact (V.close_invalid _).2
  | true =>
    rw [hopen, if_pos rfl] at hok
    exact V.close_keeps _ _ hok

end PpmFile

/-- The calls of `write_rgb`, all on `image1.ppm`. -/
def Card.ppm (V : Card φ) : FatFs (PpmFile V) where
  image s := (V.content s.card ppmName).getD []
  fOpen s := (code s.create.1, s.create.2)
  fWrite bytes s := (code (s.write bytes).1, (s.write bytes).2)
  fClose s := (code s.close.1, s.close.2)
  open_ok s h := by
    have hcreated : V.content s.create.2.card = _ := V.create_ok ppmName s.card (code_eq_zero.mp h)
    rw [hcreated, Function.update_self]
    rfl
  write_ok _ _ h hall := PpmFile.write_ok (code_eq_zero.mp h) hall
  close_ok s h := by
    rw [PpmFile.close_ok (code_eq_zero.mp h)]

/-- What is set up by the `f_open` of `write_rgb` and kept by its other calls holds at its end. -/
theorem writeRgb_keeps {ψ : Type*} {F : FatFs ψ} {m : Mode} {ram : ℕ → BitVec 8} {card : ψ}
    {P : Session ψ → Prop} (hopen : P ⟨(F.fOpen card).2, [decide ((F.fOpen card).1 = 0)]⟩)
    (hwrite : ∀ bytes s, P s → P (s.write F bytes).1)
    (hclose : ∀ s : Session ψ, P s →
      P ⟨(F.fClose s.card).2, s.outcomes ++ [decide ((F.fClose s.card).1 = 0)]⟩) :
    P (writeRgb F m ram card) := by
  have hrow (text : ℕ → List (BitVec 8)) (xs : List ℕ) (s : Session ψ) (hs : P s) :
      P (writeRow F text xs s) := by
    induction xs generalizing s with
    | nil => exact hs
    | cons x xs ih =>
      rw [writeRow]
      split_ifs
      · exact hwrite _ s hs
      · exact ih _ (hwrite _ s hs)
  have hrows (text : ℕ → ℕ → List (BitVec 8)) (xs ys : List ℕ) (s : Session ψ) (hs : P s) :
      P (ys.foldl (fun s y => writeRow F (text y) xs s) s) := by
    induction ys generalizing s with
    | nil => exact hs
    | cons y ys ih => exact ih _ (hrow (text y) xs s hs)
  unfold writeRgb
  dsimp only
  split_ifs
  · exact hwrite _ _ hopen
  · exact hclose _ (hrows _ _ _ _ (hwrite _ _ hopen))

/-- What one of the two commands stores. -/
inductive Save where
  | jpeg (data : List (BitVec 8))
  | ppm (m : Mode) (ram : ℕ → BitVec 8)

def Save.isJpeg : Save → Bool
  | jpeg _ => true
  | ppm _ _ => false

namespace Card

variable (V : Card φ)

def mounted (s : Store φ) : Store φ := ⟨(V.fMount s.card).2, s.imageIndex⟩

/-- The calls that `image_rgb` makes on the card. -/
def storeRgb (m : Mode) (ram : ℕ → BitVec 8) (s : Store φ) : Session (PpmFile V) :=
  writeRgb V.ppm m ram (PpmFile.closed V (V.mounted s).card)

def save (s : Store φ) : Save → Store φ
  | .jpeg data => (writeJpeg V.toVolume data (V.mounted s)).2
  | .ppm m ram => ⟨(V.storeRgb m ram s).card.card, s.imageIndex⟩

def saves (s : Store φ) (xs : List Save) : Store φ := xs.foldl V.save s

variable {V} {s : Store φ} {name : Name} {file : List (BitVec 8)}

theorem storeRgb_untouched (hfile : V.content s.card name = some file) (hne : name ≠ ppmName)
    (m : Mode) (ram : ℕ → BitVec 8) :
    V.content (V.storeRgb m ram s).card.card name = some file := by
  refine writeRgb_keeps (P := fun r : Session (PpmFile V) =>
    V.content r.card.card name = some file) ?_ ?_ ?_
  · refine ((V.create_touches ppmName _).others name hne).trans ?_
    exact (congrFun (V.mount_keeps s.card) name).trans hfile
  · intro bytes r hr
    change V.content (V.fWrite r.card.fil bytes r.card.card).2.2 name = some file
    rw [PpmFile.fil]
    split_ifs
    · rw [(V.write_touches ppmName bytes _).others name hne, hr]
    · rw [(V.write_invalid bytes _).2, hr]
  · intro r hr
    change V.content (V.fClose r.card.fil r.card.card).2 name = some file
    rw [PpmFile.fil]
    split_ifs
    · rw [(V.close_touches ppmName _).others name hne, hr]
    · rw [(V.close_invalid _).2, hr]

theorem save_untouched (hfile : V.content s.card name = some file) {x : Save}
    (hx : x.isJpeg = true ∨ name ≠ ppmName) : V.content (V.save s x).card name = some file := by
  cases x with
  | jpeg data => exact turn_untouched V.toStoringVolume data s hfile
  | ppm m ram => exact storeRgb_untouched hfile (hx.resolve_left nofun) m ram

theorem saves_untouched (hfile : V.content s.card name = some file) {xs : List Save}
    (hxs : ∀ x ∈ xs, x.isJpeg = true ∨ name ≠ ppmName) :
    V.content (V.saves s xs).card name = some file := by
  induction xs generalizing s with
  | nil => exact hfile
  | cons x xs ih =>
    exact ih (save_untouched hfile (hxs x List.mem_cons_self)) fun y hy =>
      hxs y (List.mem_cons_of_mem x hy)

theorem saves_append_cons (before after : List Save) (x : Save) :
    V.saves s (before ++ x :: after) = V.saves (V.save (V.saves s before) x) after := by
  rw [saves, List.foldl_append, List.foldl_cons]
  rfl

end Card

theorem filename_ne_ppmName (index : ℕ) : filename index ≠ ppmName := by
  intro h
  have hlen := congrArg List.length h
  have hdigits : 6 ≤ (DecimalText.padded 6 index).length := by
    rw [DecimalText.padded, DecimalText.length_decimal]
    exact Nat.le_max_left _ _
  simp only [filename, chsnprintf, imageName, ppmName, List.length_take, List.length_append,
    List.length_cons, List.length_nil] at hlen
  omega

/-- In every session of the two commands, with any failures of other calls: a JPEG picture that was
reported written and closed is still there at the end, and so are the lower bytes of the frame of
the last `write_rgb`, if all its calls succeeded. -/
theorem saves_keep_pictures (V : Card φ) (s : Store φ) (before after : List Save) :
    (∀ data, (callOf V.toVolume data (V.mounted (V.saves s before))).reported = true →
      closeResult V.toVolume data (V.mounted (V.saves s before)) = some .ok →
      V.content (V.saves s (before ++ .jpeg data :: after)).card
        (filename (callOf V.toVolume data (V.mounted (V.saves s before))).written) = some data) ∧
    ∀ m ram, (V.storeRgb m ram (V.saves s before)).AllOk → (∀ x ∈ after, x.isJpeg = true) →
      ∃ file, V.content (V.saves s (before ++ .ppm m ram :: after)).card ppmName = some file ∧
        parsePpm file = some ⟨m.maxx, m.maxy, 255,
          (List.range m.numPixels).map fun i => pixelOf (ram (2 * i)).toNat⟩ := by
  constructor
  · intro data hreported hclosed
    rw [Card.saves_append_cons]
    refine Card.saves_untouched ?_ fun x _ => .inr (filename_ne_ppmName _)
    exact writeJpeg_stores V.toStoringVolume data _ hreported hclosed
  · intro m ram hok hafter
    have hparse : parsePpm ((V.content (V.storeRgb m ram (V.saves s before)).card.card
        ppmName).getD []) = _ := parse_writeRgb hok
    rw [Card.saves_append_cons]
    cases hfile : V.content (V.storeRgb m ram (V.saves s before)).card.card ppmName with
    | none =>
      rw [hfile] at hparse
      cases hparse
    | some file =>
      rw [hfile] at hparse
      exact ⟨file, Card.saves_untouched hfile fun x hx => .inl (hafter x hx), hparse⟩

theorem replace_touches (name : Name) (s : Name → Option (List (BitVec 8))) :
    TouchesOnly name s (Function.update s name (some [])) :=
  ⟨fun _ hother => Function.update_of_ne hother _ _, fun _ => by simp⟩

def roomyBoth : Card (Name → Option (List (BitVec 8))) where
  toStoringVolume := { roomyCard with
    fClose := fun file s => if file = none then (.invalidObject, s) else (.ok, s)
    close_touches := fun _ _ => ⟨fun _ _ => rfl, id⟩
    close_keeps := fun _ _ _ => rfl }
  fCreate name s := (.ok, Function.update s name (some []))
  create_ok _ _ _ := rfl
  create_touches := replace_touches
  close_invalid _ := ⟨nofun, rfl⟩

theorem storeRgb_roomyBoth (m : Mode) (ram : ℕ → BitVec 8)
    (s : Store (Name → Option (List (BitVec 8)))) : (roomyBoth.storeRgb m ram s).AllOk := by
  have hadd {r : Session (PpmFile roomyBoth)} (hok : r.AllOk) {b : Bool} (hb : b = true) :
      ∀ ok ∈ r.outcomes ++ [b], ok = true := by
    intro ok hin
    rcases List.mem_append.mp hin with hin | hin
    · exact hok ok hin
    · rw [List.mem_singleton.mp hin, hb]
  refine (writeRgb_keeps (P := fun r : Session (PpmFile roomyBoth) =>
    r.AllOk ∧ r.card.isOpen = true) ?_ ?_ ?_).1
  · exact ⟨by simp [Session.AllOk, Card.ppm, PpmFile.create, roomyBoth, code], rfl⟩
  · rintro bytes r ⟨hok, hopen⟩
    refine ⟨hadd hok ?_, hopen⟩
    simp [Card.ppm, PpmFile.write, PpmFile.fil, hopen, roomyBoth, roomyCard, appendTo, code]
  · rintro r ⟨hok, hopen⟩
    refine ⟨hadd hok ?_, hopen⟩
    simp [Card.ppm, PpmFile.close, PpmFile.fil, hopen, roomyBoth, code]

/-- A frame between two JPEG pictures on an empty card. -/
theorem saves_keep_pictures_three :
    let s : Store (Name → Option (List (BitVec 8))) := ⟨fun _ => none, 0⟩
    let done := roomyBoth.content (roomyBoth.saves s
      [.jpeg [0xFF#8], .ppm .mode320x240 rampFrame, .jpeg [0xD8#8]]).card
    done (filename 0) = some [0xFF#8] ∧ ∃ file, done ppmName = some file ∧
      parsePpm file = some ⟨Mode.mode320x240.maxx, Mode.mode320x240.maxy, 255,
        (List.range Mode.mode320x240.numPixels).map fun i =>
          pixelOf (rampFrame (2 * i)).toNat⟩ := by
  intro s
  have hcall : (callOf roomyBoth.toVolume [0xFF#8] (roomyBoth.mounted s)).reported = true ∧
      (callOf roomyBoth.toVolume [0xFF#8] (roomyBoth.mounted s)).written = 0 ∧
      closeResult roomyBoth.toVolume [0xFF#8] (roomyBoth.mounted s) = some .ok := by
    simp [callOf, Call.written, writeJpeg, closeResult, openUnused, roomyBoth, roomyCard,
      roomyVolume, appendTo, Card.mounted, s]
  obtain ⟨hreported, hwritten, hclosed⟩ := hcall
  have hstart : roomyBoth.saves s [] = s := rfl
  have hjpeg := (saves_keep_pictures roomyBoth s []
    [.ppm .mode320x240 rampFrame, .jpeg [0xD8#8]]).1 _ hreported hclosed
  have hppm := (saves_keep_pictures roomyBoth s [.jpeg [0xFF#8]] [.jpeg [0xD8#8]]).2 .mode320x240
    rampFrame (storeRgb_roomyBoth _ _ _) (by simp [Save.isJpeg])
  rw [hstart, hwritten, List.nil_append] at hjpeg
  rw [List.singleton_append] at hppm
  exact ⟨hjpeg, hppm⟩

end WaferSat.Commands
