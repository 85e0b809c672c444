import WaferSat.Foundation.DecimalText
import Mathlib.Order.Bounds.Basic
import Mathlib.Tactic.Common

/-!
`write_jpeg`, which stores the image buffer under the first unused index. The index is carried
from call to call: the search moves it over the names that exist, a written file moves it one
further, and a failed write leaves it where it is. So no stored image is overwritten.
-/
namespace WaferSat.Image
open DecimalText

abbrev Name := List (BitVec 8)

/-- `FRESULT` -/
inductive FResult where
  | ok | diskErr | intErr | notReady | noFile | noPath | invalidName | denied | exist
  | invalidObject | writeProtected | invalidDrive | notEnabled | noFilesystem | mkfsAborted
  | timeout | locked | notEnoughCore | tooManyOpenFiles | invalidParameter
  deriving DecidableEq

/-- The file called `name` may have changed but is still there, and no other has changed. -/
structure TouchesOnly (name : Name) (before after : Name → Option (List (BitVec 8))) : Prop where
  others : ∀ other, other ≠ name → after other = before other
  stays : before name ≠ none → after name ≠ none

/-- The calls of FatFs on a volume of named files. The file object of `f_write` and `f_close` is
the name it is open on, `none` when it is not valid. -/
structure Volume (φ : Type*) where
  content : φ → Name → Option (List (BitVec 8))
  fOpen : Name → φ → FResult × φ
  fWrite : Option Name → List (BitVec 8) → φ → FResult × ℕ × φ
  fClose : Option Name → φ → FResult × φ
  open_exist : ∀ name s, (fOpen name s).1 = .exist ↔ content s name ≠ none
  open_creates : ∀ name s, (fOpen name s).1 = .ok →
    content (fOpen name s).2 = Function.update (content s) name (some [])
  open_fails : ∀ name s, (fOpen name s).1 ≠ .ok → content (fOpen name s).2 = content s
  write_invalid : ∀ data s,
    (fWrite none data s).1 ≠ .ok ∧ content (fWrite none data s).2.2 = content s
  write_touches : ∀ name data s,
    TouchesOnly name (content s) (content (fWrite (some name) data s).2.2)
  close_touches : ∀ name s, TouchesOnly name (content s) (content (fClose (some name) s).2)

def roomyVolume : Volume (Name → Option (List (BitVec 8))) where
  content := id
  fOpen name s := if s name = none then (.ok, Function.update s name (some [])) else (.exist, s)
  fWrite
    | none, _, s => (.invalidObject, 0, s)
    | some name, data, s => (.ok, data.length, Function.update s name (some data))
  fClose _ s := (.ok, s)
  open_exist name s := by
    by_cases h : s name = none <;> simp [h]
  open_creates name s := by
    by_cases h : s name = none <;> simp [h]
  open_fails name s := by
    by_cases h : s name = none <;> simp [h]
  write_invalid _ _ := by simp
  write_touches name data s :=
    ⟨fun _ hother => Function.update_of_ne hother _ _, fun _ => by simp⟩
  close_touches _ _ := ⟨fun _ _ => rfl, id⟩

def imageName (index : ℕ) : Name :=
  [105#8, 109#8, 97#8, 103#8, 101#8] ++ padded 6 index ++ [46#8, 106#8, 112#8, 103#8]

/-- `chsnprintf` keeps the last byte of the buffer for the terminator. -/
def chsnprintf (size : ℕ) (text : List (BitVec 8)) : List (BitVec 8) := text.take (size - 1)

/-- The contents of `char filename[20]`. -/
def filename (index : ℕ) : Name := chsnprintf 20 (imageName index)

/-- The card and `image_index`, an `int` whose overflow is not modelled. -/
structure Store (φ : Type*) where
  card : φ
  imageIndex : ℕ

variable {φ : Type*} {V : Volume φ} {s : Store φ} {images : List (List (BitVec 8))}

/-- `while(fr == FR_EXIST && image_index < 1000000)`. -/
def searchUnused (V : Volume φ) (fr : FResult) (index : ℕ) (card : φ) : FResult × ℕ × φ :=
  if fr = .exist ∧ index < 1000000 then
    let r := V.fOpen (filename (index + 1)) card
    searchUnused V r.1 (index + 1) r.2
  else (fr, index, card)
termination_by 1000000 - index

/-- `f_open` with `FA_WRITE | FA_CREATE_NEW` and the search after it. -/
def openUnused (V : Volume φ) (s : Store φ) : FResult × ℕ × φ :=
  let r := V.fOpen (filename s.imageIndex) s.card
  if r.1 = .exist then searchUnused V r.1 s.imageIndex r.2 else (r.1, s.imageIndex, r.2)

/-- The result says whether the data is reported written. -/
def writeJpeg (V : Volume φ) (data : List (BitVec 8)) (s : Store φ) : Bool × Store φ :=
  let (fr, index, card) := openUnused V s
  let fil := if fr = .ok then some (filename index) else none
  let (fr, bw, card) := V.fWrite fil data card
  if fr ≠ .ok ∨ bw < data.length then (false, ⟨card, index⟩)
  else (true, ⟨(V.fClose fil card).2, index + 1⟩)

theorem imageName_fits {index : ℕ} (h : index < 2 ^ 31) : (imageName index).length + 1 ≤ 20 := by
  have hdigits : (padded 6 index).length ≤ 10 :=
    length_padded_le (by decide) (by decide) (h.trans (by decide))
  simp only [imageName, List.length_append, List.length_cons, List.length_nil]
  omega

theorem filename_eq {index : ℕ} (h : index < 2 ^ 31) : filename index = imageName index :=
  List.take_of_length_le (Nat.le_sub_one_of_lt (imageName_fits h))

theorem imageName_injective : Function.Injective imageName := by
  intro i j h
  simp only [imageName, List.append_cancel_right_eq, List.append_cancel_left_eq] at h
  exact padded_injective 6 h

theorem filename_ne {i j : ℕ} (hi : i < 2 ^ 31) (hj : j < 2 ^ 31) (h : i ≠ j) :
    filename i ≠ filename j := by
  rw [filename_eq hi, filename_eq hj]
  exact imageName_injective.ne h

/-- Where the search is after an `f_open`: every name before the current one exists, and the card
is as before the call but for the file that a successful `f_open` has created. -/
structure Opened (V : Volume φ) (s : Store φ) (fr : FResult) (index : ℕ) (card : φ) : Prop where
  start_le : s.imageIndex ≤ index
  taken : ∀ j, s.imageIndex ≤ j → j < index → V.content s.card (filename j) ≠ none
  exists_of : fr = .exist → V.content s.card (filename index) ≠ none
  creates : fr = .ok → V.content s.card (filename index) = none ∧
    V.content card = Function.update (V.content s.card) (filename index) (some [])
  fails : fr ≠ .ok → V.content card = V.content s.card

theorem opened_fOpen {index : ℕ} {card : φ} (hcard : V.content card = V.content s.card)
    (hstart : s.imageIndex ≤ index)
    (htaken : ∀ j, s.imageIndex ≤ j → j < index → V.content s.card (filename j) ≠ none) :
    Opened V s (V.fOpen (filename index) card).1 index (V.fOpen (filename index) card).2 := by
  have hexist := V.open_exist (filename index) card
  rw [hcard] at hexist
  refine ⟨hstart, htaken, hexist.mp, ?_, ?_⟩
  · intro hok
    refine ⟨?_, hcard ▸ V.open_creates _ _ hok⟩
    by_contra hthere
    rw [hexist.mpr hthere] at hok
    cases hok
  · intro hfail
    rw [V.open_fails _ _ hfail, hcard]

theorem opened_searchUnused {fr : FResult} {index : ℕ} {card : φ} (h : Opened V s fr index card) :
    Opened V s (searchUnused V fr index card).1 (searchUnused V fr index card).2.1
      (searchUnused V fr index card).2.2 := by
  fun_induction searchUnused V fr index card with
  | case1 fr index card hguard r ih =>
    obtain ⟨rfl, -⟩ := hguard
    refine ih (opened_fOpen (h.fails (by simp)) (Nat.le_succ_of_le h.start_le) ?_)
    intro j hstart hj
    rcases Nat.lt_succ_iff_lt_or_eq.mp hj with hlt | rfl
    · exact h.taken j hstart hlt
    · exact h.exists_of rfl
  | case2 fr index card hguard => exact h

theorem opened_openUnused (V : Volume φ) (s : Store φ) :
    Opened V s (openUnused V s).1 (openUnused V s).2.1 (openUnused V s).2.2 := by
  have hfirst := opened_fOpen (V := V) (s := s) rfl le_rfl fun j hstart hj =>
    absurd hstart (not_le.mpr hj)
  unfold openUnused
  by_cases hexist : (V.fOpen (filename s.imageIndex) s.card).1 = .exist
  · simpa only [hexist, if_true] using opened_searchUnused hfirst
  · simpa only [hexist, if_false] using hfirst

structure Call (φ : Type*) where
  before : Store φ
  reported : Bool
  after : Store φ

/-- The index of the file of a call that reports its data written. -/
def Call.written (c : Call φ) : ℕ := c.after.imageIndex - 1

/-- What one call does to the files and to `image_index`. -/
structure Call.KeepsFiles (V : Volume φ) (c : Call φ) : Prop where
  index_le : c.before.imageIndex ≤ c.after.imageIndex
  untouched : ∀ name, V.content c.before.card name ≠ none →
    V.content c.after.card name = V.content c.before.card name
  least : c.reported = true →
    IsLeast {i | c.before.imageIndex ≤ i ∧ V.content c.before.card (filename i) = none} c.written
  created : c.reported = true → V.content c.after.card (filename c.written) ≠ none
  index_eq : c.reported = true → c.after.imageIndex = c.written + 1

def callOf (V : Volume φ) (data : List (BitVec 8)) (s : Store φ) : Call φ :=
  ⟨s, (writeJpeg V data s).1, (writeJpeg V data s).2⟩

def calls (V : Volume φ) : Store φ → List (List (BitVec 8)) → List (Call φ)
  | _, [] => []
  | s, data :: rest => callOf V data s :: calls V (writeJpeg V data s).2 rest

theorem TouchesOnly.trans {name : Name} {f g h : Name → Option (List (BitVec 8))}
    (hfg : TouchesOnly name f g) (hgh : TouchesOnly name g h) : TouchesOnly name f h where
  others other hother := (hgh.others other hother).trans (hfg.others other hother)
  stays hthere := hgh.stays (hfg.stays hthere)

theorem Opened.untouched {fr : FResult} {index : ℕ} {card card' : φ}
    (h : Opened V s fr index card) (hok : fr = .ok)
    (htouch : TouchesOnly (filename index) (V.content card) (V.content card')) {name : Name}
    (hthere : V.content s.card name ≠ none) : V.content card' name = V.content s.card name := by
  obtain ⟨habsent, hcreated⟩ := h.creates hok
  have hne : name ≠ filename index := by
    rintro rfl
    exact hthere habsent
  rw [htouch.others name hne, hcreated, Function.update_of_ne hne]

theorem keepsFiles_callOf (V : Volume φ) (data : List (BitVec 8)) (s : Store φ) :
    (callOf V data s).KeepsFiles V := by
  have hopen := opened_openUnused V s
  unfold callOf writeJpeg
  generalize openUnused V s = r at hopen ⊢
  obtain ⟨fr, index, card⟩ := r
  simp only at hopen ⊢
  by_cases hok : fr = .ok
  · have hwrite := V.write_touches (filename index) data card
    simp only [hok, if_true]
    split
    · refine ⟨hopen.start_le, fun name hthere => ?_, by simp, by simp, by simp⟩
      exact hopen.untouched hok hwrite hthere
    · have htouch := hwrite.trans (V.close_touches (filename index) _)
      obtain ⟨habsent, hcreated⟩ := hopen.creates hok
      refine ⟨Nat.le_succ_of_le hopen.start_le, fun name hthere => ?_, fun _ => ?_, fun _ => ?_,
        fun _ => rfl⟩
      · exact hopen.untouched hok htouch hthere
      · refine ⟨⟨hopen.start_le, habsent⟩, fun j hj => ?_⟩
        by_contra hlt
        exact hopen.taken j hj.1 (not_le.mp hlt) hj.2
      · exact htouch.stays (by simp [hcreated])
  · obtain ⟨hfail, hcard⟩ := V.write_invalid data card
    simp only [hok, if_false, hfail, ne_eq, not_false_eq_true, true_or, if_true]
    refine ⟨hopen.start_le, fun name _ => ?_, by simp, by simp, by simp⟩
    rw [hcard, hopen.fails hok]

theorem keepsFiles_of_mem {c : Call φ} (hc : c ∈ calls V s images) : c.KeepsFiles V := by
  induction images generalizing s with
  | nil => simp [calls] at hc
  | cons data rest ih =>
    rw [calls, List.mem_cons] at hc
    rcases hc with rfl | hc
    · exact keepsFiles_callOf V data s
    · exact ih hc

theorem imageIndex_le_before {c : Call φ} (hc : c ∈ calls V s images) :
    s.imageIndex ≤ c.before.imageIndex := by
  induction images generalizing s with
  | nil => simp [calls] at hc
  | cons data rest ih =>
    rw [calls, List.mem_cons] at hc
    rcases hc with rfl | hc
    · exact le_rfl
    · exact (keepsFiles_callOf V data s).index_le.trans (ih hc)

theorem written_pairwise_lt (V : Volume φ) (s : Store φ) (images : List (List (BitVec 8))) :
    ((calls V s images).filter (·.reported)).Pairwise fun c d => c.written < d.written := by
  induction images generalizing s with
  | nil => simp [calls]
  | cons data rest ih =>
    rw [calls, List.filter_cons]
    split
    case isFalse => exact ih _
    case isTrue hreported =>
      refine List.pairwise_cons.mpr ⟨fun d hd => ?_, ih _⟩
      obtain ⟨hd, hdreported⟩ := List.mem_filter.mp hd
      calc (callOf V data s).written
          < (callOf V data s).after.imageIndex := by
            rw [(keepsFiles_callOf V data s).index_eq hreported]
            exact Nat.lt_succ_self _
        _ ≤ d.before.imageIndex := imageIndex_le_before hd
        _ ≤ d.written := ((keepsFiles_of_mem hd).least hdreported).1.1

/-- Stored images are never overwritten, in any run in which `image_index` does not overflow. -/
theorem images_never_overwritten (V : Volume φ) (s : Store φ) (images : List (List (BitVec 8)))
    (hbound : ∀ c ∈ calls V s images, c.after.imageIndex < 2 ^ 31) :
    (∀ c ∈ calls V s images, c.KeepsFiles V) ∧
    (∀ c ∈ calls V s images, ∀ i ≤ c.after.imageIndex,
      (imageName i).length + 1 ≤ 20 ∧ filename i = imageName i) ∧
    ((calls V s images).filter (·.reported)).Pairwise fun c d =>
      c.written < d.written ∧ filename c.written ≠ filename d.written := by
  refine ⟨fun c hc => keepsFiles_of_mem hc, fun c hc i hi => ?_, ?_⟩
  · have hi : i < 2 ^ 31 := hi.trans_lt (hbound c hc)
    exact ⟨imageName_fits hi, filename_eq hi⟩
  · have hwritten : ∀ c ∈ (calls V s images).filter (·.reported), c.written < 2 ^ 31 := fun c hc =>
      (Nat.sub_le _ _).trans_lt (hbound c (List.mem_filter.mp hc).1)
    refine (written_pairwise_lt V s images).imp_of_mem fun hc hd hlt => ?_
    exact ⟨hlt, filename_ne (hwritten _ hc) (hwritten _ hd) hlt.ne⟩

def usedCard : Name → Option (List (BitVec 8)) := fun name =>
  if name = filename 0 then some [1#8] else none

theorem usedCard_zero : usedCard (filename 0) = some [1#8] := if_pos rfl

theorem usedCard_one : usedCard (filename 1) = none :=
  if_neg (filename_ne (by decide) (by decide) (by decide))

def usedCardCall : Call (Name → Option (List (BitVec 8))) where
  before := ⟨usedCard, 0⟩
  reported := true
  after := ⟨Function.update (Function.update usedCard (filename 1) (some []))
    (filename 1) (some [2#8]), 2⟩

theorem calls_usedCard : calls roomyVolume ⟨usedCard, 0⟩ [[2#8]] = [usedCardCall] := by
  simp [calls, callOf, writeJpeg, openUnused, searchUnused, roomyVolume, usedCard_zero,
    usedCard_one, usedCardCall]

theorem usedCard_never_overwritten :
    calls roomyVolume ⟨usedCard, 0⟩ [[2#8]] = [usedCardCall] ∧ usedCardCall.written = 1 ∧
      usedCardCall.KeepsFiles roomyVolume := by
  have hkept := images_never_overwritten roomyVolume ⟨usedCard, 0⟩ [[2#8]]
  rw [calls_usedCard] at hkept ⊢
  exact ⟨rfl, rfl, (hkept (by simp [usedCardCall])).1 usedCardCall (List.mem_singleton_self _)⟩

end WaferSat.Image
