import WaferSat.Image.WriteRgb

/-!
`write_rgb` when calls of FatFs fail. A failed write may leave a part of its data in the file, the
rest of the row is skipped and the next row goes on behind it. Too few samples are left then for
the size in the header, so a file that a reader accepts shows the frame, but for the digits of the
very last sample, which the end of the file can cut off.
-/
namespace WaferSat.Image
open DecimalText Camera

/-- A card on which every write adds some beginning of its data to the file, whatever it reports,
and on which a close can lose the end of the file. -/
structure AppendingFatFs (φ : Type*) extends FatFs φ where
  write_take : ∀ bytes s, ∃ k, image (fWrite bytes s).2.2 = image s ++ bytes.take k
  close_take : ∀ s, ∃ k, image (fClose s).2 = (image s).take k

/-- The beginnings of some texts, one after the other. -/
def cutText (text : ℕ → List (BitVec 8)) (cuts : List (ℕ × ℕ)) : List (BitVec 8) :=
  cuts.flatMap fun c => (text c.1).take c.2

variable {φ : Type*} {F : AppendingFatFs φ} {m : Mode} {ram : ℕ → BitVec 8}
  {text : ℕ → List (BitVec 8)}

theorem cutText_cons (c : ℕ × ℕ) (cuts : List (ℕ × ℕ)) :
    cutText text (c :: cuts) = (text c.1).take c.2 ++ cutText text cuts := rfl

theorem cutText_append (cs ds : List (ℕ × ℕ)) :
    cutText text (cs ++ ds) = cutText text cs ++ cutText text ds :=
  List.flatMap_append

theorem write_take (bytes : List (BitVec 8)) (s : Session φ) :
    ∃ k, F.image (s.write F.toFatFs bytes).1.card = F.image s.card ++ bytes.take k :=
  F.write_take bytes s.card

theorem writeRow_cuts (text : ℕ → List (BitVec 8)) (place : ℕ → ℕ) (xs : List ℕ)
    (s : Session φ) :
    ∃ cuts, (cuts.map Prod.fst).Sublist (xs.map place) ∧
      F.image (writeRow F.toFatFs (fun x => text (place x)) xs s).card =
        F.image s.card ++ cutText text cuts := by
  induction xs generalizing s with
  | nil => exact ⟨[], List.Sublist.slnil, (List.append_nil _).symm⟩
  | cons x xs ih =>
    obtain ⟨k, hk⟩ := write_take (F := F) (text (place x)) s
    rw [writeRow]
    split_ifs
    · refine ⟨[(place x, k)], List.singleton_sublist.mpr List.mem_cons_self, ?_⟩
      rw [hk, cutText, List.flatMap_singleton]
    · obtain ⟨cuts, hsub, himage⟩ := ih (s.write F.toFatFs (text (place x))).1
      refine ⟨(place x, k) :: cuts, hsub.cons_cons _, ?_⟩
      rw [himage, hk, List.append_assoc]
      rfl

theorem writeRows_cuts (text : ℕ → List (BitVec 8)) (place : ℕ → ℕ → ℕ) (xs ys : List ℕ)
    (s : Session φ) :
    ∃ cuts, (cuts.map Prod.fst).Sublist (ys.flatMap fun y => xs.map (place y)) ∧
      F.image (ys.foldl (fun s y => writeRow F.toFatFs (fun x => text (place y x)) xs s) s).card =
        F.image s.card ++ cutText text cuts := by
  induction ys generalizing s with
  | nil => exact ⟨[], List.Sublist.slnil, (List.append_nil _).symm⟩
  | cons y ys ih =>
    obtain ⟨cs, hcs, hrow⟩ := writeRow_cuts (F := F) text (place y) xs s
    obtain ⟨ds, hds, hrows⟩ :=
      ih (writeRow F.toFatFs (fun x => text (place y x)) xs s)
    refine ⟨cs ++ ds, ?_, ?_⟩
    · rw [List.map_append, List.flatMap_cons]
      exact hcs.append hds
    · rw [List.foldl_cons, hrows, hrow, cutText_append, List.append_assoc]

theorem take_cutText (text : ℕ → List (BitVec 8)) (n : ℕ) (cuts : List (ℕ × ℕ)) :
    ∃ cuts', cuts'.map Prod.fst = cuts.map Prod.fst ∧
      (cutText text cuts).take n = cutText text cuts' := by
  induction cuts generalizing n with
  | nil => exact ⟨[], rfl, List.take_nil⟩
  | cons c cuts ih =>
    obtain ⟨cuts', hfst, htake⟩ := ih (n - ((text c.1).take c.2).length)
    refine ⟨(c.1, min n c.2) :: cuts', by rw [List.map_cons, List.map_cons, hfst], ?_⟩
    rw [cutText_cons, cutText_cons, List.take_append, List.take_take, htake]

theorem write_image {bytes : List (BitVec 8)} {s : Session φ}
    (h : ¬(s.write F.toFatFs bytes).2 = false) :
    F.image (s.write F.toFatFs bytes).1.card = F.image s.card ++ bytes := by
  rw [Bool.not_eq_false] at h
  simp only [Session.write, decide_eq_true_eq, not_or, not_not, not_lt] at h
  exact F.write_ok bytes s.card h.1 h.2

theorem range_rows (w h : ℕ) :
    ((List.range h).flatMap fun y => (List.range w).map fun x => y * w + x) =
      List.range (w * h) := by
  have hrows := flatMap_rows (fun i => [i]) w h
  rw [List.flatMap_singleton'] at hrows
  simpa only [List.map_eq_flatMap] using hrows

/-- After any sequence of failures the file is a part of the header, or the header followed by a
part of the text of some of the pixels. -/
theorem writeRgb_cuts (m : Mode) (ram : ℕ → BitVec 8) {card : φ} (hopen : (F.fOpen card).1 = 0) :
    (∃ n, F.image (writeRgb F.toFatFs m ram card).card = (header m).take n) ∨
    ∃ cuts, (cuts.map Prod.fst).Sublist (List.range m.numPixels) ∧
      F.image (writeRgb F.toFatFs m ram card).card =
        header m ++ cutText (fun i => fbuff (color ram i)) cuts := by
  have hempty := F.open_ok card hopen
  unfold writeRgb
  dsimp only
  split_ifs with hfail
  · obtain ⟨n, hn⟩ := write_take (F := F) (header m) ⟨(F.fOpen card).2, _⟩
    rw [hempty, List.nil_append] at hn
    exact .inl ⟨n, hn⟩
  · obtain ⟨cuts, hsub, hrows⟩ := writeRows_cuts (F := F) (fun i => fbuff (color ram i))
      (fun y x => y * m.maxx + x) (List.range m.maxx) (List.range m.maxy)
      (Session.write F.toFatFs (header m) ⟨(F.fOpen card).2, _⟩).1
    rw [write_image hfail, hempty, List.nil_append] at hrows
    rw [range_rows] at hsub
    generalize List.foldl _ _ _ = s at hrows ⊢
    obtain ⟨n, hn⟩ := F.close_take s.card
    rw [hn, hrows, List.take_append]
    rcases Nat.lt_or_ge n (header m).length with hlt | hge
    · refine .inl ⟨n, ?_⟩
      rw [Nat.sub_eq_zero_of_le hlt.le, List.take_zero, List.append_nil]
    · obtain ⟨cuts', hfst, htake⟩ :=
        take_cutText (fun i => fbuff (color ram i)) (n - (header m).length) cuts
      refine .inr ⟨cuts', hfst ▸ hsub, ?_⟩
      rw [List.take_of_length_le hge, htake]

theorem take_field_short {d rest : List (BitVec 8)} {c : BitVec 8} {k : ℕ} (hd : d.length = 3)
    (hk : k ≤ 3) : (d ++ c :: rest).take k = d.take k :=
  List.take_append_of_le_length (hd.symm ▸ hk)

theorem take_field_long {d rest : List (BitVec 8)} {c : BitVec 8} {k : ℕ} (hd : d.length = 3)
    (hk : 4 ≤ k) : (d ++ c :: rest).take k = d ++ c :: rest.take (k - 4) := by
  have hsub : k - 3 = (k - 4) + 1 := by omega
  rw [List.take_append, List.take_of_length_le (by omega), hd, hsub, List.take_succ_cons]

theorem isSpace_take {d : List (BitVec 8)} (hd : ∀ x ∈ d, isSpace x = false) (k : ℕ) :
    ∀ x ∈ d.take k, isSpace x = false :=
  fun x hx => hd x (List.mem_of_mem_take hx)

theorem tokens_cut_long (p : ℕ × ℕ × ℕ) {k : ℕ} (hk : 12 ≤ k) (rest : List (BitVec 8)) :
    tokens ((pixelText p).take k ++ rest) = (samplesOf p).map (decimal 3) ++ tokens rest := by
  have hd (n : ℕ) := length_decimal 3 n
  rw [pixelText, take_field_long (hd _) (by omega), take_field_long (hd _) (by omega),
    take_field_long (hd _) (by omega)]
  simp only [List.append_assoc, List.cons_append]
  rw [tokens_decimal 2 _ (by decide), tokens_decimal 2 _ (by decide),
    tokens_decimal 2 _ (by decide)]
  have hend : tokens ([10#8].take (k - 4 - 4 - 4) ++ rest) = tokens rest := by
    cases k - 4 - 4 - 4 with
    | zero => rfl
    | succ n =>
      rw [List.take_succ_cons, List.take_nil]
      exact tokens_space (by decide) rest
  rw [hend]
  rfl

def Solid (text : List (BitVec 8)) : Prop := ∀ c ∈ text.head?, isSpace c = false

/-- A pixel that is cut earlier adds less than three samples, unless the file ends in its third. -/
theorem tokens_cut_short (p : ℕ × ℕ × ℕ) {k : ℕ} (hk : k < 12) {rest : List (BitVec 8)}
    (hrest : Solid rest) :
    (tokens ((pixelText p).take k ++ rest)).length ≤ 2 + (tokens rest).length ∨
    rest = [] ∧ ∃ j ≤ 2, tokens ((pixelText p).take k ++ rest) =
      [decimal 3 p.1, decimal 3 p.2.1, decimal (2 - j + 1) (p.2.2 / 10 ^ j)] := by
  have hd (n : ℕ) := length_decimal 3 n
  have hword (n k : ℕ) := isSpace_take (isSpace_decimal 3 n) k
  rcases Nat.lt_or_ge k 4 with h4 | h4
  · left
    rw [pixelText, take_field_short (hd _) (by omega)]
    have hle := length_tokens_word_append_le (hword p.1 k) rest
    omega
  rcases Nat.lt_or_ge k 8 with h8 | h8
  · left
    rw [pixelText, take_field_long (hd _) h4, take_field_short (hd _) (by omega), List.append_assoc,
      List.cons_append, tokens_decimal 2 _ (by decide), List.length_cons]
    have hle := length_tokens_word_append_le (hword p.2.1 (k - 4)) rest
    omega
  have htake : (pixelText p).take k = decimal 3 p.1 ++ 32#8 :: (decimal 3 p.2.1 ++ 32#8 ::
      (decimal 3 p.2.2).take (k - 8)) := by
    rw [pixelText, take_field_long (hd _) h4, take_field_long (hd _) (by omega),
      take_field_short (hd _) (by omega), Nat.sub_sub]
  rw [htake]
  cases rest with
  | nil =>
    rcases Nat.eq_or_lt_of_le h8 with rfl | h9
    · left
      rw [List.append_nil, tokens_decimal 2 _ (by decide), tokens_decimal 2 _ (by decide)]
      rfl
    · refine .inr ⟨rfl, 11 - k, by omega, ?_⟩
      have hdigits : (decimal 3 p.2.2).take (k - 8) =
          decimal (2 - (11 - k) + 1) (p.2.2 / 10 ^ (11 - k)) := by
        rw [← take_decimal]
        congr 2 <;> omega
      rw [List.append_nil, tokens_decimal 2 _ (by decide), tokens_decimal 2 _ (by decide), hdigits,
        tokens_singleton (isSpace_decimal _ _) (decimal_ne_nil _ _)]
  | cons c rest =>
    left
    have hc : isSpace c = false := hrest c rfl
    have hjoined := length_tokens_joined (hword p.2.2 (k - 8)) hc rest
    simp only [List.append_assoc, List.cons_append]
    rw [tokens_decimal 2 _ (by decide), tokens_decimal 2 _ (by decide), List.length_cons,
      List.length_cons, hjoined]
    omega

theorem solid_cutText (px : ℕ → ℕ × ℕ × ℕ) (cuts : List (ℕ × ℕ)) :
    Solid (cutText (fun i => pixelText (px i)) cuts) := by
  induction cuts with
  | nil => nofun
  | cons c cuts ih =>
    cases hk : c.2 with
    | zero =>
      have hskip : cutText (fun i => pixelText (px i)) (c :: cuts) =
          cutText (fun i => pixelText (px i)) cuts := by
        rw [cutText_cons, hk, List.take_zero, List.nil_append]
      rw [hskip]
      exact ih
    | succ k =>
      intro x hx
      have hhead : (cutText (fun i => pixelText (px i)) (c :: cuts)).head? =
          some (digit ((px c.1).1 / 10 / 10)) := by
        rw [cutText_cons, hk]
        rfl
      rw [hhead] at hx
      obtain rfl := Option.some.inj hx
      exact isSpace_digit _

/-- The blue sample of the last pixel without its last `j` digits. -/
def cutLast (j : ℕ) : List (ℕ × ℕ × ℕ) → List (ℕ × ℕ × ℕ)
  | [] => []
  | [p] => [(p.1, p.2.1, p.2.2 / 10 ^ j)]
  | p :: q :: ps => p :: cutLast j (q :: ps)

theorem length_tokens_cutText_le (px : ℕ → ℕ × ℕ × ℕ) (cuts : List (ℕ × ℕ)) :
    (tokens (cutText (fun i => pixelText (px i)) cuts)).length ≤ 3 * cuts.length := by
  induction cuts with
  | nil => exact Nat.le_refl 0
  | cons c cuts ih =>
    rw [cutText_cons, List.length_cons]
    rcases Nat.lt_or_ge c.2 12 with hk | hk
    · rcases tokens_cut_short (px c.1) hk (solid_cutText px cuts) with hle | ⟨-, j, -, htokens⟩
      · omega
      · rw [htokens, List.length_cons, List.length_cons, List.length_singleton]
        omega
    · rw [tokens_cut_long _ hk, List.length_append, List.length_map]
      have hthree : (samplesOf (px c.1)).length = 3 := rfl
      omega

/-- As many samples as the pixels ask for are those of the pixels, the last without some of its
digits. -/
theorem samples_cutText {px : ℕ → ℕ × ℕ × ℕ}
    (hpx : ∀ i, (px i).1 ≤ 255 ∧ (px i).2.1 ≤ 255 ∧ (px i).2.2 ≤ 255) {cuts : List (ℕ × ℕ)}
    (hlen : (tokens (cutText (fun i => pixelText (px i)) cuts)).length = 3 * cuts.length) :
    ∃ j ≤ 2, (tokens (cutText (fun i => pixelText (px i)) cuts)).mapM parseDecimal =
      some ((cutLast j (cuts.map fun c => px c.1)).flatMap samplesOf) := by
  induction cuts with
  | nil => exact ⟨0, by omega, rfl⟩
  | cons c cuts ih =>
    obtain ⟨hr, hg, hb⟩ := hpx c.1
    have hrest := length_tokens_cutText_le px cuts
    rw [cutText_cons, List.length_cons] at hlen
    rcases Nat.lt_or_ge c.2 12 with hk | hk
    · rcases tokens_cut_short (px c.1) hk (solid_cutText px cuts) with hle | ⟨-, j, hj, htokens⟩
      · omega
      · rw [htokens, List.length_cons, List.length_cons, List.length_singleton] at hlen
        obtain rfl : cuts = [] := List.length_eq_zero_iff.mp (by omega)
        have hblue : (px c.1).2.2 / 10 ^ j < 10 ^ (2 - j + 1) := by
          interval_cases j <;> omega
        refine ⟨j, hj, ?_⟩
        rw [cutText_cons, htokens, List.mapM_cons, List.mapM_cons, List.mapM_cons,
          parseDecimal_decimal (by omega), parseDecimal_decimal (by omega),
          parseDecimal_decimal hblue]
        rfl
    · have hthree : (samplesOf (px c.1)).length = 3 := rfl
      have hvalues : ∀ v ∈ samplesOf (px c.1), v ≤ 255 := by
        simp only [samplesOf, List.mem_cons, List.not_mem_nil, or_false, forall_eq_or_imp,
          forall_eq]
        exact ⟨hr, hg, hb⟩
      rw [tokens_cut_long _ hk, List.length_append, List.length_map] at hlen
      obtain ⟨j, hj, hmap⟩ := ih (by omega)
      rw [cutText_cons, tokens_cut_long _ hk, List.mapM_append, mapM_parseDecimal hvalues, hmap]
      cases cuts with
      | nil =>
        refine ⟨0, by omega, ?_⟩
        simp [cutLast, samplesOf]
      | cons d cuts => exact ⟨j, hj, rfl⟩

theorem triples_eq_some {values : List ℕ} {ps : List (ℕ × ℕ × ℕ)} (h : triples values = some ps) :
    values = ps.flatMap samplesOf := by
  induction values using triples.induct generalizing ps with
  | case1 =>
    obtain rfl := Option.some.inj h
    rfl
  | case2 r g b rest ih =>
    obtain ⟨qs, hqs, rfl⟩ := Option.map_eq_some_iff.mp h
    rw [ih hqs]
    rfl
  | case3 values hnil hcons =>
    simp [triples] at h

theorem samples_injective {ps qs : List (ℕ × ℕ × ℕ)}
    (h : ps.flatMap samplesOf = qs.flatMap samplesOf) : ps = qs := by
  have htriples := triples_samples ps
  rw [h, triples_samples] at htriples
  exact (Option.some.inj htriples).symm

theorem length_samples (ps : List (ℕ × ℕ × ℕ)) : (ps.flatMap samplesOf).length = 3 * ps.length := by
  induction ps with
  | nil => rfl
  | cons p ps ih =>
    rw [List.flatMap_cons, List.length_append, ih, List.length_cons]
    have hthree : (samplesOf p).length = 3 := rfl
    omega

theorem length_mapM_parseDecimal {words : List (List (BitVec 8))} {values : List ℕ}
    (h : words.mapM parseDecimal = some values) : values.length = words.length := by
  induction words generalizing values with
  | nil =>
    obtain rfl := Option.some.inj h
    rfl
  | cons w words ih =>
    rw [List.mapM_cons] at h
    obtain ⟨v, -, hrest⟩ := Option.bind_eq_some_iff.mp h
    obtain ⟨vs, hvs, hout⟩ := Option.bind_eq_some_iff.mp hrest
    obtain rfl := Option.some.inj hout
    rw [List.length_cons, List.length_cons, ih hvs]

theorem parsePpm_header_eq_some {width height : ℕ} (hw : width < 10000) (hh : height < 10000)
    {rest : List (BitVec 8)} {ppm : Ppm}
    (h : parsePpm (headerText width height ++ rest) = some ppm) :
    ∃ pixels, ppm = ⟨width, height, 255, pixels⟩ ∧ pixels.length = width * height ∧
      (tokens rest).mapM parseDecimal = some (pixels.flatMap samplesOf) := by
  simp only [parsePpm, tokens_headerText] at h
  rw [parseDecimal_decimal hw, parseDecimal_decimal hh, parseDecimal_decimal (by decide)] at h
  simp only [guard, ↓reduceIte, Option.pure_def, Option.bind_eq_bind, Option.bind_some] at h
  obtain ⟨values, hvalues, h⟩ := Option.bind_eq_some_iff.mp h
  obtain ⟨pixels, hpixels, h⟩ := Option.bind_eq_some_iff.mp h
  by_cases hguard : pixels.length = width * height ∧ ∀ v ∈ values, v ≤ 255
  · rw [if_pos hguard] at h
    refine ⟨pixels, (Option.some.inj h).symm, hguard.1, ?_⟩
    rw [hvalues, triples_eq_some hpixels]
  · rw [if_neg hguard] at h
    cases h

theorem parsePpm_take_header (m : Mode) (n : ℕ) : parsePpm ((header m).take n) = none := by
  have hshort : ∀ n < 18, parsePpm ((header m).take n) = none := by
    cases m <;> decide +kernel
  rcases Nat.lt_or_ge n 18 with hlt | hge
  · exact hshort n hlt
  · have hwhole : (header m).take n = (header m).take 17 := by
      have hlen : (header m).length = 17 := rfl
      rw [List.take_of_length_le (by omega), List.take_of_length_le hlen.le]
    rw [hwhole]
    exact hshort 17 (by decide)

/-- Whatever the calls on the open file report, a file that a reader accepts has the size of the
mode and shows the lower bytes of the frame, in every sample but the very last, of which up to two
digits can be missing. -/
theorem writeRgb_accepted {card : φ} (hopen : (F.fOpen card).1 = 0) {ppm : Ppm}
    (h : parsePpm (F.image (writeRgb F.toFatFs m ram card).card) = some ppm) :
    ∃ j ≤ 2, ppm = ⟨m.maxx, m.maxy, 255,
      cutLast j ((List.range m.numPixels).map fun i => pixelOf (ram (2 * i)).toNat)⟩ := by
  obtain ⟨hx, hy⟩ := m.sides_lt
  rcases writeRgb_cuts m ram hopen with ⟨n, hn⟩ | ⟨cuts, hsub, hfile⟩
  · rw [hn, parsePpm_take_header] at h
    cases h
  · simp only [fbuff_eq, color_toNat] at hfile
    rw [hfile, header_eq] at h
    obtain ⟨pixels, rfl, hcount, hmap⟩ := parsePpm_header_eq_some hx hy h
    have hpx : ∀ i, (pixelOf (ram (2 * i)).toNat).1 ≤ 255 ∧
        (pixelOf (ram (2 * i)).toNat).2.1 ≤ 255 ∧ (pixelOf (ram (2 * i)).toNat).2.2 ≤ 255 :=
      fun i => pixelOf_le (by have := (ram (2 * i)).isLt; omega)
    have hsamples := length_mapM_parseDecimal hmap
    have hle := length_tokens_cutText_le (fun i => pixelOf (ram (2 * i)).toNat) cuts
    have hsubLe := hsub.length_le
    rw [length_samples, hcount] at hsamples
    rw [List.length_map, List.length_range] at hsubLe
    have hall : cuts.length = m.numPixels := by
      rw [Mode.numPixels] at hsubLe ⊢
      omega
    have hrange : cuts.map Prod.fst = List.range m.numPixels :=
      hsub.eq_of_length (by rw [List.length_map, List.length_range, hall])
    have henough :
        (tokens (cutText (fun i => pixelText (pixelOf (ram (2 * i)).toNat)) cuts)).length =
          3 * cuts.length := by
      rw [← hsamples, hall, Mode.numPixels]
    obtain ⟨j, hj, hvalues⟩ := samples_cutText hpx henough
    have hpixels : (cuts.map fun c => pixelOf (ram (2 * c.1)).toNat) =
        (List.range m.numPixels).map fun i => pixelOf (ram (2 * i)).toNat := by
      rw [← hrange, List.map_map]
      rfl
    refine ⟨j, hj, ?_⟩
    rw [hmap, hpixels] at hvalues
    rw [samples_injective (Option.some.inj hvalues)]

def goodAppending : AppendingFatFs (List (BitVec 8)) where
  toFatFs := goodCard
  write_take bytes _ := ⟨bytes.length, by rw [List.take_length]; rfl⟩
  close_take s := ⟨s.length, List.take_length.symm⟩

theorem writeRgb_accepted_ramp : ∃ ppm,
    parsePpm (goodCard.image (writeRgb goodCard .mode320x240 rampFrame []).card) = some ppm ∧
    ∃ j ≤ 2, ppm = ⟨Mode.mode320x240.maxx, Mode.mode320x240.maxy, 255,
      cutLast j ((List.range Mode.mode320x240.numPixels).map fun i =>
        pixelOf (rampFrame (2 * i)).toNat)⟩ := by
  have hparse := parse_writeRgb (writeRgb_goodCard .mode320x240 rampFrame [])
  obtain ⟨j, hj, hppm⟩ := writeRgb_accepted (F := goodAppending) rfl hparse
  exact ⟨_, hparse, j, hj, hppm⟩

end WaferSat.Image
