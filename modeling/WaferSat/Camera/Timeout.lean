import WaferSat.Camera.SnapshotRGB

/-!
The two capture timeouts against the 32-bit system time. The deadline is a sum modulo the clock
and is compared with a plain `<`, so it is met only while the clock and the deadline are on the
same lap of the counter.
-/
namespace WaferSat.Camera

/-- The system time `e` ticks after `t₀`. -/
def clockAt (t₀ : BitVec 32) (e : ℕ) : BitVec 32 := BitVec.ofNat 32 (t₀.toNat + e)

/-- The wait loop of `OV5640_Snapshot2RAM` on a capture that does not finish, with the clock read
after the given numbers of ticks. -/
def waitJPEG (t₀ : BitVec 32) (es : List ℕ) : Option Bool :=
  waitCapture (t₀ + captureTimeout) (es.map fun e => (true, clockAt t₀ e))

def waitRGB (t₀ : BitVec 32) (es : List ℕ) : Option Bool :=
  waitSampling (t₀ + samplingTimeout) (es.map fun e => (false, clockAt t₀ e))

/-- At each of its readings the loop goes on waiting below the limit and gives up at the first one
that is not below it. -/
def KeepsLimit (wait : List ℕ → Option Bool) (limit : ℕ) (es : List ℕ) : Prop :=
  ∀ pre, pre <+: es → wait pre = if ∃ e ∈ pre, limit ≤ e then some false else none

/-- Where the readings fall on the laps of the counter: those below the limit on the lap of the
deadline, and the first one after it in no stretch from the start of a later lap up to where the
deadline stands. -/
structure OnLap (t₀ : BitVec 32) (limit : ℕ) (es : List ℕ) : Prop where
  early : ∀ e ∈ es, e < limit → (t₀.toNat + e) / 2 ^ 32 = (t₀.toNat + limit) / 2 ^ 32
  late : ∀ pre e post, es = pre ++ e :: post → (∀ x ∈ pre, x < limit) → limit ≤ e →
    ∀ lap, (t₀.toNat + limit) / 2 ^ 32 < lap → lap * 2 ^ 32 ≤ t₀.toNat + e →
      lap * 2 ^ 32 + (t₀.toNat + limit) % 2 ^ 32 ≤ t₀.toNat + e

variable {t₀ : BitVec 32} {limit e : ℕ} {es : List ℕ}

theorem waitCapture_unfinished (timeout : BitVec 32) (clock : ℕ → BitVec 32) (es : List ℕ) :
    waitCapture timeout (es.map fun e => (true, clock e)) =
      if ∃ e ∈ es, ¬clock e < timeout then some false else none := by
  induction es with
  | nil => simp [waitCapture]
  | cons e es ih =>
    simp only [List.map_cons, waitCapture, Bool.true_eq_false, ↓reduceIte, ih,
      List.exists_mem_cons_iff]
    by_cases h : clock e < timeout <;> simp [h]

/-- The test of the loop fails `e` ticks after the start. -/
def Expired (t₀ : BitVec 32) (limit e : ℕ) : Prop :=
  (t₀.toNat + limit) % 2 ^ 32 ≤ (t₀.toNat + e) % 2 ^ 32

instance (t₀ : BitVec 32) (limit e : ℕ) : Decidable (Expired t₀ limit e) :=
  inferInstanceAs (Decidable (_ ≤ _))

theorem not_clockAt_lt_iff (t₀ : BitVec 32) (limit e : ℕ) :
    ¬clockAt t₀ e < t₀ + BitVec.ofNat 32 limit ↔ Expired t₀ limit e := by
  have hlimit : (t₀ + BitVec.ofNat 32 limit).toNat = (t₀.toNat + limit) % 2 ^ 32 := by
    rw [BitVec.toNat_add, BitVec.toNat_ofNat, Nat.add_mod_mod]
  rw [BitVec.lt_def, hlimit, clockAt, BitVec.toNat_ofNat, not_lt]
  rfl

theorem waitCapture_clockAt (t₀ : BitVec 32) (limit : ℕ) (es : List ℕ) :
    waitCapture (t₀ + BitVec.ofNat 32 limit) (es.map fun e => (true, clockAt t₀ e)) =
      if ∃ e ∈ es, Expired t₀ limit e then some false else none := by
  rw [waitCapture_unfinished]
  simp only [not_clockAt_lt_iff]

theorem waitJPEG_eq (t₀ : BitVec 32) (es : List ℕ) :
    waitJPEG t₀ es = if ∃ e ∈ es, Expired t₀ 50000 e then some false else none :=
  waitCapture_clockAt t₀ 50000 es

theorem waitRGB_eq (t₀ : BitVec 32) (es : List ℕ) :
    waitRGB t₀ es = if ∃ e ∈ es, Expired t₀ 10000 e then some false else none := by
  rw [waitRGB, waitSampling, List.map_map]
  exact waitCapture_clockAt t₀ 10000 es

theorem not_expired_iff (hlimit : limit < 2 ^ 32) (he : e < limit) :
    ¬Expired t₀ limit e ↔ (t₀.toNat + e) / 2 ^ 32 = (t₀.toNat + limit) / 2 ^ 32 := by
  unfold Expired
  omega

/-- After the limit the test fails unless a later lap has begun and the deadline of that lap has
not been reached. -/
theorem expired_iff (he : limit ≤ e) :
    Expired t₀ limit e ↔ ∀ lap, (t₀.toNat + limit) / 2 ^ 32 < lap →
      lap * 2 ^ 32 ≤ t₀.toNat + e →
      lap * 2 ^ 32 + (t₀.toNat + limit) % 2 ^ 32 ≤ t₀.toNat + e := by
  unfold Expired
  constructor
  · intro h lap hlap hle
    have hq : lap ≤ (t₀.toNat + e) / 2 ^ 32 := (Nat.le_div_iff_mul_le (by decide)).mpr hle
    calc lap * 2 ^ 32 + (t₀.toNat + limit) % 2 ^ 32
        ≤ (t₀.toNat + e) / 2 ^ 32 * 2 ^ 32 + (t₀.toNat + e) % 2 ^ 32 :=
          Nat.add_le_add (Nat.mul_le_mul_right _ hq) h
      _ = t₀.toNat + e := Nat.div_add_mod' _ _
  · intro h
    by_cases hlap : (t₀.toNat + limit) / 2 ^ 32 < (t₀.toNat + e) / 2 ^ 32
    · have hle := h _ hlap (Nat.div_mul_le_self _ _)
      omega
    · omega

theorem exists_first (h : ∃ e ∈ es, limit ≤ e) :
    ∃ pre e post, es = pre ++ e :: post ∧ (∀ x ∈ pre, x < limit) ∧ limit ≤ e := by
  obtain ⟨e, hmem, hle⟩ := h
  have hsome : (es.find? fun x => decide (limit ≤ x)).isSome = true :=
    List.find?_isSome.mpr ⟨e, hmem, decide_eq_true hle⟩
  obtain ⟨x, hx⟩ := Option.isSome_iff_exists.mp hsome
  obtain ⟨hlate, pre, post, rfl, hpre⟩ := List.find?_eq_some_iff_append.mp hx
  exact ⟨pre, x, post, rfl, fun y hy => by simpa using hpre y hy, of_decide_eq_true hlate⟩

def Agrees (t₀ : BitVec 32) (limit : ℕ) (es : List ℕ) : Prop :=
  ∀ pre, pre <+: es → ((∃ e ∈ pre, Expired t₀ limit e) ↔ ∃ e ∈ pre, limit ≤ e)

theorem keepsLimit_iff_agrees {wait : List ℕ → Option Bool}
    (hwait : ∀ es, wait es = if ∃ e ∈ es, Expired t₀ limit e then some false else none) :
    KeepsLimit wait limit es ↔ Agrees t₀ limit es := by
  refine forall_congr' fun pre => imp_congr_right fun _ => ?_
  rw [hwait]
  by_cases hx : ∃ e ∈ pre, Expired t₀ limit e <;> by_cases hl : ∃ e ∈ pre, limit ≤ e <;>
    simp only [hx, hl, ↓reduceIte, reduceCtorEq, iff_false, iff_true, not_true_eq_false]

theorem Agrees.onLap (h : Agrees t₀ limit es) (hlimit : limit < 2 ^ 32)
    (hes : es.Pairwise (· ≤ ·)) : OnLap t₀ limit es := by
  constructor
  · intro e he hlt
    obtain ⟨pre, post, rfl⟩ := List.append_of_mem he
    have hsorted := (List.pairwise_append.mp hes).2.2
    have hnone : ¬∃ x ∈ pre ++ [e], Expired t₀ limit x := by
      rw [h (pre ++ [e]) ⟨post, by simp⟩]
      rintro ⟨x, hx, hle⟩
      rw [List.mem_append, List.mem_singleton] at hx
      rcases hx with hx | rfl
      · have hxe := hsorted x hx e (by simp)
        omega
      · omega
    exact (not_expired_iff hlimit hlt).mp fun hx => hnone ⟨e, by simp, hx⟩
  · intro pre e post heq hpre hle
    rw [← expired_iff hle]
    subst heq
    obtain ⟨x, hx, hexp⟩ := (h (pre ++ [e]) ⟨post, by simp⟩).mpr ⟨e, by simp, hle⟩
    rw [List.mem_append, List.mem_singleton] at hx
    rcases hx with hx | rfl
    · obtain ⟨y, hy, hly⟩ := (h pre ⟨e :: post, rfl⟩).mp ⟨x, hx, hexp⟩
      exact absurd (hpre y hy) (not_lt.mpr hly)
    · exact hexp

theorem OnLap.agrees (h : OnLap t₀ limit es) (hlimit : limit < 2 ^ 32) : Agrees t₀ limit es := by
  rintro pre ⟨rest, rfl⟩
  constructor
  · rintro ⟨e, he, hexp⟩
    by_contra hnone
    have hlt : e < limit := by
      by_contra hge
      exact hnone ⟨e, he, not_lt.mp hge⟩
    exact (not_expired_iff hlimit hlt).mpr (h.early e (by simp [he]) hlt) hexp
  · intro hlate
    obtain ⟨p, e, q, rfl, hp, hle⟩ := exists_first hlate
    refine ⟨e, by simp, (expired_iff hle).mpr ?_⟩
    exact h.late p e (q ++ rest) (by simp) hp hle

theorem keepsLimit_iff (hlimit : limit < 2 ^ 32) (hes : es.Pairwise (· ≤ ·))
    {wait : List ℕ → Option Bool}
    (hwait : ∀ es, wait es = if ∃ e ∈ es, Expired t₀ limit e then some false else none) :
    KeepsLimit wait limit es ↔ OnLap t₀ limit es := by
  rw [keepsLimit_iff_agrees hwait]
  exact ⟨fun h => h.onLap hlimit hes, fun h => h.agrees hlimit⟩

/-- Both capture timeouts: the loops keep their limits exactly when the readings below the limit
fall on the lap of the deadline and the first one after it does not fall short of the deadline on
a later lap. -/
theorem timeouts_kept_iff (t₀ : BitVec 32) (hes : es.Pairwise (· ≤ ·)) :
    (KeepsLimit (waitJPEG t₀) 50000 es ↔ OnLap t₀ 50000 es) ∧
    (KeepsLimit (waitRGB t₀) 10000 es ↔ OnLap t₀ 10000 es) :=
  ⟨keepsLimit_iff (by decide) hes (waitJPEG_eq t₀), keepsLimit_iff (by decide) hes (waitRGB_eq t₀)⟩

theorem onLap_of_lt (hlimit : t₀.toNat + limit < 2 ^ 32)
    (hes : ∀ e ∈ es, t₀.toNat + e < 2 ^ 32) : OnLap t₀ limit es := by
  constructor
  · intro e he _
    rw [Nat.div_eq_of_lt (hes e he), Nat.div_eq_of_lt hlimit]
  · rintro pre e post rfl _ _ lap hlap hle
    have hwrap : 2 ^ 32 ≤ lap * 2 ^ 32 := Nat.le_mul_of_pos_left _ (Nat.zero_lt_of_lt hlap)
    exact absurd (hwrap.trans hle) (not_le.mpr (hes e (by simp)))

theorem timeouts_kept_after_boot :
    KeepsLimit (waitJPEG 100#32) 50000 [0, 9999, 10001, 49999, 50002] ∧
    KeepsLimit (waitRGB 100#32) 10000 [0, 9999, 10001, 49999, 50002] := by
  have hkept := @timeouts_kept_iff [0, 9999, 10001, 49999, 50002] 100#32 (by decide)
  exact ⟨hkept.1.mpr (onLap_of_lt (by decide) (by decide)),
    hkept.2.mpr (onLap_of_lt (by decide) (by decide))⟩

/-- Just before the counter comes round both loops give up at their first reading, and with the
deadline on the last tick of the lap a reading one tick late goes on waiting. -/
theorem timeouts_missed_at_wrap :
    ¬KeepsLimit (waitJPEG 0xFFFFFFFF#32) 50000 [0] ∧
    ¬KeepsLimit (waitRGB 0xFFFFFFFF#32) 10000 [0] ∧
    ¬KeepsLimit (waitJPEG 0xFFFF3CAF#32) 50000 [50001] := by
  refine ⟨fun h => ?_, fun h => ?_, fun h => ?_⟩
  · exact absurd (h [0] (List.prefix_refl _)) (by decide)
  · exact absurd (h [0] (List.prefix_refl _)) (by decide)
  · exact absurd (h [50001] (List.prefix_refl _)) (by decide)

end WaferSat.Camera
