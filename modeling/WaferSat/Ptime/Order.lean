import WaferSat.Ptime.RoundTrip
import Mathlib.Data.List.Lex

/-!
Timestamps and dates are in the same order. The fields of `ptime_t`, from the year down to the
second, compare as the timestamps do, so a log sorted by timestamp is sorted by date.
-/
namespace WaferSat.Ptime
open Calendar

/-- The fields of a date, the most significant first. -/
def PTime.fields (d : PTime) : List ℕ :=
  [d.year.toNat, d.month.toNat, d.day.toNat, d.hour.toNat, d.minute.toNat, d.second.toNat]

variable {leap : ℕ → Bool} {d d' : PTime}

theorem PTime.fields_lt : d.fields < d'.fields ↔
    (d.date.year < d'.date.year ∨ d.date.year = d'.date.year ∧
      (d.date.month < d'.date.month ∨ d.date.month = d'.date.month ∧
        d.date.day < d'.date.day)) ∨
    d.date = d'.date ∧ (d.hour.toNat < d'.hour.toNat ∨ d.hour.toNat = d'.hour.toNat ∧
      (d.minute.toNat < d'.minute.toNat ∨ d.minute.toNat = d'.minute.toNat ∧
        d.second.toNat < d'.second.toNat)) := by
  simp only [PTime.fields, List.cons_lt_cons_iff, List.not_lt_nil, and_false, or_false, PTime.date,
    Date.mk.injEq]
  tauto

theorem PTime.IsValid.seconds_lt_of_fields_lt (h : d.IsValid leap) (hlt : d.fields < d'.fields) :
    d.seconds leap < d'.seconds leap := by
  have htime := h.secondOfDay_lt
  unfold PTime.seconds
  rcases PTime.fields_lt.mp hlt with hdate | ⟨hdate, hlt⟩
  · have hday := h.date.dayNumber_lt_of_lt hdate
    omega
  · have hminute := h.minute_lt
    have hsecond := h.second_lt
    rw [hdate]
    unfold PTime.secondOfDay
    omega

theorem PTime.IsValid.seconds_lt_iff (h : d.IsValid leap) (h' : d'.IsValid leap) :
    d.seconds leap < d'.seconds leap ↔ d.fields < d'.fields := by
  refine ⟨fun hlt => ?_, h.seconds_lt_of_fields_lt⟩
  rcases lt_trichotomy d.fields d'.fields with hfields | hfields | hfields
  · exact hfields
  · have hsame : d.seconds leap = d'.seconds leap := by
      simp only [PTime.fields, List.cons.injEq] at hfields
      obtain ⟨hyear, hmonth, hday, hhour, hminute, hsecond, -⟩ := hfields
      simp only [PTime.seconds, PTime.date, PTime.secondOfDay, hyear, hmonth, hday, hhour, hminute,
        hsecond]
    omega
  · have hgt := h'.seconds_lt_of_fields_lt hfields
    omega

/-- Both conversions succeed and keep the order, of all words and of all dates up to the end of
2105. -/
theorem conversions_ordered :
    (∀ t t', ∃ d d', unixTimestamp2Date t = some d ∧ unixTimestamp2Date t' = some d' ∧
      (t < t' ↔ d.fields < d'.fields)) ∧
    ∀ d d' : PTime, d.IsValid julian → d'.IsValid julian →
      d.year.toNat ≤ 2105 → d'.year.toNat ≤ 2105 →
        ∃ t t', date2UnixTimestamp d = some t ∧ date2UnixTimestamp d' = some t' ∧
          (t < t' ↔ d.fields < d'.fields) := by
  constructor
  · intro t t'
    obtain ⟨d, hd, hvalid, hseconds⟩ := unixTimestamp2Date_spec t
    obtain ⟨d', hd', hvalid', hseconds'⟩ := unixTimestamp2Date_spec t'
    refine ⟨d, d', hd, hd', ?_⟩
    rw [← hvalid.seconds_lt_iff hvalid', hseconds, hseconds', BitVec.lt_def]
  · intro d d' hvalid hvalid' hyear hyear'
    refine ⟨_, _, date2UnixTimestamp_eq hvalid, date2UnixTimestamp_eq hvalid', ?_⟩
    rw [← hvalid.seconds_lt_iff hvalid', BitVec.lt_def, BitVec.toNat_ofNat, BitVec.toNat_ofNat,
      Nat.mod_eq_of_lt (seconds_julian_lt hvalid hyear),
      Nat.mod_eq_of_lt (seconds_julian_lt hvalid' hyear')]

theorem conversions_ordered_new_year :
    (∃ d d', unixTimestamp2Date 31535999#32 = some d ∧ unixTimestamp2Date 31536000#32 = some d' ∧
      d.fields < d'.fields) ∧
    ∃ t t', date2UnixTimestamp ⟨1970#16, 12#8, 31#8, 23#8, 59#8, 59#8⟩ = some t ∧
      date2UnixTimestamp ⟨1971#16, 1#8, 1#8, 0#8, 0#8, 0#8⟩ = some t' ∧ t < t' := by
  obtain ⟨d, d', hd, hd', hless⟩ := conversions_ordered.1 31535999#32 31536000#32
  have hlast : (⟨1970#16, 12#8, 31#8, 23#8, 59#8, 59#8⟩ : PTime).IsValid julian :=
    ⟨⟨by decide, by decide, by decide, by decide, by decide⟩, by decide, by decide, by decide⟩
  have hfirst : (⟨1971#16, 1#8, 1#8, 0#8, 0#8, 0#8⟩ : PTime).IsValid julian :=
    ⟨⟨by decide, by decide, by decide, by decide, by decide⟩, by decide, by decide, by decide⟩
  obtain ⟨t, t', ht, ht', hearlier⟩ :=
    conversions_ordered.2 _ _ hlast hfirst (by decide) (by decide)
  exact ⟨⟨d, d', hd, hd', hless.mp (by decide)⟩, t, t', ht, ht', hearlier.mpr (by decide)⟩

end WaferSat.Ptime
