import WaferSat.Ptime.RoundTrip

/-!
Agreement with the civil calendar. The rule of the code and the Gregorian rule part in the year
2100, so they number the days alike up to the end of February of that year.
-/
namespace WaferSat.Ptime
open Calendar

/-- The leap years of the civil calendar. -/
def gregorian (y : ℕ) : Bool := (y % 4 = 0 && y % 100 ≠ 0) || y % 400 = 0

/-- The date lies before the first of March 2100. -/
def BeforeMarch2100 (d : Date) : Prop := d.year < 2100 ∨ d.year = 2100 ∧ d.month ≤ 2

variable {d : Date}

theorem gregorian_eq_julian {y : ℕ} (h1970 : 1970 ≤ y) (h2100 : y < 2100) :
    gregorian y = julian y := by
  have hall : ∀ k < 130, gregorian (1970 + k) = julian (1970 + k) := by decide
  obtain ⟨k, rfl⟩ := Nat.exists_eq_add_of_le h1970
  exact hall k (by omega)

theorem dayNumber_gregorian (h : BeforeMarch2100 d) (hy : 1970 ≤ d.year) :
    dayNumber gregorian 1970 d = dayNumber julian 1970 d :=
  dayNumber_congr (fun _ h1970 h2100 => gregorian_eq_julian h1970 h2100) h hy

theorem isDate_julian (h : BeforeMarch2100 d) (hd : IsDate gregorian 1970 d) :
    IsDate julian 1970 d := by
  refine ⟨hd.year_ge, hd.month_ge, hd.month_le, hd.day_ge, hd.day_le.trans ?_⟩
  rcases h with h2100 | ⟨h2100, hmonth⟩
  · rw [gregorian_eq_julian hd.year_ge h2100]
  · have hfebruary : ∀ m ≤ 2, monthLength (gregorian 2100) m ≤ monthLength (julian 2100) m := by
      decide
    rw [h2100]
    exact hfebruary d.month hmonth

theorem beforeMarch2100_of_lt
    (h : dayNumber gregorian 1970 d < dayNumber gregorian 1970 ⟨2100, 3, 1⟩) :
    BeforeMarch2100 d := by
  have hmarch : IsDate gregorian 1970 ⟨2100, 3, 1⟩ :=
    ⟨by decide, by decide, by decide, by decide, by decide⟩
  rcases Nat.lt_trichotomy d.year 2100 with hlt | heq | hgt
  · exact .inl hlt
  · refine .inr ⟨heq, ?_⟩
    by_contra hmonth
    have hle := offset_mono (ℓ := monthLength (gregorian 2100)) (a := 1) (show 3 ≤ d.month by omega)
    simp only [dayNumber, dayOfYear, heq] at h
    omega
  · have hle := offset_mono (ℓ := fun y => yearLength (gregorian y)) (a := 1970)
      (show 2101 ≤ d.year from hgt)
    have hlt := hmarch.dayNumber_lt (y := 2101) (by decide)
    simp only [dayNumber] at h hlt
    omega

/-- Up to the end of February 2100 timestamps count the seconds of the civil calendar: a date that
is reached by going on `n` days from the first of January 1970 has the timestamp of its second on
day `n`, and each timestamp is converted to the date of its day and its time of day. -/
theorem conversions_gregorian :
    (∀ d : PTime, d.IsValid gregorian → BeforeMarch2100 d.date →
      ∃ t n, date2UnixTimestamp d = some t ∧ nthDay gregorian 1970 n = d.date ∧
        t.toNat = 86400 * n + d.secondOfDay) ∧
    ∀ t : BitVec 32, t.toNat < 86400 * dayNumber gregorian 1970 ⟨2100, 3, 1⟩ →
      ∃ d, unixTimestamp2Date t = some d ∧ d.IsValid gregorian ∧
        d.date = nthDay gregorian 1970 (t.toNat / 86400) ∧ d.secondOfDay = t.toNat % 86400 := by
  constructor
  · intro d h hbefore
    have hyear : d.year.toNat ≤ 2105 := by
      rcases hbefore with hlt | ⟨heq, -⟩
      · exact Nat.le_of_lt_succ (Nat.lt_trans hlt (by decide))
      · exact (show d.year.toNat = 2100 from heq) ▸ by decide
    have hvalid : d.IsValid julian :=
      ⟨isDate_julian hbefore h.date, h.hour_lt, h.minute_lt, h.second_lt⟩
    refine ⟨_, _, date2UnixTimestamp_eq hvalid, h.date.nthDay_dayNumber, ?_⟩
    rw [BitVec.toNat_ofNat, Nat.mod_eq_of_lt (seconds_julian_lt hvalid hyear), PTime.seconds,
      dayNumber_gregorian hbefore h.date.year_ge]
  · intro t ht
    obtain ⟨d, hd, hvalid, hseconds⟩ := unixTimestamp2Date_spec t
    have htime := hvalid.secondOfDay_lt
    unfold PTime.seconds at hseconds
    obtain ⟨hcivil, hnumber⟩ := nthDay_spec gregorian 1970 (t.toNat / 86400)
    have hbefore := beforeMarch2100_of_lt (hnumber.trans_lt (by omega))
    have hsame := dayNumber_gregorian hbefore hcivil.year_ge
    have hdate : d.date = nthDay gregorian 1970 (t.toNat / 86400) :=
      hvalid.date.eq_of_dayNumber_eq (isDate_julian hbefore hcivil) (by omega)
    refine ⟨d, hd, ⟨?_, hvalid.hour_lt, hvalid.minute_lt, hvalid.second_lt⟩, hdate, by omega⟩
    rw [hdate]
    exact hcivil

/-- The timestamp at which the two calendars part. -/
example : 86400 * dayNumber gregorian 1970 ⟨2100, 3, 1⟩ = 4107542400 := by decide +kernel

end WaferSat.Ptime
