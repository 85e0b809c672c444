import WaferSat.Ptime.Convert

/-!
The two conversions are inverse to each other on the calendar in which every fourth year is leap.
Each loop is described by the stretches of days that it adds up or takes off.
-/
namespace WaferSat.Ptime
open Calendar

def julianYear (y : ℕ) : ℕ := yearLength (julian y)

section Tables

theorem mod_four_eq_zero_iff (year : BitVec 16) :
    year % 4#16 = 0#16 ↔ julian year.toNat = true := by
  rw [← BitVec.toNat_inj, BitVec.toNat_umod, julian, decide_eq_true_eq]
  rfl

theorem secondsInThisYear_toNat (year : BitVec 16) :
    (secondsInThisYear year).toNat = 86400 * julianYear year.toNat := by
  unfold secondsInThisYear julianYear
  simp only [mod_four_eq_zero_iff]
  cases julian year.toNat <;> rfl

/-- The tables hold the days before each month, and the days of the year at their end. -/
theorem entry_tableOf (year : BitVec 16) {m : ℕ} (hm : m < 13) :
    entry (tableOf year) m =
      some (BitVec.ofNat 32 (offset (monthLength (julian year.toNat)) 1 (m + 1))) := by
  have htables : ∀ leap : Bool, ∀ m : ℕ, m < 13 →
      entry (if leap = true then leapYear else nonLeapYear) m =
        some (BitVec.ofNat 32 (offset (monthLength leap) 1 (m + 1))) := by decide
  simp only [tableOf, mod_four_eq_zero_iff]
  exact htables _ m hm

theorem entry_tableOf_month (year : BitVec 16) {m : ℕ} (h1 : 1 ≤ m) (h12 : m ≤ 12) :
    entry (tableOf year) (m - 1) =
      some (BitVec.ofNat 32 (offset (monthLength (julian year.toNat)) 1 m)) := by
  have h := entry_tableOf year (m := m - 1) (by omega)
  rwa [Nat.sub_add_cancel h1, Int.natCast_sub h1] at h

theorem offset_month_le (leap : Bool) {m : ℕ} (h : m ≤ 13) :
    offset (monthLength leap) 1 m ≤ 366 := by
  have hle := offset_mono (ℓ := monthLength leap) (a := 1) h
  rw [offset_months] at hle
  cases leap <;> simp [yearLength] at hle <;> omega

theorem days_mul_toNat (leap : Bool) {m : ℕ} (h : m ≤ 13) :
    (BitVec.ofNat 32 (offset (monthLength leap) 1 m) * 86400#32).toNat =
      86400 * offset (monthLength leap) 1 m := by
  have hle := offset_month_le leap h
  rw [BitVec.toNat_mul, BitVec.toNat_ofNat, BitVec.toNat_ofNat]
  omega

end Tables

theorem addYears_eq (i year : BitVec 16) (timeC : BitVec 32) :
    addYears i year timeC =
      timeC + BitVec.ofNat 32 (86400 * offset julianYear i.toNat year.toNat) := by
  fun_induction addYears i year timeC with
  | case1 i timeC hlt ih =>
    have hi := BitVec.lt_def.mp hlt
    have hsucc : (i + 1#16).toNat = i.toNat + 1 := by
      have hyear := year.isLt
      rw [BitVec.toNat_add, BitVec.toNat_ofNat]
      omega
    have hyear : (if i % 4#16 = 0#16 then timeC + 31622400#32 else timeC + 31536000#32) =
        timeC + secondsInThisYear i := by
      unfold secondsInThisYear
      split_ifs <;> rfl
    have hword : secondsInThisYear i = BitVec.ofNat 32 (86400 * julianYear i.toNat) := by
      rw [← secondsInThisYear_toNat, BitVec.ofNat_toNat, BitVec.setWidth_eq]
    have hfirst : offset julianYear i.toNat year.toNat =
        julianYear i.toNat + offset julianYear (i.toNat + 1) year.toNat :=
      Finset.sum_eq_sum_Ico_succ_bot hi julianYear
    simp only [dite_eq_ite] at ih
    rw [ih, hyear, hword, hsucc, hfirst, Nat.mul_add, BitVec.ofNat_add, BitVec.add_assoc]
  | case2 i timeC hge =>
    rw [BitVec.lt_def, not_lt] at hge
    simp [offset, Finset.Ico_eq_empty_of_le hge]

/-- The year loop leaves the part of its time that is less than the year it stops at. -/
theorem takeYears_spec (year : BitVec 16) (time : BitVec 32)
    (h : year.toNat + time.toNat / 31536000 < 2 ^ 16) :
    year.toNat ≤ (takeYears year time).1.toNat ∧
    (takeYears year time).2.toNat < 86400 * julianYear (takeYears year time).1.toNat ∧
    time.toNat = 86400 * offset julianYear year.toNat (takeYears year time).1.toNat +
      (takeYears year time).2.toNat := by
  fun_induction takeYears year time with
  | case1 year time hge ih =>
    have hle := BitVec.le_def.mp hge
    have hmin := secondsInThisYear_ge year
    have hsucc : (year + 1#16).toNat = year.toNat + 1 := by
      rw [BitVec.toNat_add, BitVec.toNat_ofNat]
      omega
    have hsub := BitVec.toNat_sub_of_le hge
    obtain ⟨hyear, hlt, htime⟩ := ih (by rw [hsucc, hsub]; omega)
    rw [hsucc] at hyear htime
    refine ⟨by omega, hlt, ?_⟩
    have hfirst : offset julianYear year.toNat (takeYears (year + 1#16)
        (time - secondsInThisYear year)).1.toNat = julianYear year.toNat +
          offset julianYear (year.toNat + 1) (takeYears (year + 1#16)
            (time - secondsInThisYear year)).1.toNat :=
      Finset.sum_eq_sum_Ico_succ_bot hyear julianYear
    rw [secondsInThisYear_toNat] at hsub hle
    omega
  | case2 year time hlt =>
    rw [ge_iff_le, BitVec.le_def, not_le, secondsInThisYear_toNat] at hlt
    exact ⟨le_rfl, hlt, by simp⟩

/-- The month loop stops inside the table, at the month that the time falls in. -/
theorem findMonth_spec (year : BitVec 16) (time : BitVec 32) (month : BitVec 8)
    (h1 : 1 ≤ month.toNat) (h12 : month.toNat ≤ 12)
    (hge : 86400 * offset (monthLength (julian year.toNat)) 1 month.toNat ≤ time.toNat)
    (hlt : time.toNat < 86400 * julianYear year.toNat) :
    ∃ m, findMonth year time month = some m ∧ 1 ≤ m.toNat ∧ m.toNat ≤ 12 ∧
      86400 * offset (monthLength (julian year.toNat)) 1 m.toNat ≤ time.toNat ∧
      time.toNat < 86400 * offset (monthLength (julian year.toNat)) 1 (m.toNat + 1) := by
  fun_induction findMonth year time month with
  | case1 month hnone => simp [entry_tableOf year (Nat.lt_succ_of_le h12)] at hnone
  | case2 month days hsome hle ih =>
    obtain rfl := Option.some.inj (hsome.symm.trans (entry_tableOf year (by omega)))
    rw [BitVec.le_def, days_mul_toNat _ (by omega)] at hle
    have hsucc : (month + 1#8).toNat = month.toNat + 1 := by
      rw [BitVec.toNat_add, BitVec.toNat_ofNat]
      omega
    have hnext : month.toNat + 1 ≤ 12 := by
      by_contra hlast
      rw [show month.toNat + 1 = 13 by omega, offset_months] at hle
      exact absurd hlt (not_lt.mpr hle)
    exact ih (by omega) (by omega) (by rwa [hsucc])
  | case3 month days hsome hgt =>
    obtain rfl := Option.some.inj (hsome.symm.trans (entry_tableOf year (by omega)))
    rw [BitVec.le_def, days_mul_toNat _ (by omega), not_le] at hgt
    exact ⟨month, rfl, h1, h12, hge, hgt⟩

theorem seconds_julian (d : PTime) : d.seconds julian =
    86400 * (offset julianYear 1970 d.year.toNat +
      (offset (monthLength (julian d.year.toNat)) 1 d.month.toNat + (d.day.toNat - 1))) +
    (d.hour.toNat * 3600 + d.minute.toNat * 60 + d.second.toNat) := rfl

/-- The timestamp of a date is its number of seconds, modulo the word. -/
theorem date2UnixTimestamp_eq {d : PTime} (h : d.IsValid julian) :
    date2UnixTimestamp d = some (BitVec.ofNat 32 (d.seconds julian)) := by
  have hentry := entry_tableOf_month d.year h.date.month_ge h.date.month_le
  have hday : 1 ≤ d.day.toNat := h.date.day_ge
  have hword {w : ℕ} (x : BitVec w) : x.setWidth 32 = BitVec.ofNat 32 x.toNat :=
    (BitVec.ofNat_toNat 32 x).symm
  have hone : BitVec.ofNat 32 d.day.toNat - 1#32 = BitVec.ofNat 32 (d.day.toNat - 1) := by
    obtain ⟨k, hk⟩ := Nat.exists_eq_add_of_le' hday
    rw [hk, BitVec.ofNat_add, Nat.add_sub_cancel, BitVec.add_sub_cancel]
  unfold date2UnixTimestamp
  rw [show (d.month.toNat : ℤ) = d.date.month from rfl, hentry]
  simp only [Option.bind_eq_bind, Option.bind_some, Option.pure_def, addYears_eq, hword, hone,
    ← BitVec.ofNat_mul, ← BitVec.ofNat_add]
  refine congrArg (fun n => some (BitVec.ofNat 32 n)) ?_
  rw [seconds_julian]
  simp only [PTime.date, BitVec.toNat_ofNat, Nat.reducePow, Nat.reduceMod]
  omega

theorem monthLength_le (leap : Bool) (m : ℕ) : monthLength leap m ≤ 31 := by
  unfold monthLength
  split <;> first | decide | (split_ifs <;> decide)

theorem setWidth_toNat_of_lt {x : BitVec 32} (h : x.toNat < 256) :
    (x.setWidth 8).toNat = x.toNat := by
  rw [BitVec.toNat_setWidth, Nat.mod_eq_of_lt h]

theorem fields_toNat {x : BitVec 32} (h : x.toNat < 86400 * 31) :
    ((x / 86400#32 + 1#32).setWidth 8).toNat = x.toNat / 86400 + 1 ∧
    ((x % 86400#32 / 3600#32).setWidth 8).toNat = x.toNat % 86400 / 3600 ∧
    ((x % 3600#32 / 60#32).setWidth 8).toNat = x.toNat % 3600 / 60 ∧
    ((x % 60#32).setWidth 8).toNat = x.toNat % 60 := by
  have hday : (x / 86400#32 + 1#32).toNat = x.toNat / 86400 + 1 := by
    simp only [BitVec.toNat_add, BitVec.toNat_udiv, BitVec.toNat_ofNat, Nat.reducePow,
      Nat.reduceMod]
    omega
  have hhour : (x % 86400#32 / 3600#32).toNat = x.toNat % 86400 / 3600 := by
    simp [BitVec.toNat_udiv, BitVec.toNat_umod]
  have hminute : (x % 3600#32 / 60#32).toNat = x.toNat % 3600 / 60 := by
    simp [BitVec.toNat_udiv, BitVec.toNat_umod]
  have hsecond : (x % 60#32).toNat = x.toNat % 60 := by simp [BitVec.toNat_umod]
  refine ⟨?_, ?_, ?_, ?_⟩
  · rw [setWidth_toNat_of_lt (by omega), hday]
  · rw [setWidth_toNat_of_lt (by omega), hhour]
  · rw [setWidth_toNat_of_lt (by omega), hminute]
  · rw [setWidth_toNat_of_lt (by omega), hsecond]

def dateIn (year : BitVec 16) (month : BitVec 8) (left : BitVec 32) : PTime where
  year := year
  month := month
  day := (left / 86400#32 + 1#32).setWidth 8
  hour := (left % 86400#32 / 3600#32).setWidth 8
  minute := (left % 3600#32 / 60#32).setWidth 8
  second := (left % 60#32).setWidth 8

theorem dateIn_spec {year : BitVec 16} {month : BitVec 8} {left : BitVec 32}
    (hyear : 1970 ≤ year.toNat) (h1 : 1 ≤ month.toNat) (h12 : month.toNat ≤ 12)
    (hleft : left.toNat < 86400 * monthLength (julian year.toNat) month.toNat) :
    (dateIn year month left).IsValid julian ∧
    (dateIn year month left).seconds julian = 86400 * (offset julianYear 1970 year.toNat +
      offset (monthLength (julian year.toNat)) 1 month.toNat) + left.toNat := by
  have hmonth := monthLength_le (julian year.toNat) month.toNat
  obtain ⟨hday, hhour, hminute, hsecond⟩ := fields_toNat (x := left) (by omega)
  refine ⟨⟨⟨hyear, h1, h12, ?_, ?_⟩, ?_, ?_, ?_⟩, ?_⟩
  · simp only [PTime.date, dateIn, hday]
    omega
  · simp only [PTime.date, dateIn, hday]
    omega
  · simp only [dateIn, hhour]
    omega
  · simp only [dateIn, hminute]
    omega
  · simp only [dateIn, hsecond]
    omega
  · rw [seconds_julian]
    simp only [dateIn, hday, hhour, hminute, hsecond]
    omega

/-- Every word is the timestamp of the date that it is converted to. -/
theorem unixTimestamp2Date_spec (t : BitVec 32) :
    ∃ d, unixTimestamp2Date t = some d ∧ d.IsValid julian ∧ d.seconds julian = t.toNat := by
  have ht := t.isLt
  have h1970 : (1970#16).toNat = 1970 := rfl
  obtain ⟨hyear, hrest, htime⟩ := takeYears_spec 1970#16 t (by omega)
  generalize hr : takeYears 1970#16 t = r at hyear hrest htime
  obtain ⟨year, time⟩ := r
  rw [h1970] at hyear htime
  dsimp only at hyear hrest htime
  obtain ⟨month, hfind, h1, h12, hge, hlt⟩ :=
    findMonth_spec year time 1#8 (by decide) (by decide) (by simp) hrest
  have hentry := entry_tableOf_month year h1 h12
  have hmul := days_mul_toNat (julian year.toNat) (m := month.toNat) (by omega)
  generalize BitVec.ofNat 32 (offset (monthLength (julian year.toNat)) 1 month.toNat) = days
    at hentry hmul
  have hleft : (time - days * 86400#32).toNat =
      time.toNat - 86400 * offset (monthLength (julian year.toNat)) 1 month.toNat := by
    rw [BitVec.toNat_sub_of_le (by rw [BitVec.le_def, hmul]; exact hge), hmul]
  rw [offset_succ h1] at hlt
  have hin : (time - days * 86400#32).toNat <
      86400 * monthLength (julian year.toNat) month.toNat := by omega
  obtain ⟨hvalid, hseconds⟩ := dateIn_spec hyear h1 h12 hin
  refine ⟨_, by simp [unixTimestamp2Date, hr, hfind, hentry, dateIn], hvalid, ?_⟩
  rw [hseconds]
  omega

theorem PTime.IsValid.secondOfDay_lt {leap : ℕ → Bool} {d : PTime} (h : d.IsValid leap) :
    d.secondOfDay < 86400 := by
  have hhour := h.hour_lt
  have hminute := h.minute_lt
  have hsecond := h.second_lt
  unfold PTime.secondOfDay
  omega

theorem PTime.IsValid.eq_of_seconds_eq {leap : ℕ → Bool} {d d' : PTime} (h : d.IsValid leap)
    (h' : d'.IsValid leap) (heq : d.seconds leap = d'.seconds leap) : d = d' := by
  have hlt := h.secondOfDay_lt
  have hlt' := h'.secondOfDay_lt
  unfold PTime.seconds at heq
  have hdate := h.date.eq_of_dayNumber_eq h'.date (by omega)
  rw [hdate] at heq
  have htime : d.secondOfDay = d'.secondOfDay := by omega
  obtain ⟨y, mo, da, ho, mi, se⟩ := d
  obtain ⟨y', mo', da', ho', mi', se'⟩ := d'
  obtain ⟨-, hh, hm, hs⟩ := h
  obtain ⟨-, hh', hm', hs'⟩ := h'
  simp only [PTime.date, Date.mk.injEq] at hdate
  simp only [PTime.secondOfDay] at htime hh hm hs hh' hm' hs'
  simp only [PTime.mk.injEq, ← BitVec.toNat_inj]
  omega

theorem seconds_julian_lt {d : PTime} (h : d.IsValid julian) (hy : d.year.toNat ≤ 2105) :
    d.seconds julian < 2 ^ 32 := by
  have hyears : offset (fun y => yearLength (julian y)) 1970 2106 = 49674 := by
    decide +kernel
  have hday := h.date.dayNumber_lt (y := 2106) (Nat.lt_succ_of_le hy)
  have htime := h.secondOfDay_lt
  rw [hyears] at hday
  unfold PTime.seconds
  omega

/-- The conversions are inverse to each other: every word is converted to a date of the calendar
and back, and every date up to 2105 to a word and back. -/
theorem conversions_inverse :
    (∀ t, ∃ d, unixTimestamp2Date t = some d ∧ d.IsValid julian ∧ date2UnixTimestamp d = some t) ∧
    ∀ d : PTime, d.IsValid julian → d.year.toNat ≤ 2105 →
      (date2UnixTimestamp d).bind unixTimestamp2Date = some d := by
  constructor
  · intro t
    obtain ⟨d, hd, hvalid, hseconds⟩ := unixTimestamp2Date_spec t
    refine ⟨d, hd, hvalid, ?_⟩
    rw [date2UnixTimestamp_eq hvalid, hseconds, BitVec.ofNat_toNat, BitVec.setWidth_eq]
  · intro d h hy
    have hlt := seconds_julian_lt h hy
    obtain ⟨d', hd', hvalid, hseconds⟩ :=
      unixTimestamp2Date_spec (BitVec.ofNat 32 (d.seconds julian))
    rw [BitVec.toNat_ofNat, Nat.mod_eq_of_lt hlt] at hseconds
    rw [date2UnixTimestamp_eq h, Option.bind_some, hd', hvalid.eq_of_seconds_eq h hseconds]

end WaferSat.Ptime
