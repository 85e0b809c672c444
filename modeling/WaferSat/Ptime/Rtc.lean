import WaferSat.Ptime.RoundTrip

/-!
The clock of `ptime.c`. `setTime` packs a date into the fields of `RTCDateTime`, the time of day
as milliseconds, and `getTime` takes them apart again. The driver is a parameter of which only
this is known: it returns what was last stored.
-/
namespace WaferSat.Ptime
open Calendar

/-- The fields of `RTCDateTime` that `ptime.c` uses, with the widths of their bit fields. -/
structure RTCDateTime where
  year : BitVec 8
  month : BitVec 4
  day : BitVec 5
  millisecond : BitVec 27
  deriving DecidableEq, Repr

/-- `RTC_BASE_YEAR` -/
def rtcBaseYear : BitVec 32 := 1980#32

structure Rtc (ρ : Type*) where
  rtcSetTime : RTCDateTime → ρ → ρ
  rtcGetTime : ρ → RTCDateTime
  get_set : ∀ timespec s, rtcGetTime (rtcSetTime timespec s) = timespec

/-- What `setTime` stores for a date. -/
def timespecOf (date : PTime) : RTCDateTime where
  year := (date.year.setWidth 32 - rtcBaseYear).setWidth 8
  month := date.month.setWidth 4
  day := date.day.setWidth 5
  millisecond :=
    (date.hour.setWidth 32 * 3600000#32 + date.minute.setWidth 32 * 60000#32
      + date.second.setWidth 32 * 1000#32).setWidth 27

/-- What `getTime` makes of the fields it has read. -/
def dateOf (timespec : RTCDateTime) : PTime where
  year := (timespec.year.setWidth 32 + rtcBaseYear).setWidth 16
  month := timespec.month.setWidth 8
  day := timespec.day.setWidth 8
  hour := (timespec.millisecond.setWidth 32 / 3600000#32).setWidth 8
  minute := (timespec.millisecond.setWidth 32 % 3600000#32 / 60000#32).setWidth 8
  second := (timespec.millisecond.setWidth 32 / 1000#32 % 60#32).setWidth 8

namespace Rtc

variable {ρ : Type*} (rtc : Rtc ρ)

def setTime (date : PTime) (s : ρ) : ρ := rtc.rtcSetTime (timespecOf date) s

def getTime (s : ρ) : PTime := dateOf (rtc.rtcGetTime s)

theorem getTime_setTime (d : PTime) (s : ρ) :
    rtc.getTime (rtc.setTime d s) = dateOf (timespecOf d) := by
  rw [getTime, setTime, rtc.get_set]

end Rtc

def PTime.millisecondOfDay (d : PTime) : ℕ :=
  d.hour.toNat * 3600000 + d.minute.toNat * 60000 + d.second.toNat * 1000

/-- A stored time that has lost nothing of a date. -/
structure RTCDateTime.Holds (timespec : RTCDateTime) (d : PTime) : Prop where
  year : timespec.year.toNat + 1980 = d.year.toNat
  month : timespec.month.toNat = d.month.toNat
  day : timespec.day.toNat = d.day.toNat
  millisecond : timespec.millisecond.toNat = d.millisecondOfDay

section

variable {leap : ℕ → Bool} {d : PTime}

theorem PTime.IsValid.millisecondOfDay_lt (h : d.IsValid leap) :
    d.millisecondOfDay < 86400000 := by
  have hhour := h.hour_lt
  have hminute := h.minute_lt
  have hsecond := h.second_lt
  unfold PTime.millisecondOfDay
  omega

theorem scaled_toNat (x : BitVec 8) {k : ℕ} (hk : k < 2 ^ 23) :
    (x.setWidth 32 * BitVec.ofNat 32 k).toNat = x.toNat * k := by
  have hx := x.isLt
  have hprod : x.toNat * k < 2 ^ 8 * 2 ^ 23 := Nat.mul_lt_mul'' hx hk
  rw [BitVec.toNat_mul, BitVec.toNat_setWidth, BitVec.toNat_ofNat,
    Nat.mod_eq_of_lt (a := x.toNat) (by omega), Nat.mod_eq_of_lt (a := k) (by omega),
    Nat.mod_eq_of_lt (by omega)]

/-- The sum of `setTime`, in 32-bit words, is the exact one. -/
theorem millisecond_sum_toNat (hms : d.millisecondOfDay < 2 ^ 27) :
    (d.hour.setWidth 32 * 3600000#32 + d.minute.setWidth 32 * 60000#32
      + d.second.setWidth 32 * 1000#32).toNat = d.millisecondOfDay := by
  unfold PTime.millisecondOfDay at hms ⊢
  rw [BitVec.toNat_add, BitVec.toNat_add, scaled_toNat d.hour (by norm_num),
    scaled_toNat d.minute (by norm_num), scaled_toNat d.second (by norm_num)]
  omega

theorem timespecOf_holds (h : d.IsValid leap) (hbase : 1980 ≤ d.year.toNat)
    (hlast : d.year.toNat < 1980 + 256) : (timespecOf d).Holds d := by
  have hms : d.millisecondOfDay < 2 ^ 27 := h.millisecondOfDay_lt.trans (by norm_num)
  have hmonth : d.month.toNat ≤ 12 := h.date.month_le
  have hday : d.day.toNat ≤ 31 := h.date.day_le.trans (monthLength_le _ _)
  constructor
  · simp only [timespecOf, rtcBaseYear, BitVec.toNat_setWidth, BitVec.toNat_sub,
      BitVec.toNat_ofNat]
    omega
  · rw [timespecOf, BitVec.toNat_setWidth, Nat.mod_eq_of_lt (by omega)]
  · rw [timespecOf, BitVec.toNat_setWidth, Nat.mod_eq_of_lt (by omega)]
  · rw [timespecOf, BitVec.toNat_setWidth, millisecond_sum_toNat hms, Nat.mod_eq_of_lt hms]

theorem unpack_millisecond {ms hour minute second : ℕ} (hminute : minute < 60)
    (hsecond : second < 60) (h : ms = hour * 3600000 + minute * 60000 + second * 1000) :
    ms / 3600000 = hour ∧ ms % 3600000 / 60000 = minute ∧ ms / 1000 % 60 = second := by
  omega

theorem RTCDateTime.Holds.dateOf_eq {timespec : RTCDateTime} (ht : timespec.Holds d)
    (h : d.IsValid leap) : dateOf timespec = d := by
  obtain ⟨hyear, hmonth, hday, hms⟩ := ht
  obtain ⟨hhour, hminute, hsecond⟩ := unpack_millisecond h.minute_lt h.second_lt hms
  have hyear_lt := d.year.isLt
  have hms_lt := timespec.millisecond.isLt
  obtain ⟨year, month, day, hour, minute, second⟩ := d
  simp only [dateOf, rtcBaseYear, PTime.mk.injEq, ← BitVec.toNat_inj, BitVec.toNat_setWidth,
    BitVec.toNat_add, BitVec.toNat_udiv, BitVec.toNat_umod, BitVec.toNat_ofNat, Nat.reducePow,
    Nat.reduceMod]
  have hword : timespec.millisecond.toNat % 4294967296 = timespec.millisecond.toNat :=
    Nat.mod_eq_of_lt (hms_lt.trans (by norm_num))
  rw [hword, hhour, hminute, hsecond, hmonth, hday]
  have hbase := timespec.year.isLt
  refine ⟨?_, ?_, ?_, ?_, ?_, ?_⟩
  · dsimp only at hyear
    omega
  all_goals exact Nat.mod_eq_of_lt (BitVec.isLt _)

end

/-- Setting the clock and reading it gives the date back, for every date of the 256 years from the
base year on, whatever the leap years are. The sum of the milliseconds is exact and every field
fits. So every timestamp is converted to a date, and survives its way through the clock if the date
is of those years. -/
theorem clock_round_trip {ρ : Type*} (rtc : Rtc ρ) (s : ρ) :
    (∀ leap (d : PTime), d.IsValid leap → 1980 ≤ d.year.toNat → d.year.toNat < 1980 + 256 →
      d.millisecondOfDay < 2 ^ 27 ∧ (timespecOf d).Holds d ∧
      rtc.getTime (rtc.setTime d s) = d) ∧
    ∀ t, ∃ d, unixTimestamp2Date t = some d ∧
      (1980 ≤ d.year.toNat → d.year.toNat < 1980 + 256 →
        date2UnixTimestamp (rtc.getTime (rtc.setTime d s)) = some t) := by
  have hdate : ∀ leap (d : PTime), d.IsValid leap → 1980 ≤ d.year.toNat →
      d.year.toNat < 1980 + 256 → rtc.getTime (rtc.setTime d s) = d := by
    intro leap d h hbase hlast
    rw [rtc.getTime_setTime]
    exact (timespecOf_holds h hbase hlast).dateOf_eq h
  constructor
  · intro leap d h hbase hlast
    exact ⟨h.millisecondOfDay_lt.trans (by norm_num), timespecOf_holds h hbase hlast,
      hdate leap d h hbase hlast⟩
  · intro t
    obtain ⟨d, hd, hvalid, hseconds⟩ := unixTimestamp2Date_spec t
    refine ⟨d, hd, fun hbase hlast => ?_⟩
    rw [hdate julian d hvalid hbase hlast, date2UnixTimestamp_eq hvalid, hseconds,
      BitVec.ofNat_toNat, BitVec.setWidth_eq]

def lastStored : Rtc RTCDateTime where
  rtcSetTime timespec _ := timespec
  rtcGetTime := id
  get_set _ _ := rfl

/-- The last second of the range: the end of 2235. -/
theorem clock_end_of_2235 :
    (⟨2235#16, 12#8, 31#8, 23#8, 59#8, 59#8⟩ : PTime).IsValid julian ∧
    lastStored.getTime (lastStored.setTime ⟨2235#16, 12#8, 31#8, 23#8, 59#8, 59#8⟩
      ⟨0#8, 1#4, 1#5, 0#27⟩) = ⟨2235#16, 12#8, 31#8, 23#8, 59#8, 59#8⟩ := by
  have hvalid : (⟨2235#16, 12#8, 31#8, 23#8, 59#8, 59#8⟩ : PTime).IsValid julian :=
    ⟨⟨by decide, by decide, by decide, by decide, by decide⟩, by decide, by decide, by decide⟩
  obtain ⟨-, -, h⟩ := (clock_round_trip lastStored ⟨0#8, 1#4, 1#5, 0#27⟩).1 julian _ hvalid
    (by decide) (by decide)
  exact ⟨hvalid, h⟩

end WaferSat.Ptime
