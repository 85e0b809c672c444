import WaferSat.Foundation.Calendar
import Mathlib.Data.BitVec

/-!
The date conversions of `ptime.c`. Both directions use the rule that every fourth year is leap and
two tables of the days before each month. Fields keep their widths, sums are those of 32-bit
words, and an index outside a table has no value.
-/
namespace WaferSat.Ptime
open Calendar

/-- `ptime_t` -/
structure PTime where
  year : BitVec 16
  month : BitVec 8
  day : BitVec 8
  hour : BitVec 8
  minute : BitVec 8
  second : BitVec 8
  deriving DecidableEq, Repr

def nonLeapYear : List (BitVec 16) :=
  [0#16, 31#16, 59#16, 90#16, 120#16, 151#16, 181#16, 212#16, 243#16, 273#16, 304#16, 334#16,
    365#16]

def leapYear : List (BitVec 16) :=
  [0#16, 31#16, 60#16, 91#16, 121#16, 152#16, 182#16, 213#16, 244#16, 274#16, 305#16, 335#16,
    366#16]

def tableOf (year : BitVec 16) : List (BitVec 16) :=
  if year % 4#16 = 0#16 then leapYear else nonLeapYear

def entry (table : List (BitVec 16)) (i : ℤ) : Option (BitVec 32) :=
  if 0 ≤ i then table[i.toNat]?.map (·.setWidth 32) else none

/-- The loop of `date2UnixTimestamp` over the years, from year `i` on. -/
def addYears (i year : BitVec 16) (timeC : BitVec 32) : BitVec 32 :=
  if i < year then
    addYears (i + 1#16) year
      (if i % 4#16 = 0#16 then timeC + 31622400#32 else timeC + 31536000#32)
  else timeC
termination_by year.toNat - i.toNat
decreasing_by
  have hlt : i < year := by assumption
  rw [BitVec.lt_def] at hlt
  rw [BitVec.toNat_add, BitVec.toNat_ofNat]
  omega

def date2UnixTimestamp (date : PTime) : Option (BitVec 32) := do
  let timeC := date.second.setWidth 32
  let timeC := timeC + date.minute.setWidth 32 * 60#32
  let timeC := timeC + date.hour.setWidth 32 * 3600#32
  let timeC := timeC + (date.day.setWidth 32 - 1#32) * 86400#32
  let days ← entry (tableOf date.year) (date.month.toNat - 1)
  return addYears 1970#16 date.year (timeC + days * 86400#32)

def secondsInThisYear (year : BitVec 16) : BitVec 32 :=
  if year % 4#16 = 0#16 then 31622400#32 else 31536000#32

theorem secondsInThisYear_ge (year : BitVec 16) : 31536000 ≤ (secondsInThisYear year).toNat := by
  unfold secondsInThisYear
  split_ifs <;> decide

/-- The loop of `unixTimestamp2Date` over the years. -/
def takeYears (year : BitVec 16) (time : BitVec 32) : BitVec 16 × BitVec 32 :=
  if time ≥ secondsInThisYear year then takeYears (year + 1#16) (time - secondsInThisYear year)
  else (year, time)
termination_by time.toNat
decreasing_by
  have hge : secondsInThisYear year ≤ time := by assumption
  have hpos := secondsInThisYear_ge year
  have hle := BitVec.le_def.mp hge
  rw [BitVec.toNat_sub_of_le hge]
  omega

theorem lt_of_entry_tableOf {year : BitVec 16} {m : ℕ} {days : BitVec 32}
    (h : entry (tableOf year) m = some days) : m < 13 := by
  have hlen : (tableOf year).length = 13 := by
    unfold tableOf
    split_ifs <;> rfl
  rw [entry, if_pos (Int.natCast_nonneg m), Option.map_eq_some_iff] at h
  obtain ⟨w, hw, -⟩ := h
  obtain ⟨hm, -⟩ := List.getElem?_eq_some_iff.mp hw
  rw [hlen] at hm
  exact hm

/-- The loop over the months; it compares with the table until an entry is larger. -/
def findMonth (year : BitVec 16) (time : BitVec 32) (month : BitVec 8) : Option (BitVec 8) :=
  match _h : entry (tableOf year) month.toNat with
  | none => none
  | some days => if days * 86400#32 ≤ time then findMonth year time (month + 1#8) else some month
termination_by 13 - month.toNat
decreasing_by
  have hlt := lt_of_entry_tableOf (by assumption)
  rw [BitVec.toNat_add, BitVec.toNat_ofNat]
  omega

def unixTimestamp2Date (time : BitVec 32) : Option PTime := do
  let r := takeYears 1970#16 time
  let month ← findMonth r.1 r.2 1#8
  let days ← entry (tableOf r.1) (month.toNat - 1)
  let time := r.2 - days * 86400#32
  return {
    year := r.1
    month := month
    day := (time / 86400#32 + 1#32).setWidth 8
    hour := (time % 86400#32 / 3600#32).setWidth 8
    minute := (time % 3600#32 / 60#32).setWidth 8
    second := (time % 60#32).setWidth 8 }

/-- The rule of both functions: every fourth year is leap. -/
def julian (y : ℕ) : Bool := y % 4 = 0

namespace PTime

def date (d : PTime) : Date := ⟨d.year.toNat, d.month.toNat, d.day.toNat⟩

def secondOfDay (d : PTime) : ℕ := d.hour.toNat * 3600 + d.minute.toNat * 60 + d.second.toNat

/-- The seconds from the start of 1970. -/
def seconds (leap : ℕ → Bool) (d : PTime) : ℕ := 86400 * dayNumber leap 1970 d.date + d.secondOfDay

/-- A date from 1970 on, by the given rule for leap years, and a time of day. -/
structure IsValid (leap : ℕ → Bool) (d : PTime) : Prop where
  date : IsDate leap 1970 d.date
  hour_lt : d.hour.toNat < 24
  minute_lt : d.minute.toNat < 60
  second_lt : d.second.toNat < 60

end PTime

end WaferSat.Ptime
