import Mathlib.Algebra.BigOperators.Intervals
import Mathlib.Algebra.Order.BigOperators.Group.Finset
import Mathlib.Tactic.IntervalCases

/-! Calendars with a leap day in February. Years and months are stretches of days laid end to
end, so a date is a place in nested stretches; which years are leap is a parameter. -/
namespace Calendar

section Stretches

variable {ℓ ℓ' : ℕ → ℕ} {a k k' r r' : ℕ}

/-- Where stretch `k` begins when stretches of lengths `ℓ` are laid end to end from stretch `a`
on. -/
def offset (ℓ : ℕ → ℕ) (a k : ℕ) : ℕ := ∑ i ∈ Finset.Ico a k, ℓ i

@[simp] theorem offset_self (ℓ : ℕ → ℕ) (a : ℕ) : offset ℓ a a = 0 := by simp [offset]

theorem offset_succ (h : a ≤ k) : offset ℓ a (k + 1) = offset ℓ a k + ℓ k :=
  Finset.sum_Ico_succ_top h ℓ

theorem offset_mono (h : k ≤ k') : offset ℓ a k ≤ offset ℓ a k' :=
  Finset.sum_le_sum_of_subset (Finset.Ico_subset_Ico_right h)

theorem offset_congr (h : ∀ i, a ≤ i → i < k → ℓ i = ℓ' i) : offset ℓ a k = offset ℓ' a k := by
  refine Finset.sum_congr rfl fun i hi => ?_
  rw [Finset.mem_Ico] at hi
  exact h i hi.1 hi.2

theorem offset_add_lt (hk : a ≤ k) (hr : r < ℓ k) (h : k < k') :
    offset ℓ a k + r < offset ℓ a k' := by
  have hnext : offset ℓ a (k + 1) ≤ offset ℓ a k' := offset_mono h
  rw [offset_succ hk] at hnext
  omega

theorem offset_add_inj (hk : a ≤ k) (hk' : a ≤ k') (hr : r < ℓ k) (hr' : r' < ℓ k')
    (h : offset ℓ a k + r = offset ℓ a k' + r') : k = k' ∧ r = r' := by
  rcases Nat.lt_trichotomy k k' with hlt | rfl | hlt
  · have hle := offset_add_lt hk hr hlt
    omega
  · exact ⟨rfl, by omega⟩
  · have hle := offset_add_lt hk' hr' hlt
    omega

end Stretches

structure Date where
  year : ℕ
  month : ℕ
  day : ℕ
  deriving DecidableEq, Repr

/-- The days of each month, in a leap year or a common one. -/
def monthLength (leap : Bool) : ℕ → ℕ
  | 1 | 3 | 5 | 7 | 8 | 10 | 12 => 31
  | 4 | 6 | 9 | 11 => 30
  | 2 => if leap then 29 else 28
  | _ => 0

def yearLength (leap : Bool) : ℕ := if leap then 366 else 365

theorem offset_months (leap : Bool) : offset (monthLength leap) 1 13 = yearLength leap := by
  cases leap <;> decide

theorem monthLength_pos (leap : Bool) {m : ℕ} (h1 : 1 ≤ m) (h12 : m ≤ 12) :
    0 < monthLength leap m := by
  cases leap <;> interval_cases m <;> decide

variable (leap : ℕ → Bool) (epoch : ℕ)

/-- A date from the epoch on. -/
structure IsDate (d : Date) : Prop where
  year_ge : epoch ≤ d.year
  month_ge : 1 ≤ d.month
  month_le : d.month ≤ 12
  day_ge : 1 ≤ d.day
  day_le : d.day ≤ monthLength (leap d.year) d.month

/-- The days of the year before a date. -/
def dayOfYear (d : Date) : ℕ := offset (monthLength (leap d.year)) 1 d.month + (d.day - 1)

/-- The days from the first of January of the epoch to a date. -/
def dayNumber (d : Date) : ℕ :=
  offset (fun y => yearLength (leap y)) epoch d.year + dayOfYear leap d

variable {leap epoch} {d d' : Date}

theorem IsDate.dayOfYear_lt (h : IsDate leap epoch d) :
    dayOfYear leap d < yearLength (leap d.year) := by
  have hge := h.day_ge
  have hle := h.day_le
  have hmonth := h.month_le
  rw [← offset_months]
  exact offset_add_lt h.month_ge (by omega) (by omega)

theorem IsDate.dayNumber_lt (h : IsDate leap epoch d) {y : ℕ} (hy : d.year < y) :
    dayNumber leap epoch d < offset (fun y => yearLength (leap y)) epoch y :=
  offset_add_lt h.year_ge h.dayOfYear_lt hy

theorem IsDate.eq_of_dayNumber_eq (h : IsDate leap epoch d) (h' : IsDate leap epoch d')
    (heq : dayNumber leap epoch d = dayNumber leap epoch d') : d = d' := by
  obtain ⟨y, m, n⟩ := d
  obtain ⟨y', m', n'⟩ := d'
  obtain ⟨rfl, hday⟩ : y = y' ∧ _ :=
    offset_add_inj h.year_ge h'.year_ge h.dayOfYear_lt h'.dayOfYear_lt heq
  have hge := h.day_ge
  have hge' := h'.day_ge
  have hle := h.day_le
  have hle' := h'.day_le
  dsimp only at hge hge' hle hle'
  obtain ⟨rfl, hn⟩ : m = m' ∧ n - 1 = n' - 1 :=
    offset_add_inj h.month_ge h'.month_ge (by dsimp only; omega) (by dsimp only; omega) hday
  obtain rfl : n = n' := by omega
  rfl

theorem IsDate.dayNumber_lt_of_lt (h : IsDate leap epoch d)
    (hlt : d.year < d'.year ∨ d.year = d'.year ∧
      (d.month < d'.month ∨ d.month = d'.month ∧ d.day < d'.day)) :
    dayNumber leap epoch d < dayNumber leap epoch d' := by
  rcases hlt with hyear | ⟨hyear, hlt⟩
  · exact (h.dayNumber_lt hyear).trans_le (Nat.le_add_right _ _)
  · have hge := h.day_ge
    have hle := h.day_le
    unfold dayNumber dayOfYear
    rw [← hyear]
    refine Nat.add_lt_add_left ?_ _
    rcases hlt with hmonth | ⟨hmonth, hday⟩
    · exact (offset_add_lt h.month_ge (by omega) hmonth).trans_le (Nat.le_add_right _ _)
    · rw [← hmonth]
      omega

def nextDay (leap : ℕ → Bool) (d : Date) : Date :=
  if d.day < monthLength (leap d.year) d.month then ⟨d.year, d.month, d.day + 1⟩
  else if d.month < 12 then ⟨d.year, d.month + 1, 1⟩
  else ⟨d.year + 1, 1, 1⟩

/-- The date reached from the first of January of the epoch by going on `n` days. -/
def nthDay (leap : ℕ → Bool) (epoch : ℕ) : ℕ → Date
  | 0 => ⟨epoch, 1, 1⟩
  | n + 1 => nextDay leap (nthDay leap epoch n)

theorem IsDate.nextDay (h : IsDate leap epoch d) :
    IsDate leap epoch (nextDay leap d) ∧
    dayNumber leap epoch (nextDay leap d) = dayNumber leap epoch d + 1 := by
  obtain ⟨y, m, n⟩ := d
  obtain ⟨hy, hm1, hm12, hn1, hn⟩ := h
  dsimp only at hy hm1 hm12 hn1 hn
  unfold Calendar.nextDay
  dsimp only
  split_ifs with hday hmonth
  · refine ⟨⟨hy, hm1, hm12, Nat.le_add_left _ _, hday⟩, ?_⟩
    simp only [dayNumber, dayOfYear]
    omega
  · have hpos := monthLength_pos (leap y) (Nat.le_add_left 1 m) hmonth
    refine ⟨⟨hy, Nat.le_add_left _ _, hmonth, le_rfl, hpos⟩, ?_⟩
    simp only [dayNumber, dayOfYear, offset_succ hm1]
    omega
  · obtain rfl : m = 12 := by omega
    refine ⟨⟨Nat.le_succ_of_le hy, le_rfl, Nat.le_add_left 1 11, le_rfl, Nat.le_add_left 1 30⟩, ?_⟩
    have hyear := offset_months (leap y)
    rw [offset_succ (by decide : 1 ≤ 12)] at hyear
    simp only [dayNumber, dayOfYear, offset_succ hy, offset_self]
    omega

theorem isDate_epoch : IsDate leap epoch ⟨epoch, 1, 1⟩ :=
  ⟨le_rfl, le_rfl, Nat.le_add_left 1 11, le_rfl, Nat.le_add_left 1 30⟩

/-- Counting days by the calendar agrees with the sums of lengths. -/
theorem nthDay_spec (leap : ℕ → Bool) (epoch n : ℕ) :
    IsDate leap epoch (nthDay leap epoch n) ∧ dayNumber leap epoch (nthDay leap epoch n) = n := by
  induction n with
  | zero => exact ⟨isDate_epoch, by simp [nthDay, dayNumber, dayOfYear]⟩
  | succ n ih =>
    obtain ⟨hdate, hnumber⟩ := ih.1.nextDay
    exact ⟨hdate, hnumber.trans (congrArg (· + 1) ih.2)⟩

theorem IsDate.nthDay_dayNumber (h : IsDate leap epoch d) :
    nthDay leap epoch (dayNumber leap epoch d) = d :=
  (nthDay_spec leap epoch _).1.eq_of_dayNumber_eq h (nthDay_spec leap epoch _).2

/-- Two rules that agree on the years before `y` number the dates alike up to the end of February
of that year. -/
theorem dayNumber_congr {leap' : ℕ → Bool} {y : ℕ}
    (hrule : ∀ i, epoch ≤ i → i < y → leap i = leap' i)
    (hd : d.year < y ∨ d.year = y ∧ d.month ≤ 2) (hy : epoch ≤ d.year) :
    dayNumber leap epoch d = dayNumber leap' epoch d := by
  have hyears : offset (fun y => yearLength (leap y)) epoch d.year =
      offset (fun y => yearLength (leap' y)) epoch d.year := by
    refine offset_congr fun i hi hlt => ?_
    rw [hrule i hi (by omega)]
  have hmonths : offset (monthLength (leap d.year)) 1 d.month =
      offset (monthLength (leap' d.year)) 1 d.month := by
    rcases hd with hlt | ⟨-, hm⟩
    · rw [hrule d.year hy hlt]
    · refine offset_congr fun i hi hlt => ?_
      obtain rfl : i = 1 := by omega
      rfl
  rw [dayNumber, dayNumber, dayOfYear, dayOfYear, hyears, hmonths]

end Calendar
