import TrustFramework.Time.Calendar

/-!
# Counting days

A count of days is taken apart by cycles of years, and what is left of it by months.  Each step
leaves a rest that is shorter than the cycle, except at the end of a cycle that is longer by a leap
day: there the quotient is cut, so that the last day of a leap year stays in its year.

## Main definitions

* `daysInYear` — how many days a year has.

## Main results

* `year_of_days` — **the year of a count of days.**
* `monthFrom_spec` — **the month of a day of a year.**
* `Date.toDays_ofDays` — **a count of days comes back from its date.**
* `Date.IsDay.isValid_iff_toDays_lt`, `Date.isValid_ofDays_iff` — the years of four digits are
  those of the counts before the year 10000.
-/

namespace TrustFramework
namespace Time

/-! ### Years -/

/-- How many days a year has. -/
def daysInYear (year : Nat) : Nat := if isLeap year then 366 else 365

theorem isLeap_iff (year : Nat) :
    isLeap year = true ↔ year % 4 = 0 ∧ (year % 100 ≠ 0 ∨ year % 400 = 0) := by
  simp [isLeap]

/-- Years in cycles of four hundred, one hundred and four, and how many days there are before the
year that follows. -/
theorem daysBeforeYear_of_cycles {n400 n100 n4 n1 : Nat} (h100 : n100 ≤ 3) (h4 : n4 ≤ 24)
    (h1 : n1 ≤ 3) :
    daysBeforeYear (n400 * 400 + n100 * 100 + n4 * 4 + n1 + 1) =
      n400 * 146097 + n100 * 36524 + n4 * 1461 + n1 * 365 := by
  have hfours : (n400 * 400 + n100 * 100 + n4 * 4 + n1) / 4 = n400 * 100 + n100 * 25 + n4 := by
    omega
  have hhundreds : (n400 * 400 + n100 * 100 + n4 * 4 + n1) / 100 = n400 * 4 + n100 := by omega
  have hcycles : (n400 * 400 + n100 * 100 + n4 * 4 + n1) / 400 = n400 := by omega
  simp only [daysBeforeYear, Nat.add_sub_cancel, hfours, hhundreds, hcycles]
  omega

/-- The year that follows is longer if it ends a cycle of four, but for those of the cycles of one
hundred that do not end one of four hundred. -/
theorem isLeap_of_cycles (n400 : Nat) {n100 n4 n1 : Nat} (h100 : n100 ≤ 3) (h4 : n4 ≤ 24)
    (h1 : n1 ≤ 3) :
    isLeap (n400 * 400 + n100 * 100 + n4 * 4 + n1 + 1) = true ↔
      n1 = 3 ∧ (n4 ≠ 24 ∨ n100 = 3) := by
  rw [isLeap_iff]
  have hfours : (n400 * 400 + n100 * 100 + n4 * 4 + n1 + 1) % 4 = 0 ↔ n1 = 3 := by omega
  have hhundreds : (n400 * 400 + n100 * 100 + n4 * 4 + n1 + 1) % 100 = 0 ↔
      n4 = 24 ∧ n1 = 3 := by omega
  have hcycles : (n400 * 400 + n100 * 100 + n4 * 4 + n1 + 1) % 400 = 0 ↔
      n100 = 3 ∧ n4 = 24 ∧ n1 = 3 := by omega
  rw [hfours, ne_eq, hhundreds, hcycles]
  omega

/-- **The year of a count of days**: with those before it, what is left makes up the count, and it
fits into the year. -/
theorem year_of_days (days : Nat) :
    let n100 := min (days % 146097 / 36524) 3
    let r100 := days % 146097 - n100 * 36524
    let n1 := min (r100 % 1461 / 365) 3
    let r1 := r100 % 1461 - n1 * 365
    let year := days / 146097 * 400 + n100 * 100 + r100 / 1461 * 4 + n1 + 1
    daysBeforeYear year + r1 = days ∧ r1 < daysInYear year := by
  intro n100 r100 n1 r1 year
  have h100 : n100 ≤ 3 := Nat.min_le_right _ _
  have h4 : r100 / 1461 ≤ 24 := by omega
  have h1 : n1 ≤ 3 := Nat.min_le_right _ _
  have hleap := isLeap_of_cycles (days / 146097) h100 h4 h1
  rw [daysBeforeYear_of_cycles h100 h4 h1, daysInYear]
  constructor
  · omega
  · split
    · omega
    · next hcommon =>
      -- the last day of a cycle would be in a leap year
      rw [hleap] at hcommon
      omega

/-! ### Months -/

theorem daysBeforeMonth_succ (year : Nat) {month : Nat} (h : 1 ≤ month) :
    daysBeforeMonth year (month + 1) = daysBeforeMonth year month + daysInMonth year month := by
  obtain ⟨month, rfl⟩ := Nat.exists_eq_add_of_le' h
  rfl

/-- The months of a year have its days. -/
theorem daysBeforeMonth_thirteen (year : Nat) : daysBeforeMonth year 13 = daysInYear year := by
  cases hleap : isLeap year <;> simp [daysBeforeMonth, daysInMonth, daysInYear, hleap]

theorem daysBeforeMonth_mono (year : Nat) {first last : Nat} (h : first ≤ last) :
    daysBeforeMonth year first ≤ daysBeforeMonth year last := by
  induction h with
  | refl => exact Nat.le_refl _
  | @step last _ ih =>
    refine Nat.le_trans ih ?_
    cases last with
    | zero => exact Nat.le_refl _
    | succ last => exact Nat.le_add_right _ _

/-- **The month of a day of a year**: with those before it, the days of the month make up the days
of the year, and they fit into it. -/
theorem monthFrom_spec (year : Nat) {fuel month days : Nat} (hmonth : 1 ≤ month)
    (hfuel : month + fuel = 12)
    (hdays : daysBeforeMonth year month + days < daysInYear year) :
    let found := monthFrom year fuel month days
    1 ≤ found.1 ∧ found.1 ≤ 12 ∧ 1 ≤ found.2 ∧ found.2 ≤ daysInMonth year found.1 ∧
      daysBeforeMonth year found.1 + (found.2 - 1) = daysBeforeMonth year month + days := by
  induction fuel generalizing month days with
  | zero =>
    -- the last month ends with the year
    obtain rfl : month = 12 := hfuel
    rw [← daysBeforeMonth_thirteen, daysBeforeMonth_succ year hmonth] at hdays
    refine ⟨hmonth, Nat.le_refl _, Nat.succ_le_succ (Nat.zero_le _), ?_, rfl⟩
    show days + 1 ≤ daysInMonth year 12
    omega
  | succ fuel ih =>
    unfold monthFrom
    split
    · next hhere => exact ⟨hmonth, by omega, Nat.succ_le_succ (Nat.zero_le _), hhere, rfl⟩
    · next hlater =>
      have hnext : daysBeforeMonth year (month + 1) + (days - daysInMonth year month) =
          daysBeforeMonth year month + days := by
        rw [daysBeforeMonth_succ year hmonth]
        omega
      rw [← hnext] at hdays ⊢
      exact ih (Nat.le_add_left 1 month) (by omega) hdays

/-! ### Dates -/

namespace Date

/-- A date in the calendar, whatever its year. -/
structure IsDay (d : Date) : Prop where
  year : 1 ≤ d.year
  month : 1 ≤ d.month ∧ d.month ≤ 12
  day : 1 ≤ d.day ∧ d.day ≤ daysInMonth d.year d.month

theorem isValid_iff {d : Date} : d.isValid = true ↔ d.IsDay ∧ d.year ≤ maxYear := by
  constructor
  · intro h
    simp only [isValid, Bool.and_eq_true, decide_eq_true_eq] at h
    obtain ⟨⟨⟨⟨⟨hyear, hmax⟩, hfirst⟩, hlast⟩, hpositive⟩, hday⟩ := h
    exact ⟨⟨hyear, ⟨hfirst, hlast⟩, hpositive, hday⟩, hmax⟩
  · rintro ⟨⟨hyear, ⟨hfirst, hlast⟩, hpositive, hday⟩, hmax⟩
    simp [isValid, hyear, hmax, hfirst, hlast, hpositive, hday]

/-- The date of a count of days is in the calendar, and the count comes back from it. -/
theorem ofDays_spec (days : Nat) : (ofDays days).IsDay ∧ (ofDays days).toDays = days := by
  obtain ⟨year, rest, hyear, hcount, hrest, hdate⟩ :
      ∃ year rest, 1 ≤ year ∧ daysBeforeYear year + rest = days ∧ rest < daysInYear year ∧
        ofDays days =
          ⟨year, (monthFrom year 11 1 rest).1, (monthFrom year 11 1 rest).2⟩ :=
    ⟨_, _, Nat.le_add_left 1 _, (year_of_days days).1, (year_of_days days).2, rfl⟩
  have hstart : daysBeforeMonth year 1 + rest = rest := Nat.zero_add rest
  obtain ⟨hfirst, hlast, hpositive, hday, hdays⟩ :=
    monthFrom_spec year (Nat.le_refl 1) (show 1 + 11 = 12 from rfl) (hstart ▸ hrest)
  rw [hdate]
  refine ⟨⟨hyear, ⟨hfirst, hlast⟩, hpositive, hday⟩, ?_⟩
  rw [toDays, Nat.add_assoc, hdays, hstart, hcount]

/-- **A count of days comes back from its date.** -/
theorem toDays_ofDays (days : Nat) : (ofDays days).toDays = days := (ofDays_spec days).2

example : (ofDays 1460, ofDays 1461) = (⟨4, 12, 31⟩, ⟨5, 1, 1⟩) := by decide

/-- A date in the calendar is one of the days of its year. -/
theorem IsDay.toDays_lt {d : Date} (h : d.IsDay) :
    d.toDays < daysBeforeYear d.year + daysInYear d.year := by
  obtain ⟨-, ⟨hfirst, hlast⟩, hpositive, hday⟩ := h
  have hmonth : daysBeforeMonth d.year d.month + daysInMonth d.year d.month ≤
      daysInYear d.year := by
    rw [← daysBeforeMonth_succ d.year hfirst, ← daysBeforeMonth_thirteen]
    exact daysBeforeMonth_mono d.year (Nat.succ_le_succ hlast)
  rw [toDays]
  omega

/-- The days before the year 10000. -/
theorem daysBeforeYear_maxYear_succ : daysBeforeYear (maxYear + 1) = 3652059 := by decide

/-- **A date has no more than four digits in its year** if it comes before the year 10000. -/
theorem IsDay.isValid_iff_toDays_lt {d : Date} (h : d.IsDay) :
    d.isValid = true ↔ d.toDays < daysBeforeYear (maxYear + 1) := by
  rw [isValid_iff, and_iff_right h, daysBeforeYear_maxYear_succ]
  have hafter : d.toDays < daysBeforeYear d.year + daysInYear d.year := h.toDays_lt
  have hbefore : daysBeforeYear d.year ≤ d.toDays := by
    rw [toDays]
    omega
  constructor
  · intro hmax
    obtain hlast | hless : d.year = 9999 ∨ d.year < 9999 := by
      rw [maxYear] at hmax
      omega
    · have hlong : daysBeforeYear 9999 + daysInYear 9999 = 3652059 := by decide
      rwa [hlast, hlong] at hafter
    · have hlong : daysInYear d.year ≤ 366 := by
        rw [daysInYear]
        split <;> omega
      rw [daysBeforeYear] at hafter
      omega
  · intro hcount
    rw [daysBeforeYear] at hbefore
    rw [maxYear]
    omega

/-- The dates in the calendar are those of the counts of days before the year 10000. -/
theorem isValid_ofDays_iff (days : Nat) :
    (ofDays days).isValid = true ↔ days < daysBeforeYear (maxYear + 1) := by
  rw [(ofDays_spec days).1.isValid_iff_toDays_lt, toDays_ofDays]

end Date

end Time
end TrustFramework
