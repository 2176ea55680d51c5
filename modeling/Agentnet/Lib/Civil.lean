import Mathlib.Data.Int.Basic

/-! The proleptic Gregorian calendar by days since 1970-01-01. Years are counted from the first of
March, in eras of 400 years. -/

namespace Agentnet.Lib.Civil

structure Date where
  year : Int
  month : Int
  day : Int
  deriving DecidableEq

def era (days : Int) : Int := (days + 719468) / 146097

/-- The day within its 400 years, which start in March. -/
def dayOfEra (days : Int) : Int := (days + 719468) % 146097

def yearOfEra (doe : Int) : Int := (doe - doe / 1460 + doe / 36524 - doe / 146096) / 365

def dayOfYear (doe : Int) : Int := doe - (365 * yearOfEra doe + yearOfEra doe / 4 - yearOfEra doe / 100)

def monthOfYear (doy : Int) : Int := (5 * doy + 2) / 153

def fromMarch (mp : Int) : Int := if mp < 10 then mp + 3 else mp - 9

def sinceMarch (month : Int) : Int := if 2 < month then month - 3 else month + 9

/-- January and February belong to the year that is counted before. -/
def carry (month : Int) : Int := if month ≤ 2 then 1 else 0

/-- The date of a day, counted from 1970-01-01. -/
def ofDays (days : Int) : Date :=
  let doe := dayOfEra days
  let mp := monthOfYear (dayOfYear doe)
  { year := yearOfEra doe + era days * 400 + carry (fromMarch mp)
    month := fromMarch mp
    day := dayOfYear doe - (153 * mp + 2) / 5 + 1 }

def Date.toDays (d : Date) : Int :=
  let y := d.year - carry d.month
  let doy := (153 * sinceMarch d.month + 2) / 5 + d.day - 1
  y / 400 * 146097 + (y % 400 * 365 + y % 400 / 4 - y % 400 / 100 + doy) - 719468

theorem days_eq (days : Int) : days = era days * 146097 + dayOfEra days - 719468 := by
  rw [era, dayOfEra]
  omega

/-- An era is 400 years long. -/
theorem dayOfEra_range (days : Int) : 0 ≤ dayOfEra days ∧ dayOfEra days ≤ 146096 := by
  rw [dayOfEra]
  omega

section Era

variable {doe : Int} (range : 0 ≤ doe ∧ doe ≤ 146096)
include range

theorem yearOfEra_range : 0 ≤ yearOfEra doe ∧ yearOfEra doe ≤ 399 := by
  rw [yearOfEra]
  omega

theorem dayOfYear_range : 0 ≤ dayOfYear doe ∧ dayOfYear doe ≤ 365 := by
  have parts : doe = 146096 ∨ doe < 146096 := by omega
  obtain rfl | before := parts
  · decide
  · rw [dayOfYear]
    generalize e : yearOfEra doe = yoe
    have last : doe / 146096 = 0 := by omega
    rw [yearOfEra, last] at e
    -- The century and the leap cycle are known but for one, which leaves linear arithmetic.
    have century : yoe / 100 = doe / 36524 := by omega
    have centuries : doe / 36524 = 0 ∨ doe / 36524 = 1 ∨ doe / 36524 = 2 ∨ doe / 36524 = 3 := by omega
    have cycle : yoe / 4 = doe / 1460 ∨ yoe / 4 + 1 = doe / 1460 := by
      obtain c | c | c | c := centuries <;> rw [c] at e <;> omega
    obtain c | c | c | c := centuries <;> rw [c] at e century <;> obtain q | q := cycle <;> omega

theorem monthOfYear_range : 0 ≤ monthOfYear (dayOfYear doe) ∧ monthOfYear (dayOfYear doe) ≤ 11 := by
  have doy := dayOfYear_range range
  rw [monthOfYear]
  omega

end Era

theorem sinceMarch_fromMarch {mp : Int} (h : 0 ≤ mp ∧ mp ≤ 11) : sinceMarch (fromMarch mp) = mp := by
  rw [sinceMarch, fromMarch]
  split <;> split <;> omega

theorem ofDays_month (days : Int) : 1 ≤ (ofDays days).month ∧ (ofDays days).month ≤ 12 := by
  have mp := monthOfYear_range (dayOfEra_range days)
  rw [ofDays, fromMarch]
  dsimp only
  split <;> omega

theorem ofDays_day (days : Int) : 1 ≤ (ofDays days).day ∧ (ofDays days).day ≤ 31 := by
  have doy := dayOfYear_range (dayOfEra_range days)
  simp only [ofDays, monthOfYear]
  omega

/-- The days whose year has four digits. -/
theorem ofDays_year (days : Int) :
    (0 ≤ (ofDays days).year ∧ (ofDays days).year ≤ 9999) ↔ (-719528 ≤ days ∧ days ≤ 2932896) := by
  have range := dayOfEra_range days
  have yoe := yearOfEra_range range
  have mp := monthOfYear_range range
  have parts := days_eq days
  have carried : carry (fromMarch (monthOfYear (dayOfYear (dayOfEra days)))) =
      if monthOfYear (dayOfYear (dayOfEra days)) < 10 then 0 else 1 := by
    rw [carry, fromMarch]
    split <;> split <;> omega
  simp only [ofDays, carried]
  generalize dayOfEra days = doe at *
  -- The year changes within an era at the first of January, sixty days before its end.
  have last : 146037 ≤ doe → yearOfEra doe = 399 ∧ ¬monthOfYear (dayOfYear doe) < 10 := by
    intro late
    have year : yearOfEra doe = 399 := by
      rw [yearOfEra]
      omega
    refine ⟨year, ?_⟩
    rw [monthOfYear, dayOfYear, year]
    omega
  have before : doe ≤ 146036 → yearOfEra doe = 399 → monthOfYear (dayOfYear doe) < 10 := by
    intro early year
    rw [monthOfYear, dayOfYear, year]
    omega
  by_cases late : 146037 ≤ doe
  · obtain ⟨year, winter⟩ := last late
    rw [if_neg winter, year]
    omega
  · have summer := before (by omega)
    split
    · omega
    · omega

theorem toDays_ofDays (days : Int) : (ofDays days).toDays = days := by
  have yoe := yearOfEra_range (dayOfEra_range days)
  have mp := monthOfYear_range (dayOfEra_range days)
  have parts := days_eq days
  simp only [ofDays, Date.toDays, sinceMarch_fromMarch mp, Int.add_sub_cancel]
  generalize (153 * monthOfYear (dayOfYear (dayOfEra days)) + 2) / 5 = start
  have year : (yearOfEra (dayOfEra days) + era days * 400) / 400 = era days ∧
      (yearOfEra (dayOfEra days) + era days * 400) % 400 = yearOfEra (dayOfEra days) := by omega
  rw [year.1, year.2, dayOfYear]
  omega

theorem yearOfEra_mono {doe doe' : Int} (le : doe ≤ doe') : yearOfEra doe ≤ yearOfEra doe' := by
  have leap : doe - doe / 1460 ≤ doe' - doe' / 1460 := by omega
  have century : doe / 36524 ≤ doe' / 36524 := Int.ediv_le_ediv (by decide) le
  have eras : ∀ x : Int, x / 146096 = x / 36524 / 4 := fun x => by rw [Int.ediv_ediv_of_nonneg (by decide)]; rfl
  rw [yearOfEra, yearOfEra, eras, eras]
  generalize doe / 36524 = c at *
  generalize doe' / 36524 = c' at *
  exact Int.ediv_le_ediv (by decide) (by omega)

/-- The number of the month. -/
def Date.months (d : Date) : Int := d.year * 12 + d.month

theorem months_ofDays (days : Int) :
    (ofDays days).months = (yearOfEra (dayOfEra days) + era days * 400) * 12 + monthOfYear
      (dayOfYear (dayOfEra days)) + 3 := by
  have mp := monthOfYear_range (dayOfEra_range days)
  simp only [Date.months, ofDays, carry, fromMarch]
  split <;> split <;> omega

/-- Later days have later dates. -/
theorem ofDays_mono {days days' : Int} (le : days ≤ days') : (ofDays days).months < (ofDays days').months ∨
      ((ofDays days).months = (ofDays days').months ∧ (ofDays days).day ≤ (ofDays days').day) := by
  have range := dayOfEra_range days
  have range' := dayOfEra_range days'
  have yoe := yearOfEra_range range
  have yoe' := yearOfEra_range range'
  have mp := monthOfYear_range range
  have mp' := monthOfYear_range range'
  have eras : era days ≤ era days' := Int.ediv_le_ediv (by decide) (by omega)
  have parts := days_eq days
  have parts' := days_eq days'
  rw [months_ofDays, months_ofDays]
  by_cases year : yearOfEra (dayOfEra days) + era days * 400 = yearOfEra (dayOfEra days') + era days' * 400
  · have same : era days = era days' ∧ yearOfEra (dayOfEra days) = yearOfEra (dayOfEra days') := by omega
    have doy : dayOfYear (dayOfEra days) ≤ dayOfYear (dayOfEra days') := by
      rw [dayOfYear, dayOfYear, same.2]
      omega
    have month : monthOfYear (dayOfYear (dayOfEra days)) ≤ monthOfYear (dayOfYear (dayOfEra days')) :=
      Int.ediv_le_ediv (by decide) (by omega)
    rw [year]
    simp only [ofDays]
    obtain before | here := Int.lt_or_eq_of_le month
    · exact .inl (by omega)
    · rw [here]
      exact .inr ⟨rfl, by omega⟩
  · have years : yearOfEra (dayOfEra days) + era days * 400 < yearOfEra (dayOfEra days') + era days' * 400 := by
      by_cases same : era days = era days'
      · have := yearOfEra_mono (show dayOfEra days ≤ dayOfEra days' by omega)
        omega
      · omega
    exact .inl (by omega)
end Agentnet.Lib.Civil
