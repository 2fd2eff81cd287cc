import Mathlib

namespace Calendar

/-- The days from 1970-01-01 to the first day of a year of the proleptic Gregorian calendar. -/
def dayFromYear (y : ℤ) : ℤ :=
  365 * (y - 1970) + (y - 1969) / 4 - (y - 1901) / 100 + (y - 1601) / 400

def leapYear (y : ℤ) : Bool := y % 4 = 0 && (y % 100 ≠ 0 || y % 400 = 0)

def yearLength (leap : Bool) : ℕ := if leap then 366 else 365

/-- The year that a day lies in: an estimate by the mean length of a year, set right. -/
def yearFromDay (d : ℤ) : ℤ :=
  let y := 1970 + 400 * d / 146097
  if d < dayFromYear y then y - 1 else if dayFromYear (y + 1) ≤ d then y + 1 else y

theorem dayFromYear_succ (y : ℤ) :
    dayFromYear (y + 1) = dayFromYear y + yearLength (leapYear y) := by
  by_cases h4 : y % 4 = 0 <;> by_cases h100 : y % 100 = 0 <;> by_cases h400 : y % 400 = 0 <;>
    simp only [dayFromYear, leapYear, yearLength, h4, h100, h400, ne_eq, not_true_eq_false,
      not_false_eq_true, decide_true, decide_false, Bool.and_true, Bool.and_false, Bool.or_true,
      Bool.or_false, if_true, Bool.false_eq_true, if_false] <;>
    omega

theorem yearFromDay_spec (d : ℤ) :
    dayFromYear (yearFromDay d) ≤ d ∧ d < dayFromYear (yearFromDay d + 1) := by
  simp only [yearFromDay]
  split
  · next h =>
    constructor
    · simp only [dayFromYear] at *
      omega
    · simpa using h
  · split
    · next h =>
      refine ⟨h, ?_⟩
      simp only [dayFromYear] at *
      omega
    · next h h' => exact ⟨not_lt.1 h, not_le.1 h'⟩

def dayOfYear (d : ℤ) : ℕ := (d - dayFromYear (yearFromDay d)).toNat

theorem dayFromYear_add_dayOfYear (d : ℤ) :
    dayFromYear (yearFromDay d) + dayOfYear d = d := by
  have hspec := yearFromDay_spec d
  rw [dayOfYear]
  omega

theorem dayOfYear_lt (d : ℤ) : dayOfYear d < yearLength (leapYear (yearFromDay d)) := by
  have hspec := yearFromDay_spec d
  rw [dayFromYear_succ] at hspec
  rw [dayOfYear]
  omega

def daysBefore (leap : Bool) (month : ℕ) : ℕ :=
  [0, 31, 59, 90, 120, 151, 181, 212, 243, 273, 304, 334].getD (month - 1) 365 +
    if leap ∧ 3 ≤ month then 1 else 0

def monthFromDay (leap : Bool) (day : ℕ) : ℕ :=
  (List.range' 1 12).countP fun month => daysBefore leap month ≤ day

theorem monthFromDay_spec (leap : Bool) {day : ℕ} (h : day < yearLength leap) :
    1 ≤ monthFromDay leap day ∧ monthFromDay leap day ≤ 12 ∧
      daysBefore leap (monthFromDay leap day) ≤ day ∧
      day < daysBefore leap (monthFromDay leap day + 1) := by
  revert day
  cases leap <;> decide +kernel

def monthLength (leap : Bool) (month : ℕ) : ℕ := daysBefore leap (month + 1) - daysBefore leap month

/-- A date of the proleptic Gregorian calendar. -/
@[ext] structure Date where
  year : ℤ
  month : ℕ
  day : ℕ
  month_pos : 1 ≤ month
  month_le : month ≤ 12
  day_pos : 1 ≤ day
  day_le : day ≤ monthLength (leapYear year) month
deriving DecidableEq

namespace Date

/-- The days from 1970-01-01 to the date. -/
def toDay (date : Date) : ℤ :=
  dayFromYear date.year + daysBefore (leapYear date.year) date.month + (date.day - 1)

def ofDay (d : ℤ) : Date where
  year := yearFromDay d
  month := monthFromDay (leapYear (yearFromDay d)) (dayOfYear d)
  day := dayOfYear d - daysBefore (leapYear (yearFromDay d))
    (monthFromDay (leapYear (yearFromDay d)) (dayOfYear d)) + 1
  month_pos := (monthFromDay_spec _ (dayOfYear_lt d)).1
  month_le := (monthFromDay_spec _ (dayOfYear_lt d)).2.1
  day_pos := Nat.le_add_left 1 _
  day_le := by
    have hmonth := monthFromDay_spec _ (dayOfYear_lt d)
    rw [monthLength]
    omega

theorem toDay_ofDay (d : ℤ) : (ofDay d).toDay = d := by
  have hyear := dayFromYear_add_dayOfYear d
  have hmonth := monthFromDay_spec _ (dayOfYear_lt d)
  simp only [toDay, ofDay]
  omega

theorem day_le_31 (date : Date) : date.day ≤ 31 := by
  have hall : ∀ leap : Bool, ∀ month < 13, 1 ≤ month → monthLength leap month ≤ 31 := by decide
  have hmonth := date.month_le
  exact date.day_le.trans (hall _ _ (by omega) date.month_pos)

theorem ofDay_injective : Function.Injective ofDay :=
  Function.LeftInverse.injective toDay_ofDay

end Date

def decimal (width n : ℕ) : String :=
  String.ofList ((Nat.digits 10 n ++
    List.replicate (width - (Nat.digits 10 n).length) 0).reverse.map Nat.digitChar)

def number (text : String) : ℕ :=
  Nat.ofDigits 10 (text.toList.map fun c => c.toNat - '0'.toNat).reverse

theorem number_decimal (width n : ℕ) : number (decimal width n) = n := by
  have hdigit : ∀ d < 10, (Nat.digitChar d).toNat - '0'.toNat = d := by decide
  have hback : ((Nat.digits 10 n ++ List.replicate (width - (Nat.digits 10 n).length) 0).map
      fun d => (Nat.digitChar d).toNat - '0'.toNat) =
      Nat.digits 10 n ++ List.replicate (width - (Nat.digits 10 n).length) 0 := by
    rw [List.map_congr_left (g := id), List.map_id]
    intro d hd
    rcases List.mem_append.1 hd with hdigits | hzero
    · exact hdigit d (Nat.digits_lt_base (by norm_num) hdigits)
    · rw [(List.mem_replicate.1 hzero).2]
      rfl
  rw [number, decimal, String.toList_ofList, List.map_map, ← List.map_reverse, List.reverse_reverse]
  exact (congrArg (Nat.ofDigits 10) hback).trans
    ((Nat.ofDigits_append_replicate_zero _).trans (Nat.ofDigits_digits 10 n))

theorem decimal_inj {width m n : ℕ} : decimal width m = decimal width n ↔ m = n := by
  refine ⟨?_, congrArg _⟩
  intro h
  have hnumber := congrArg number h
  rwa [number_decimal, number_decimal] at hnumber

theorem length_decimal {width n : ℕ} (h : n < 10 ^ width) :
    (decimal width n).toList.length = width := by
  have hle := (Nat.digits_length_le_iff (by norm_num : 1 < 10) n).2 h
  simp only [decimal, String.toList_ofList, List.length_map, List.length_reverse,
    List.length_append, List.length_replicate]
  omega

theorem isDigit_of_mem_decimal {width n : ℕ} {c : Char} (h : c ∈ (decimal width n).toList) :
    c.isDigit = true := by
  have hdigit : ∀ d < 10, (Nat.digitChar d).isDigit = true := by decide
  rw [decimal, String.toList_ofList] at h
  obtain ⟨d, hd, rfl⟩ := List.mem_map.1 h
  rcases List.mem_append.1 (List.mem_reverse.1 hd) with hdigits | hzero
  · exact hdigit d (Nat.digits_lt_base (by norm_num) hdigits)
  · rw [(List.mem_replicate.1 hzero).2]
    rfl

/-- Digits with and without a sign differ. -/
theorem decimal_ne_sign {c : Char} (hc : c.isDigit = false) (width n : ℕ) (s : String) :
    decimal width n ≠ String.ofList [c] ++ s := by
  intro h
  have hmem : c ∈ (decimal width n).toList := by
    rw [h, String.toList_append, String.toList_ofList]
    exact List.mem_cons_self
  rw [isDigit_of_mem_decimal hmem] at hc
  cases hc

/-- A field of fixed width at the end of a text. -/
theorem append_decimal_inj {s t : String} {width m n : ℕ} (hm : m < 10 ^ width)
    (hn : n < 10 ^ width) :
    s ++ decimal width m = t ++ decimal width n ↔ s = t ∧ m = n := by
  refine ⟨?_, fun h => by rw [h.1, h.2]⟩
  intro h
  have hlist := congrArg String.toList h
  rw [String.toList_append, String.toList_append] at hlist
  obtain ⟨hst, hmn⟩ := List.append_inj' hlist
    ((length_decimal hm).trans (length_decimal hn).symm)
  exact ⟨String.toList_injective hst, decimal_inj.1 (String.toList_injective hmn)⟩

end Calendar
