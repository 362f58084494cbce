import Mathlib.Data.Int.Basic
import Mathlib.Tactic.Common

/-!
# Dates of the access log and of directory listings

`civil_from_days` of `access_log.rs` and `days_to_ymd` of `handler/static_files.rs` count years from
March, so that the leap day is the last of a year, and divide by constants that make up for it.

A day is described here by such a year and a day in it; both functions find the description.
-/

namespace Hypershunt

namespace Calendar

/-- Month and day, from the number of a day in a year that starts in March. -/
def monthDay (doy : ℕ) : ℕ × ℕ :=
  let mp := (5 * doy + 2) / 153
  (if mp < 10 then mp + 3 else mp - 9, doy - (153 * mp + 2) / 5 + 1)

/-- The date of a day in a year that starts in March. -/
def ofMarchYear (y : ℤ) (doy : ℕ) : ℤ × ℕ × ℕ :=
  let (m, d) := monthDay doy
  (if m ≤ 2 then y + 1 else y, m, d)

/-- The date of a day of an era, in which both functions agree. -/
def ofEra (era : ℤ) (doe : ℕ) : ℤ × ℕ × ℕ :=
  let yoe := (doe - doe / 1460 + doe / 36524 - doe / 146096) / 365
  ofMarchYear (yoe + era * 400) (doe - (365 * yoe + yoe / 4 - yoe / 100))

/-- Year, month and day, from the number of days since 1970; `/` and `%` are `div_euclid` and
`rem_euclid`. -/
def civilFromDays (days : ℤ) : ℤ × ℕ × ℕ :=
  let z := days + 719468
  ofEra (z / 146097) (z % 146097).toNat

def daysToYmd (days : ℤ) : ℤ × ℕ × ℕ :=
  let z := days + 719468
  let era := (if 0 ≤ z then z else z - 146096).tdiv 146097
  ofEra era (z - era * 146097).toNat

/-! ## The Gregorian calendar -/

def isLeap (y : ℤ) : Bool := y % 4 = 0 ∧ (y % 100 ≠ 0 ∨ y % 400 = 0)

def daysInMonth (leap : Bool) (m : ℕ) : ℕ :=
  if m = 2 then 28 + leap.toNat else if m ∈ [4, 6, 9, 11] then 30 else 31

def Valid : ℤ × ℕ × ℕ → Prop
  | (y, m, d) => (1 ≤ m ∧ m ≤ 12) ∧ 1 ≤ d ∧ d ≤ daysInMonth (isLeap y) m

def next : ℤ × ℕ × ℕ → ℤ × ℕ × ℕ
  | (y, m, d) =>
    if d < daysInMonth (isLeap y) m then (y, m, d + 1)
    else if m < 12 then (y, m + 1, 1)
    else (y + 1, 1, 1)

/-! ## Years from March -/

variable {y z : ℤ} {doy : ℕ}

/-- The number of days before a year. -/
def yearStart (y : ℤ) : ℤ := 365 * y + y / 4 - y / 100 + y / 400

/-- The leap day belongs to the calendar year that ends the year. -/
def yearLength (y : ℤ) : ℕ := 365 + (isLeap (y + 1)).toNat

theorem yearLength_cases (y : ℤ) :
    yearLength y = 366 ∧ (y + 1) % 4 = 0 ∧ ((y + 1) % 100 ≠ 0 ∨ (y + 1) % 400 = 0) ∨
      yearLength y = 365 ∧ ¬((y + 1) % 4 = 0 ∧ ((y + 1) % 100 ≠ 0 ∨ (y + 1) % 400 = 0)) := by
  by_cases h : (y + 1) % 4 = 0 ∧ ((y + 1) % 100 ≠ 0 ∨ (y + 1) % 400 = 0)
  · exact Or.inl ⟨by rw [yearLength, isLeap, decide_eq_true h]; rfl, h⟩
  · exact Or.inr ⟨by rw [yearLength, isLeap, decide_eq_false h]; rfl, h⟩

theorem yearStart_succ (y : ℤ) : yearStart (y + 1) = yearStart y + yearLength y := by
  have hlength := yearLength_cases y
  unfold yearStart
  omega

structure At (z y : ℤ) (doy : ℕ) : Prop where
  lt : doy < yearLength y
  eq : z = yearStart y + doy

theorem At.succ (h : At z y doy) (hlt : doy + 1 < yearLength y) : At (z + 1) y (doy + 1) :=
  ⟨hlt, by have heq := h.eq; omega⟩

theorem At.succ_year (h : At z y doy) (heq : doy + 1 = yearLength y) : At (z + 1) (y + 1) 0 :=
  ⟨by unfold yearLength; omega, by have hz := h.eq; rw [yearStart_succ]; omega⟩

theorem yearOfEra_eq {c q r doy doe : ℕ} (hc : c ≤ 3) (hq : q ≤ 24) (hr : r ≤ 3)
    (hdoy : doy ≤ 364 ∨ doy = 365 ∧ r = 3 ∧ (q < 24 ∨ c = 3))
    (hdoe : doe = 36524 * c + 1461 * q + 365 * r + doy) :
    (doe - doe / 1460 + doe / 36524 - doe / 146096) / 365 = 100 * c + 4 * q + r := by
  by_cases hlast : doe = 146096
  · subst hlast
    omega
  -- the constant 1460 counts at most one day too many in a century
  obtain ⟨e, he, hleap⟩ : ∃ e, doe / 1460 = 25 * c + q + e ∧
      (e = 0 ∨ e = 1 ∧ 1460 ≤ 24 * c + q + 365 * r + doy) := by
    by_cases h : 24 * c + q + 365 * r + doy < 1460
    · exact ⟨0, by omega, by omega⟩
    · exact ⟨1, by omega, by omega⟩
  have hcentury : doe / 36524 = c := by omega
  have hera : doe / 146096 = 0 := by omega
  rw [he, hcentury, hera]
  omega

/-- **The description is found**, whichever it is. -/
theorem At.ofEra_eq (h : At z y doy) :
    ofEra (z / 146097) (z % 146097).toNat = ofMarchYear y doy := by
  obtain ⟨hlt, heq⟩ := h
  -- an era has four centuries, each of them 25 times four years
  obtain ⟨era, c, q, r, hy, hc, hq, hr⟩ : ∃ (era : ℤ) (c q r : ℕ),
      y = 400 * era + 100 * c + 4 * q + r ∧ c ≤ 3 ∧ q ≤ 24 ∧ r ≤ 3 :=
    ⟨y / 400, (y % 400 / 100).toNat, (y % 100 / 4).toNat, (y % 4).toNat, by omega, by omega,
      by omega, by omega⟩
  have hdoy : doy ≤ 364 ∨ doy = 365 ∧ r = 3 ∧ (q < 24 ∨ c = 3) := by
    rcases yearLength_cases y with ⟨hlength, hfour, hleap⟩ | ⟨hlength, -⟩
    · have hthree : r = 3 := by omega
      have hcentury : q < 24 ∨ c = 3 := by omega
      omega
    · omega
  have hstart : yearStart y = 146097 * era + (36524 * c + 1461 * q + 365 * r : ℕ) := by
    have hfour : y / 4 = 100 * era + 25 * c + q := by omega
    have hhundred : y / 100 = 4 * era + c := by omega
    have hera : y / 400 = era := by omega
    rw [yearStart, hfour, hhundred, hera]
    omega
  obtain ⟨doe, hdoe⟩ : ∃ doe, doe = 36524 * c + 1461 * q + 365 * r + doy := ⟨_, rfl⟩
  have hz : z = 146097 * era + doe := by omega
  have hdiv : z / 146097 = era := by omega
  have hmod : (z % 146097).toNat = doe := by omega
  rw [hdiv, hmod, ofEra, yearOfEra_eq hc hq hr hdoy hdoe]
  refine congrArg₂ ofMarchYear ?_ ?_
  · push_cast
    omega
  · have hfour : (100 * c + 4 * q + r) / 4 = 25 * c + q := by omega
    have hhundred : (100 * c + 4 * q + r) / 100 = c := by omega
    rw [hfour, hhundred]
    omega

theorem daysToYmd_eq {days : ℤ} (hdays : 0 ≤ days) : daysToYmd days = civilFromDays days := by
  have hz : 0 ≤ days + 719468 := by omega
  rw [daysToYmd, if_pos hz, Int.tdiv_eq_ediv_of_nonneg hz, civilFromDays]
  refine congrArg (fun doe : ℤ ↦ ofEra ((days + 719468) / 146097) doe.toNat) ?_
  omega

/-! ## Months -/

theorem monthDay_mem : ∀ leap : Bool, ∀ doy < 365 + leap.toNat,
    (1 ≤ (monthDay doy).1 ∧ (monthDay doy).1 ≤ 12) ∧ 1 ≤ (monthDay doy).2 ∧
      (monthDay doy).2 ≤ daysInMonth leap (monthDay doy).1 := by
  decide +kernel

theorem monthDay_succ : ∀ leap : Bool, ∀ doy < 364 + leap.toNat,
    let (m, d) := monthDay doy
    (m = 2 → d < daysInMonth leap m) ∧
      monthDay (doy + 1) = if d < daysInMonth leap m then (m, d + 1) else
        if m < 12 then (m + 1, 1) else (1, 1) := by
  decide +kernel

theorem monthDay_last : ∀ leap : Bool, monthDay (364 + leap.toNat) = (2, daysInMonth leap 2) := by
  decide

theorem daysInMonth_ofMarchYear (y : ℤ) (m : ℕ) :
    daysInMonth (isLeap (if m ≤ 2 then y + 1 else y)) m = daysInMonth (isLeap (y + 1)) m := by
  split_ifs with hm
  · rfl
  · have htwo : m ≠ 2 := by omega
    rw [daysInMonth, daysInMonth, if_neg htwo, if_neg htwo]

theorem valid_ofMarchYear (h : doy < yearLength y) : Valid (ofMarchYear y doy) := by
  rw [ofMarchYear, Valid, daysInMonth_ofMarchYear]
  exact monthDay_mem _ doy h

theorem next_ofMarchYear (h : doy + 1 < yearLength y) :
    next (ofMarchYear y doy) = ofMarchYear y (doy + 1) := by
  unfold yearLength at h
  have hmem := (monthDay_mem (isLeap (y + 1)) doy (by omega)).1
  have hsucc := monthDay_succ (isLeap (y + 1)) doy (by omega)
  rw [ofMarchYear, next, daysInMonth_ofMarchYear, ofMarchYear]
  rcases hday : monthDay doy with ⟨m, d⟩
  simp only [hday] at hsucc hmem ⊢
  obtain ⟨hfebruary, hsucc⟩ := hsucc
  rw [hsucc]
  by_cases hd : d < daysInMonth (isLeap (y + 1)) m
  · rw [if_pos hd, if_pos hd]
  rw [if_neg hd, if_neg hd]
  by_cases hm : m < 12
  · have hyear : m + 1 ≤ 2 ↔ m ≤ 2 := by
      have htwo : m ≠ 2 := fun h ↦ hd (hfebruary h)
      omega
    simp only [if_pos hm, hyear]
  · have hyear : ¬m ≤ 2 := by omega
    rw [if_neg hm, if_neg hm, if_neg hyear]
    rfl

theorem next_ofMarchYear_last (h : doy + 1 = yearLength y) :
    next (ofMarchYear y doy) = ofMarchYear (y + 1) 0 := by
  have hlast := monthDay_last (isLeap (y + 1))
  obtain rfl : doy = 364 + (isLeap (y + 1)).toNat := by unfold yearLength at h; omega
  rw [ofMarchYear, hlast]
  simp [next]
  rfl

/-! ## All days -/

theorem exists_at (n : ℕ) : ∃ y doy, At (n + 719468) y doy := by
  induction n with
  | zero => exact ⟨1969, 306, by decide, by decide⟩
  | succ n ih =>
    obtain ⟨y, doy, h⟩ := ih
    rw [Int.natCast_succ, Int.add_right_comm]
    rcases Nat.lt_or_eq_of_le h.lt with hlt | heq
    · exact ⟨y, doy + 1, h.succ hlt⟩
    · exact ⟨y + 1, 0, h.succ_year heq⟩

/-- **The dates are right**: they start with the first of 1970 and follow the calendar. -/
theorem civilFromDays_correct (n : ℕ) :
    civilFromDays 0 = (1970, 1, 1) ∧ daysToYmd n = civilFromDays n ∧ Valid (civilFromDays n) ∧
      civilFromDays (n + 1) = next (civilFromDays n) := by
  obtain ⟨y, doy, h⟩ := exists_at n
  have hdate : civilFromDays n = ofMarchYear y doy := h.ofEra_eq
  refine ⟨by decide, daysToYmd_eq (Int.natCast_nonneg n), hdate ▸ valid_ofMarchYear h.lt, ?_⟩
  rw [hdate, civilFromDays, Int.add_right_comm]
  rcases Nat.lt_or_eq_of_le h.lt with hlt | heq
  · rw [next_ofMarchYear hlt]
    exact (h.succ hlt).ofEra_eq
  · rw [next_ofMarchYear_last heq]
    exact (h.succ_year heq).ofEra_eq

end Calendar

end Hypershunt
