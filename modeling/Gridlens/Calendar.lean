import Gridlens.TimeAxis
import Gridlens.Text.Digits

/-!
# Civil dates

A date as year, month and day, and a moment as the text `strftime` makes of it.
Reading the text gives back the moment, to the microsecond.
-/

namespace Gridlens

open Text

/-! ## Year, month and day -/

def monthLengths (year : Int) : List Int :=
  [31, if isLeap year then 29 else 28, 31, 30, 31, 30, 31, 31, 30, 31, 30, 31]

/-- Days since the first of the month, from the days since the first of the
year. -/
def daysIntoMonth : List Int → Int → Int
  | [], n => n
  | length :: lengths, n => if n < length then n else daysIntoMonth lengths (n - length)

/-- How many months are over, from the days since the first of the year. -/
def monthsOver : List Int → Int → Nat
  | [], _ => 0
  | length :: lengths, n => if n < length then 0 else monthsOver lengths (n - length) + 1

/-- The date with an ordinal, as year, month and day. -/
structure Civil where
  year : Nat
  month : Nat
  day : Nat
deriving DecidableEq, Repr

def civilOf (ordinal : Int) : Civil :=
  let year := yearOf ordinal
  ⟨year.toNat, monthsOver (monthLengths year) (dayOfYear ordinal) + 1,
    (daysIntoMonth (monthLengths year) (dayOfYear ordinal) + 1).toNat⟩

/-- The ordinal of a date, if there is such a date. -/
def Civil.ordinal (c : Civil) : Option Int :=
  match (monthLengths c.year)[c.month - 1]? with
  | some length =>
      if 1 ≤ c.year ∧ c.year ≤ 9999 ∧ 1 ≤ c.month ∧ 1 ≤ c.day ∧ (c.day : Int) ≤ length then
        some (daysBeforeYear c.year + ((monthLengths c.year).take (c.month - 1)).sum + c.day)
      else none
  | none => none

theorem monthsOver_spec {lengths : List Int} {n : Int} (hlengths : ∀ l ∈ lengths, 0 < l)
    (hn : 0 ≤ n) (hsum : n < lengths.sum) :
    ∃ length, lengths[monthsOver lengths n]? = some length ∧ 0 ≤ daysIntoMonth lengths n ∧
      daysIntoMonth lengths n < length ∧
      (lengths.take (monthsOver lengths n)).sum + daysIntoMonth lengths n = n := by
  induction lengths generalizing n with
  | nil =>
      rw [List.sum_nil] at hsum
      omega
  | cons length lengths ih =>
      rw [List.sum_cons] at hsum
      unfold monthsOver daysIntoMonth
      by_cases hshort : n < length
      · rw [if_pos hshort, if_pos hshort]
        exact ⟨length, rfl, hn, hshort, by simp⟩
      · rw [if_neg hshort, if_neg hshort]
        rcases ih (n := n - length) (fun l hl => hlengths l (List.mem_cons_of_mem _ hl)) (by omega)
          (by omega) with ⟨last, hlast, hpos, hlt, htotal⟩
        refine ⟨last, by simpa using hlast, hpos, hlt, ?_⟩
        rw [List.take_succ_cons, List.sum_cons]
        omega

theorem monthLengths_pos (year : Int) : ∀ l ∈ monthLengths year, 0 < l := by
  unfold monthLengths
  split <;> decide

theorem monthLengths_sum (year : Int) :
    (monthLengths year).sum = if isLeap year then 366 else 365 := by
  unfold monthLengths
  split <;> rfl

/-- An ordinal by cycles of 400, 100, 4 and 1 years, and the days left of it;
the last day of a cycle stays in the year before. -/
theorem yearOf_cycles (ordinal : Int) :
    ∃ a b c d r : Int, (0 ≤ b ∧ b ≤ 3) ∧ (0 ≤ c ∧ c ≤ 24) ∧ (0 ≤ d ∧ d ≤ 3) ∧
      yearOf ordinal = 400 * a + 100 * b + 4 * c + d + 1 ∧
      ordinal - 1 = 146097 * a + 36524 * b + 1461 * c + 365 * d + r ∧ 0 ≤ r ∧
      (r < 365 ∨ r = 365 ∧ d = 3 ∧ (c < 24 ∨ b = 3)) := by
  unfold yearOf
  simp only
  -- each quotient and remainder gets a name, so that all of it is linear
  generalize ordinal - 1 = n
  have hcycle : n = 146097 * (n / 146097) + n % 146097 ∧ 0 ≤ n % 146097 ∧ n % 146097 < 146097 := by
    omega
  generalize n / 146097 = a at *
  generalize n % 146097 = m at *
  have hcentury : m = 36524 * (m / 36524) + m % 36524 ∧ 0 ≤ m % 36524 ∧ m % 36524 < 36524 := by
    omega
  generalize m / 36524 = b at *
  generalize m % 36524 = k at *
  have hfours : k = 1461 * (k / 1461) + k % 1461 ∧ 0 ≤ k % 1461 ∧ k % 1461 < 1461 := by
    omega
  generalize k / 1461 = c at *
  generalize k % 1461 = j at *
  have hyears : j = 365 * (j / 365) + j % 365 ∧ 0 ≤ j % 365 ∧ j % 365 < 365 := by
    omega
  generalize j / 365 = d at *
  generalize j % 365 = r at *
  -- the day behind a fourth century, or a fourth year, is the last of a leap year
  by_cases hlast : b = 4
  · refine ⟨a, 3, 24, 3, 365, by omega, by omega, by omega, ?_, by omega, by omega, by omega⟩
    rw [if_pos (Or.inr hlast)]
    omega
  · by_cases hleap : d = 4
    · refine ⟨a, b, c, 3, 365, by omega, by omega, by omega, ?_, by omega, by omega, by omega⟩
      rw [if_pos (Or.inl hleap)]
      omega
    · refine ⟨a, b, c, d, r, by omega, by omega, by omega, ?_, by omega, by omega, by omega⟩
      rw [if_neg (by omega)]
      omega

/-- The last year of four, unless it is the last of a century that is not the
last of its cycle. -/
theorem isLeap_fourth {a b c : Int} (hc : 0 ≤ c ∧ c ≤ 24) (hkept : c < 24 ∨ b = 3) :
    isLeap (400 * a + 100 * b + 4 * c + (3 + 1)) = true := by
  unfold isLeap
  rw [Bool.and_eq_true, Bool.or_eq_true]
  simp only [decide_eq_true_eq]
  refine ⟨by omega, ?_⟩
  by_cases hlast : c = 24
  · right
    -- a year that ends a century, so the century ends a cycle
    have hb : b = 3 := by omega
    rw [hb, hlast]
    omega
  · left
    have hhundreds : 400 * a + 100 * b + 4 * c + (3 + 1) = 4 * c + 4 + 100 * (4 * a + b) := by ring
    rw [hhundreds, Int.add_mul_emod_self_left]
    omega

theorem dayOfYear_spec (ordinal : Int) : 0 ≤ dayOfYear ordinal ∧
    dayOfYear ordinal < if isLeap (yearOf ordinal) then 366 else 365 := by
  rcases yearOf_cycles ordinal with ⟨a, b, c, d, r, hb, hc, hd, hyear, hdays, hr, hlast⟩
  -- the days before the year are those of its whole cycles
  have hday : dayOfYear ordinal = r := by
    have hpred : 400 * a + 100 * b + 4 * c + d + 1 - 1 = 400 * a + 100 * b + 4 * c + d := by omega
    have hfours : (400 * a + 100 * b + 4 * c + d) / 4 = 100 * a + 25 * b + c := by omega
    have hhundreds : (400 * a + 100 * b + 4 * c + d) / 100 = 4 * a + b := by omega
    have hcycles : (400 * a + 100 * b + 4 * c + d) / 400 = a := by omega
    unfold dayOfYear daysBeforeYear
    rw [hyear]
    simp only
    rw [hpred, hfours, hhundreds, hcycles]
    omega
  rw [hday]
  refine ⟨hr, ?_⟩
  rcases hlast with hshort | ⟨hleap, hfour, hcentury⟩
  · split <;> omega
  · rw [hyear, hfour, add_assoc, if_pos (isLeap_fourth hc hcentury)]
    omega

theorem yearOf_bounds {ordinal : Int} (h : 1 ≤ ordinal ∧ ordinal ≤ MAX_ORDINAL) :
    1 ≤ yearOf ordinal ∧ yearOf ordinal ≤ 9999 := by
  rcases yearOf_cycles ordinal with ⟨a, b, c, d, r, hb, hc, hd, hyear, hdays, hr, hlast⟩
  have hmax : MAX_ORDINAL = 3652059 := rfl
  omega

theorem ordinal_civilOf {ordinal : Int} (h : 1 ≤ ordinal ∧ ordinal ≤ MAX_ORDINAL) :
    (civilOf ordinal).ordinal = some ordinal := by
  rcases yearOf_bounds h with ⟨hfirst, hlast⟩
  rcases dayOfYear_spec ordinal with ⟨hday, hdays⟩
  rw [← monthLengths_sum] at hdays
  rcases monthsOver_spec (monthLengths_pos _) hday hdays with ⟨length, hlength, hpos, hlt, htotal⟩
  have hyear : (((yearOf ordinal).toNat : Nat) : Int) = yearOf ordinal := by omega
  unfold civilOf Civil.ordinal
  simp only [Nat.add_sub_cancel, hyear]
  rw [hlength]
  simp only
  rw [if_pos (by omega)]
  have hback : (((daysIntoMonth (monthLengths (yearOf ordinal)) (dayOfYear ordinal) + 1).toNat : Nat)
      : Int) = daysIntoMonth (monthLengths (yearOf ordinal)) (dayOfYear ordinal) + 1 := by omega
  have hdefinition : dayOfYear ordinal = ordinal - 1 - daysBeforeYear (yearOf ordinal) := rfl
  rw [hback]
  congr 1
  omega

/-- A date there is has fields of four, two and two digits. -/
theorem Civil.bounds {c : Civil} {ordinal : Int} (h : c.ordinal = some ordinal) :
    c.year ≤ 9999 ∧ c.month ≤ 12 ∧ c.day ≤ 31 := by
  unfold Civil.ordinal at h
  split at h
  · rename_i length hlength
    split at h
    · rename_i hvalid
      have hlong : ∀ l ∈ monthLengths c.year, l ≤ 31 := by
        unfold monthLengths
        split <;> decide
      have hmonths : (monthLengths c.year).length = 12 := rfl
      have hmonth := (List.getElem?_eq_some_iff.mp hlength).1
      have hday := hlong length (List.mem_of_getElem? hlength)
      rw [hmonths] at hmonth
      omega
    · cases h
  · cases h

/-! ## Dates in order -/

theorem monthsOver_lt {lengths : List Int} {m n : Int} (hmn : m < n) (hsum : n < lengths.sum) :
    monthsOver lengths m < monthsOver lengths n ∨ monthsOver lengths m = monthsOver lengths n ∧
      daysIntoMonth lengths m < daysIntoMonth lengths n := by
  induction lengths generalizing m n with
  | nil => exact Or.inr ⟨rfl, hmn⟩
  | cons length lengths ih =>
      rw [List.sum_cons] at hsum
      unfold monthsOver daysIntoMonth
      by_cases hshort : n < length
      · rw [if_pos hshort, if_pos hshort, if_pos (hmn.trans hshort), if_pos (hmn.trans hshort)]
        exact Or.inr ⟨rfl, hmn⟩
      · rw [if_neg hshort, if_neg hshort]
        by_cases hfirst : m < length
        · rw [if_pos hfirst]
          exact Or.inl (Nat.succ_pos _)
        · rw [if_neg hfirst, if_neg hfirst]
          rcases ih (m := m - length) (n := n - length) (by omega) (by omega) with hlt | ⟨heq, hlt⟩
          · exact Or.inl (Nat.succ_lt_succ hlt)
          · exact Or.inr ⟨by rw [heq], hlt⟩

theorem daysBeforeYear_lt {year year' : Int} (h : year < year') :
    daysBeforeYear year + (if isLeap year then 366 else 365) ≤ daysBeforeYear year' := by
  unfold daysBeforeYear
  simp only
  have hmono : ∀ y y' : Int, y ≤ y' →
      y * 365 + y / 4 - y / 100 + y / 400 ≤ y' * 365 + y' / 4 - y' / 100 + y' / 400 := by
    intro y y' hy
    omega
  have hnext := hmono year (year' - 1) (by omega)
  have hone : (year - 1) * 365 + (year - 1) / 4 - (year - 1) / 100 + (year - 1) / 400 +
      (if isLeap year then 366 else 365) ≤ year * 365 + year / 4 - year / 100 + year / 400 := by
    unfold isLeap
    split
    · rename_i hleap
      rw [Bool.and_eq_true, Bool.or_eq_true] at hleap
      simp only [decide_eq_true_eq] at hleap
      omega
    · omega
  omega

/-- Dates are in the order of their years, then months, then days. -/
theorem civilOf_lt {a b : Int} (hab : a < b) (ha : 1 ≤ a) (hb : b ≤ MAX_ORDINAL) :
    [(civilOf a).year, (civilOf a).month, (civilOf a).day] <
      [(civilOf b).year, (civilOf b).month, (civilOf b).day] := by
  rcases yearOf_bounds ⟨ha, hab.le.trans hb⟩ with ⟨hafirst, -⟩
  rcases yearOf_bounds ⟨ha.trans hab.le, hb⟩ with ⟨hbfirst, -⟩
  rcases dayOfYear_spec a with ⟨hapos, halt⟩
  rcases dayOfYear_spec b with ⟨hbpos, hblt⟩
  have haday : dayOfYear a = a - 1 - daysBeforeYear (yearOf a) := rfl
  have hbday : dayOfYear b = b - 1 - daysBeforeYear (yearOf b) := rfl
  rw [List.cons_lt_cons_iff, List.cons_lt_cons_iff, List.cons_lt_cons_iff]
  rcases lt_trichotomy (yearOf a) (yearOf b) with hyear | hyear | hyear
  · left
    show (yearOf a).toNat < (yearOf b).toNat
    omega
  · right
    have hsame : dayOfYear a < dayOfYear b := by
      rw [haday, hbday, hyear]
      omega
    rw [← monthLengths_sum] at hblt
    have hlengths := monthsOver_lt hsame hblt
    have hpos := monthsOver_spec (monthLengths_pos (yearOf a)) hapos (by rw [monthLengths_sum]; exact halt)
    rcases hpos with ⟨_, -, hmonth, -⟩
    refine ⟨?_, ?_⟩
    · show (yearOf a).toNat = (yearOf b).toNat
      rw [hyear]
    · unfold civilOf
      simp only
      rw [hyear] at hmonth ⊢
      rcases hlengths with hlt | ⟨heq, hlt⟩
      · exact Or.inl (Nat.succ_lt_succ hlt)
      · exact Or.inr ⟨by rw [heq], Or.inl (by omega)⟩
  · have hbefore := daysBeforeYear_lt hyear
    omega

/-! ## Dates as text -/

/-- `"%Y-%m-%d"`. -/
def SQL_DATE : Layout := [(4, ['-']), (2, ['-']), (2, [])]

/-- `day.strftime(SQL_DATE)`, and `CAST(day AS varchar)`. -/
def dateText (ordinal : Int) : String :=
  let c := civilOf ordinal
  String.ofList (writeLayout 10 SQL_DATE [c.year, c.month, c.day])

/-- `DATE 'text'`. -/
def castDate (text : String) : Option Int :=
  match readLayout 10 SQL_DATE text.toList with
  | some ([year, month, day], []) => Civil.ordinal ⟨year, month, day⟩
  | _ => none

theorem civilOf_fits {ordinal : Int} (h : 1 ≤ ordinal ∧ ordinal ≤ MAX_ORDINAL) :
    List.Forall₂ (fun field n => n < 10 ^ field.1) SQL_DATE
      [(civilOf ordinal).year, (civilOf ordinal).month, (civilOf ordinal).day] := by
  rcases Civil.bounds (ordinal_civilOf h) with ⟨hyear, hmonth, hday⟩
  refine .cons ?_ (.cons ?_ (.cons ?_ .nil))
  all_goals simp only
  all_goals omega

theorem castDate_dateText {ordinal : Int} (h : 1 ≤ ordinal ∧ ordinal ≤ MAX_ORDINAL) :
    castDate (dateText ordinal) = some ordinal := by
  have hread := readLayout_writeLayout (by omega) (civilOf_fits h) []
  rw [List.append_nil] at hread
  unfold castDate dateText
  simp only
  rw [String.toList_ofList, hread]
  exact ordinal_civilOf h

/-- Texts of dates are in the order of the dates. -/
theorem dateText_lt {a b : Int} (hab : a < b) (ha : 1 ≤ a) (hb : b ≤ MAX_ORDINAL) :
    dateText a < dateText b := by
  show (dateText a).toList < (dateText b).toList
  unfold dateText
  simp only
  rw [String.toList_ofList, String.toList_ofList]
  exact writeLayout_lt (by omega) (civilOf_fits ⟨ha, hab.le.trans hb⟩)
    (civilOf_fits ⟨ha.trans hab.le, hb⟩) (civilOf_lt hab ha hb)

/-! ## Moments as text -/

/-- `"%Y-%m-%d %H:%M:%S.%f"`, each field with its zeros. -/
def TIMESTAMP : Layout :=
  [(4, ['-']), (2, ['-']), (2, [' ']), (2, [':']), (2, [':']), (2, ['.']), (6, [])]

/-- `moment.strftime(TIMESTAMP)`. -/
def strftime (moment : Int) : List Char :=
  let date := civilOf (moment / DAY)
  writeLayout 10 TIMESTAMP
    [date.year, date.month, date.day, (moment % DAY / HOUR).toNat,
      (moment % HOUR / MINUTE).toNat, (moment % MINUTE / SECOND).toNat, (moment % SECOND).toNat]

/-- `CAST(text AS timestamp)`, to the microsecond. -/
def castTimestamp (text : List Char) : Option Int :=
  match readLayout 10 TIMESTAMP text with
  | some ([year, month, day, hour, minute, second, micro], []) =>
      if hour < 24 ∧ minute < 60 ∧ second < 60 then
        (Civil.ordinal ⟨year, month, day⟩).map fun ordinal =>
          ordinal * DAY + hour * HOUR + minute * MINUTE + second * SECOND + micro
      else none
  | _ => none

/-- The clock of a moment, and the moment of a date and a clock. -/
theorem clock (moment : Int) :
    (moment % DAY / HOUR).toNat < 24 ∧ (moment % HOUR / MINUTE).toNat < 60 ∧
      (moment % MINUTE / SECOND).toNat < 60 ∧ (moment % SECOND).toNat < 10 ^ 6 ∧
      moment / DAY * DAY + (moment % DAY / HOUR).toNat * HOUR + (moment % HOUR / MINUTE).toNat * MINUTE +
        (moment % MINUTE / SECOND).toNat * SECOND + (moment % SECOND).toNat = moment := by
  have hhour : moment % DAY % HOUR = moment % HOUR := Int.emod_emod_of_dvd moment ⟨24, rfl⟩
  have hminute : moment % HOUR % MINUTE = moment % MINUTE := Int.emod_emod_of_dvd moment ⟨60, rfl⟩
  have hsecond : moment % MINUTE % SECOND = moment % SECOND := Int.emod_emod_of_dvd moment ⟨60, rfl⟩
  have hunits : MINUTE = 60000000 ∧ SECOND = 1000000 := ⟨rfl, rfl⟩
  have hdays : DAY * (moment / DAY) + moment % DAY = moment := Int.mul_ediv_add_emod _ _
  have hrange : 0 ≤ moment % DAY ∧ moment % DAY < DAY :=
    ⟨Int.emod_nonneg _ (by decide), Int.emod_lt_of_pos _ (by decide)⟩
  -- from here on only the days and the time of day matter
  rw [← hsecond, ← hminute, ← hhour]
  clear hsecond hminute hhour
  generalize moment / DAY = days at *
  generalize moment % DAY = time at *
  rw [DAY_eq, HOUR_eq, hunits.1, hunits.2] at *
  omega

theorem castTimestamp_strftime {moment : Int} (h : WallInRange moment) :
    castTimestamp (strftime moment) = some moment := by
  have hrange : 1 ≤ moment / DAY ∧ moment / DAY ≤ MAX_ORDINAL := by
    rcases h with ⟨hfirst, hlast⟩
    have hmax : MAX_ORDINAL = 3652059 := rfl
    rw [DAY_eq] at hfirst hlast ⊢
    omega
  -- every field fits the width it is written in
  have hordinal := ordinal_civilOf hrange
  rcases Civil.bounds hordinal with ⟨hyear, hmonth, hday⟩
  rcases clock moment with ⟨hhour, hminute, hsecond, hmicro, htotal⟩
  unfold castTimestamp strftime
  generalize civilOf (moment / DAY) = date at *
  generalize (moment % DAY / HOUR).toNat = hour at *
  generalize (moment % HOUR / MINUTE).toNat = minute at *
  generalize (moment % MINUTE / SECOND).toNat = second at *
  generalize (moment % SECOND).toNat = micro at *
  have hfits : List.Forall₂ (fun field n => n < 10 ^ field.1) TIMESTAMP
      [date.year, date.month, date.day, hour, minute, second, micro] := by
    refine .cons ?_ (.cons ?_ (.cons ?_ (.cons ?_ (.cons ?_ (.cons ?_ (.cons ?_ .nil))))))
    all_goals simp only
    all_goals omega
  have hread := readLayout_writeLayout (by omega) hfits []
  rw [List.append_nil] at hread
  simp only
  rw [hread]
  simp only
  rw [if_pos ⟨hhour, hminute, hsecond⟩, hordinal, Option.map_some, htotal]

end Gridlens
