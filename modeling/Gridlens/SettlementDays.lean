import Gridlens.Jobs
import Mathlib.Data.List.ChainOfFn

/-!
# Settlement days

Python turns a Paris day into a UTC interval, SQL turns a UTC timestamp into a
Paris date. `settlement_windows` says the two are inverse to each other, at
every instant and through every clock change: the windows of consecutive days
share their boundary, the days of a range tile its span, and a day is 23, 24 or
25 hours long.

`settlement_day` gives the window of every date but the first and the last one
Python has: the one begins before year 1 in UTC, the other ends after year 9999.
-/

namespace Gridlens

/-- The instant lies in the half-open window. -/
abbrev Within (window : Instant × Instant) (u : Instant) : Prop :=
  window.1.micros ≤ u.micros ∧ u.micros < window.2.micros

/-! ## The window of a day -/

section Day

variable {day next : Date} {window window' : Instant × Instant}

/-- The window of a day is made of the instants of that Paris date. -/
theorem within_settlementDay_iff (h : settlementDay day PARIS = .ok window) (u : Instant) :
    Within window u ↔ parisDate u.micros = day.ordinal := by
  have hbounds := @settlementDay_paris _ window.1 window.2 h
  rw [Within, hbounds.1, hbounds.2]
  exact (parisDate_eq_iff day.ordinal u.micros).symm

/-- One day ends where the next one starts. -/
theorem settlementDay_shared (hnext : next.ordinal = day.ordinal + 1)
    (h : settlementDay day PARIS = .ok window) (h' : settlementDay next PARIS = .ok window') :
    window.2 = window'.1 := by
  have hbounds := @settlementDay_paris _ window.1 window.2 h
  have hbounds' := @settlementDay_paris _ window'.1 window'.2 h'
  apply Instant.ext
  rw [hbounds.2, hbounds'.1, hnext]

/-- A Paris day is 23, 24 or 25 hours long. -/
theorem settlementDay_length (h : settlementDay day PARIS = .ok window) :
    window.2.micros - window.1.micros = 23 * HOUR ∨
      window.2.micros - window.1.micros = 24 * HOUR ∨
      window.2.micros - window.1.micros = 25 * HOUR := by
  have hbounds := @settlementDay_paris _ window.1 window.2 h
  rw [hbounds.1, hbounds.2, parisMidnight, parisMidnight]
  have hstart := parisOffset_cases (day.ordinal * DAY - 2 * HOUR)
  have hstop := parisOffset_cases ((day.ordinal + 1) * DAY - 2 * HOUR)
  generalize parisOffset (day.ordinal * DAY - 2 * HOUR) = start at *
  generalize parisOffset ((day.ordinal + 1) * DAY - 2 * HOUR) = stop at *
  rw [DAY_eq, HOUR_eq] at *
  omega

theorem Instant.ofMicros_of_inRange {n : Int} (h : WallInRange n) :
    Instant.ofMicros n = .ok ⟨n, h⟩ := dif_pos h

/-- A Paris midnight exists, once: neither side of it meets a clock change. -/
theorem assertUnambiguous_midnight {n : Int} (h₁ : 2 ≤ n) (h₂ : n ≤ MAX_ORDINAL) :
    assertUnambiguous ⟨n * DAY, false, some PARIS⟩ = .ok () ∧
      ∃ u, toUtc PARIS (n * DAY) false = .ok u := by
  have hoffset : PARIS.utcoffset (n * DAY) false = parisOffset (n * DAY - 2 * HOUR) := rfl
  have hcases := parisOffset_cases (n * DAY - 2 * HOUR)
  have hutc : WallInRange (parisMidnight n) := by
    unfold parisMidnight WallInRange
    rw [DAY_eq, HOUR_eq] at *
    omega
  have hback : parisMidnight n + PARIS.fromutc (parisMidnight n) = n * DAY := by
    have hnear : parisOffset (parisMidnight n) = parisOffset (n * DAY - 2 * HOUR) := by
      apply parisOffset_near_midnight
      all_goals
        unfold parisMidnight
        rw [DAY_eq, HOUR_eq] at *
        omega
    show parisMidnight n + parisOffset (parisMidnight n) = n * DAY
    rw [hnear, parisMidnight]
    omega
  have hfold : PARIS.utcoffset (n * DAY) true = parisOffset (n * DAY - 2 * HOUR) := by
    apply parisOffset_near_midnight
    all_goals
      rw [DAY_eq, HOUR_eq]
      omega
  have hwall : WallInRange (n * DAY) := by
    unfold WallInRange
    rw [DAY_eq]
    omega
  have htoUtc : toUtc PARIS (n * DAY) false = .ok ⟨parisMidnight n, hutc⟩ := by
    rw [toUtc, hoffset]
    exact Instant.ofMicros_of_inRange hutc
  have hround : Instant.ofMicros (n * DAY) = .ok ⟨n * DAY, hwall⟩ := Instant.ofMicros_of_inRange hwall
  refine ⟨?_, _, htoUtc⟩
  simp [assertUnambiguous, bind, Except.bind, htoUtc, hback, hround, hfold, hoffset]

/-- Every date but the first and the last has a window. -/
theorem exists_settlementDay (h₁ : 1 < day.ordinal) (h₂ : day.ordinal < MAX_ORDINAL) :
    ∃ window, settlementDay day PARIS = .ok window := by
  have hnext : day.addDays 1 = .ok ⟨day.ordinal + 1, by omega⟩ := dif_pos (by omega)
  rcases assertUnambiguous_midnight (n := day.ordinal) (by omega) (by omega) with
    ⟨hstart, start, hstartUtc⟩
  rcases assertUnambiguous_midnight (n := day.ordinal + 1) (by omega) (by omega) with
    ⟨hstop, stop, hstopUtc⟩
  refine ⟨(start, stop), ?_⟩
  simp only [settlementDay, hnext]
  simp [bind, Except.bind, hstart, hstartUtc, hstop, hstopUtc]

end Day

/-! ## The days of a range -/

/-- Windows that tile a span: each begins where the one before it ends, and an
instant lies in one of them exactly when it lies in the span, in no two. -/
structure Tiles (windows : List (Instant × Instant)) (start stop : Instant) : Prop where
  adjacent : windows.IsChain fun a b => a.2 = b.1
  covers : ∀ u, (∃ window ∈ windows, Within window u) ↔ Within (start, stop) u
  disjoint : windows.Pairwise fun a b => ∀ u, ¬ (Within a u ∧ Within b u)

section Range

variable {first last day : Date} {windows : List (Instant × Instant)}

theorem mem_days : day ∈ days first last ↔ first.ordinal ≤ day.ordinal ∧ day.ordinal ≤ last.ordinal := by
  rw [days, List.mem_ofFn]
  constructor
  · rintro ⟨i, rfl⟩
    have hi := i.isLt
    show first.ordinal ≤ first.ordinal + i ∧ first.ordinal + i ≤ last.ordinal
    omega
  · intro ⟨hfirst, hlast⟩
    refine ⟨⟨(day.ordinal - first.ordinal).toNat, by omega⟩, ?_⟩
    have hordinal : first.ordinal + ((day.ordinal - first.ordinal).toNat : ℤ) = day.ordinal := by omega
    exact date_eq_iff.mpr hordinal

theorem days_isChain (first last : Date) :
    (days first last).IsChain fun a b => b.ordinal = a.ordinal + 1 := by
  rw [days, List.isChain_ofFn]
  intro i hi
  show first.ordinal + ((i + 1 : ℕ) : ℤ) = first.ordinal + (i : ℤ) + 1
  omega

theorem days_pairwise (first last : Date) :
    (days first last).Pairwise fun a b => a.ordinal < b.ordinal := by
  rw [days, List.pairwise_ofFn]
  intro i j hij
  show first.ordinal + ((i : ℕ) : ℤ) < first.ordinal + ((j : ℕ) : ℤ)
  omega

/-- What consecutive days give each other, their windows give each other. -/
theorem isChain_windows {l : List Date}
    (hl : l.IsChain fun a b => b.ordinal = a.ordinal + 1)
    (h : List.Forall₂ (fun day window => settlementDay day PARIS = .ok window) l windows) :
    windows.IsChain fun a b => a.2 = b.1 := by
  induction h with
  | nil => exact List.IsChain.nil
  | cons hday hrest ih =>
      cases hrest with
      | nil => exact List.isChain_singleton _
      | cons hnext hrest =>
          rw [List.isChain_cons_cons] at hl ⊢
          exact ⟨settlementDay_shared hl.1 hday hnext, ih hl.2⟩

/-- An instant has one Paris date, so it lies in the window of one day. -/
theorem pairwise_windows {l : List Date} (hl : l.Pairwise fun a b => a.ordinal < b.ordinal)
    (h : List.Forall₂ (fun day window => settlementDay day PARIS = .ok window) l windows) :
    windows.Pairwise fun a b => ∀ u, ¬ (Within a u ∧ Within b u) := by
  induction h with
  | nil => exact List.Pairwise.nil
  | @cons day window l windows hday hrest ih =>
      rw [List.pairwise_cons] at hl ⊢
      refine ⟨fun window' hwindow' u hu => ?_, ih hl.2⟩
      rcases (mem_of_forall₂_ok hrest).mp hwindow' with ⟨day', hmem, hday'⟩
      have hdate := (within_settlementDay_iff hday u).mp hu.1
      have hdate' := (within_settlementDay_iff hday' u).mp hu.2
      have hlt := hl.1 day' hmem
      omega

/-- The windows of a range of days tile the span from the start of the first
day to the end of the last one. -/
theorem tiles_days {window window' : Instant × Instant}
    (hfirst : settlementDay first PARIS = .ok window) (hlast : settlementDay last PARIS = .ok window')
    (h : (days first last).mapM (fun day => settlementDay day PARIS) = .ok windows) :
    Tiles windows window.1 window'.2 := by
  have hforall := mapM_eq_ok.mp h
  refine ⟨isChain_windows (days_isChain first last) hforall, fun u => ?_,
    pairwise_windows (days_pairwise first last) hforall⟩
  -- both sides say that the Paris date lies in the range
  have hstart := start_le_iff_le_parisDate first.ordinal u.micros
  have hstop := start_le_iff_le_parisDate (last.ordinal + 1) u.micros
  rw [← (@settlementDay_paris _ window.1 window.2 hfirst).1] at hstart
  rw [← (@settlementDay_paris _ window'.1 window'.2 hlast).2] at hstop
  constructor
  · rintro ⟨w, hw, hu⟩
    rcases (mem_of_forall₂_ok hforall).mp hw with ⟨day, hday, hok⟩
    have hdate := (within_settlementDay_iff hok u).mp hu
    have hrange := mem_days.mp hday
    refine ⟨hstart.mpr (by omega), not_le.mp fun hle => ?_⟩
    have := hstop.mp hle
    omega
  · intro ⟨hle, hlt⟩
    have hge := hstart.mp hle
    have hbefore : ¬ last.ordinal + 1 ≤ parisDate u.micros := fun hafter =>
      absurd (hstop.mpr hafter) (not_le.mpr hlt)
    have hfirstDate := first.inRange
    have hlastDate := last.inRange
    have hday : (⟨parisDate u.micros, by omega⟩ : Date) ∈ days first last :=
      mem_days.mpr ⟨hge, by show parisDate u.micros ≤ last.ordinal; omega⟩
    rcases exists_of_forall₂_ok hforall hday with ⟨w, hw, hok⟩
    exact ⟨w, hw, (within_settlementDay_iff hok u).mpr rfl⟩

end Range

/-- Settlement windows and Paris dates agree, windows of consecutive days share
their boundary, the windows of a range tile its span, and every window is 23, 24
or 25 hours long; every date but the first and the last has one. -/
theorem settlement_windows :
    (∀ day window, settlementDay day PARIS = .ok window →
        ∀ u, Within window u ↔ parisDate u.micros = day.ordinal) ∧
      (∀ day : Date, 1 < day.ordinal → day.ordinal < MAX_ORDINAL →
        ∃ window, settlementDay day PARIS = .ok window) ∧
      (∀ day next window window', next.ordinal = day.ordinal + 1 →
        settlementDay day PARIS = .ok window → settlementDay next PARIS = .ok window' →
          window.2 = window'.1) ∧
      (∀ first last window window' windows, settlementDay first PARIS = .ok window →
        settlementDay last PARIS = .ok window' →
          (days first last).mapM (fun day => settlementDay day PARIS) = .ok windows →
            Tiles windows window.1 window'.2) ∧
      ∀ day window, settlementDay day PARIS = .ok window →
        window.2.micros - window.1.micros = 23 * HOUR ∨
          window.2.micros - window.1.micros = 24 * HOUR ∨
          window.2.micros - window.1.micros = 25 * HOUR := by
  refine ⟨?_, ?_, ?_, ?_, ?_⟩
  · intro day window h
    exact within_settlementDay_iff h
  · intro day h₁ h₂
    exact exists_settlementDay h₁ h₂
  · intro day next window window' hnext h h'
    exact settlementDay_shared hnext h h'
  · intro first last window window' windows hfirst hlast h
    exact tiles_days hfirst hlast h
  · intro day window h
    exact settlementDay_length h

/-- 26 October 2025, when summer time ended, and the day after. -/
def october (day : Fin 2) : Date :=
  ⟨739550 + (day : ℕ), by have := day.isLt; have : MAX_ORDINAL = 3652059 := rfl; omega⟩

/-- Their windows: from 22:00 UTC to 23:00 UTC a day later, and from there on. -/
def octoberWindow : Fin 2 → Instant × Instant
  | 0 => (⟨739550 * DAY - 2 * HOUR, by decide⟩, ⟨739551 * DAY - HOUR, by decide⟩)
  | 1 => (⟨739551 * DAY - HOUR, by decide⟩, ⟨739552 * DAY - HOUR, by decide⟩)

/-- The day with a doubled hour is 25 hours long, and nothing of it is lost
between it and the next. -/
theorem settlement_windows_october :
    (∀ u, Within (octoberWindow 0) u ↔ parisDate u.micros = (october 0).ordinal) ∧
      (∃ window, settlementDay (october 0) PARIS = .ok window) ∧
      (octoberWindow 0).2 = (octoberWindow 1).1 ∧
      Tiles [octoberWindow 0, octoberWindow 1] (octoberWindow 0).1 (octoberWindow 1).2 ∧
      (octoberWindow 0).2.micros - (octoberWindow 0).1.micros = 25 * HOUR := by
  have hday : settlementDay (october 0) PARIS = .ok (octoberWindow 0) := by decide +kernel
  have hnext : settlementDay (october 1) PARIS = .ok (octoberWindow 1) := by decide +kernel
  rcases settlement_windows with ⟨hwithin, hexists, hshared, htiles, hlength⟩
  refine ⟨hwithin _ _ hday, hexists _ (by decide) (by decide), hshared _ _ _ _ rfl hday hnext,
    htiles _ _ _ _ _ hday hnext (by decide +kernel), ?_⟩
  have hhours := hlength _ _ hday
  have h23 : (octoberWindow 0).2.micros - (octoberWindow 0).1.micros ≠ 23 * HOUR := by decide
  have h24 : (octoberWindow 0).2.micros - (octoberWindow 0).1.micros ≠ 24 * HOUR := by decide
  exact (hhours.resolve_left h23).resolve_left h24

end Gridlens
