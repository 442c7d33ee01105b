import Gridlens.Gaps
import Gridlens.SettlementDays
import Gridlens.Sql.Totals
import Mathlib.Data.Finset.Card

/-!
# Complete days

`quality.queries.COMPLETENESS` counts the distinct valid times of a zone on a
settlement day; `quality.bronze.completeness` compares the count with that of
the quarter hours of the day. The contract lets a record of any resolution in,
so valid times off the quarter hours count as well.

1. `passes_iff`, `completeness_periods`: what passes is a day with as many valid
   times as quarter hours.
2. `passes_complete_iff`: such a day is complete exactly where all of them lie
   on quarter hours; `complete_of_quarters`: which no resolution of whole quarters breaks.
3. `read_whole_iff`: what of it is judged, and which missing days reported, when
   the result of a query has more than one page.
-/

namespace Gridlens

open Sql

/-- `timedelta(minutes=15)`. -/
abbrev QUARTER_HOUR : Int := 15 * MINUTE

/-! ## The query -/

/-- A row of `local`. -/
structure LocalRow where
  zone : String
  settlementDay : Int
  productionType : String
  direction : String
  validTime : Int
  quantityMw : Int

def localRow (r : Row) : LocalRow where
  zone := r.zone
  settlementDay := parisDate r.validTime
  productionType := r.productionType
  direction := r.direction
  validTime := r.validTime
  quantityMw := r.quantityMw

/-- A row of the result. -/
structure DayRow where
  zone : String
  settlementDay : Int
  periods : Nat
  series : Nat
  densestSeries : Option Nat
  maxMw : Option Int

/-- `per_series`. -/
def perSeries (rows : List LocalRow) : List ((String × Int × String × String) × Nat) :=
  groupBy (fun l => (l.zone, l.settlementDay, l.productionType, l.direction))
    (fun rows => countDistinct (rows.map LocalRow.validTime)) rows

/-- The aggregates of `per_day`. -/
def dayAggregates (rows : List LocalRow) : Nat × Nat × Option Int :=
  (countDistinct (rows.map LocalRow.validTime),
    countDistinct (rows.map fun l => l.productionType ++ "/" ++ l.direction),
    (rows.map LocalRow.quantityMw).max?)

/-- `per_day`. -/
def perDay (rows : List LocalRow) : List ((String × Int) × Nat × Nat × Option Int) :=
  groupBy (fun l => (l.zone, l.settlementDay)) dayAggregates rows

/-- `densest`. -/
def densest (rows : List LocalRow) : List ((String × Int) × Option Nat) :=
  groupBy (fun s => (s.1.1, s.1.2.1)) (fun rows => (rows.map Prod.snd).max?) (perSeries rows)

/-- `COMPLETENESS`, of a table. -/
def completenessRows (T : List Row) : List DayRow :=
  let rows := T.map localRow
  let latest := (rows.map LocalRow.settlementDay).max?
  let joined := join (fun p d => decide (d.1 = p.1)) (perDay rows) (densest rows)
  (joined.filter fun j => (compare (· < ·) (some j.1.1.2) latest).holds).map fun j =>
    ⟨j.1.1.1, j.1.1.2, j.1.2.1, j.1.2.2.1, j.2.2, j.1.2.2.2⟩

/-! ## The check -/

/-- `expected_periods`. -/
def expectedPeriods (settlementDayText : String) : Py Int := do
  let (start, stop) ← settlementDay (← dateFromIso settlementDayText) PARIS
  periodCount start stop QUARTER_HOUR

abbrev MIN_SERIES_PER_DAY : Nat := 15

/-- The columns with an expectation the row does not meet; a null fails none. -/
def failedColumns (row : DayRow) (expected : Int) : List String :=
  (if (row.periods : Int) = expected then [] else ["periods"]) ++
    (if row.densestSeries.all fun densest => decide ((densest : Int) ≤ expected) then []
      else ["expected_periods"]) ++
    (if MIN_SERIES_PER_DAY ≤ row.series then [] else ["series"]) ++
    (if row.maxMw.all fun mw => decide (0 ≤ mw ∧ mw ≤ (MAX_QUANTITY_MW : Int) * 1000) then []
      else ["max_mw"])

/-- `completeness`, of the rows of its frame: what each of them fails. -/
def completeness (rows : List DayRow) : Py (List (List String)) :=
  rows.mapM fun row => do .ok (failedColumns row (← expectedPeriods (dateText row.settlementDay)))

/-- The row passes the expectation that its periods are those expected. -/
def Passes (row : DayRow) : Prop :=
  ∃ expected, expectedPeriods (dateText row.settlementDay) = .ok expected ∧
    "periods" ∉ failedColumns row expected

/-! ## Days and quarter hours -/

/-- What the contract admits. -/
def Admitted (T : List Row) : Prop := ∀ r ∈ T, ∃ record, r = stagedRow record

/-- The distinct valid times of a zone on a day. -/
def dayTimes (T : List Row) (zone : String) (ordinal : Int) : List Int :=
  ((T.filter fun r => decide (r.zone = zone ∧ parisDate r.validTime = ordinal)).map
    Row.validTime).dedup

/-- Every quarter hour of the day has a row of the zone. -/
def CompleteDay (T : List Row) (zone : String) (ordinal : Int) : Prop :=
  ∃ day window, day.ordinal = ordinal ∧ settlementDay day PARIS = .ok window ∧
    ∀ u : Int, window.1.micros ≤ u ∧ u < window.2.micros → u % QUARTER_HOUR = 0 →
      ∃ r ∈ T, r.zone = zone ∧ r.validTime = u

/-- The zone has as many valid times on the day as it has quarter hours. -/
def FullCount (T : List Row) (zone : String) (ordinal : Int) : Prop :=
  ∃ day window, day.ordinal = ordinal ∧ settlementDay day PARIS = .ok window ∧
    (dayTimes T zone ordinal).length * QUARTER_HOUR = window.2.micros - window.1.micros

section Query

variable {T : List Row} {row : DayRow} {zone : String} {ordinal : Int}

theorem mem_dayTimes {u : Int} : u ∈ dayTimes T zone ordinal ↔
    ∃ r ∈ T, (r.zone = zone ∧ parisDate r.validTime = ordinal) ∧ r.validTime = u := by
  unfold dayTimes
  rw [List.mem_dedup, List.mem_map]
  simp only [List.mem_filter, decide_eq_true_eq, and_assoc]

theorem nodup_dayTimes : (dayTimes T zone ordinal).Nodup := List.nodup_dedup _

/-- The rows of a zone on a day. -/
def localDay (T : List Row) (zone : String) (ordinal : Int) : List LocalRow :=
  partition (fun l : LocalRow => (l.zone, l.settlementDay)) (zone, ordinal) (T.map localRow)

theorem mem_localDay {l : LocalRow} : l ∈ localDay T zone ordinal ↔
    l ∈ T.map localRow ∧ (l.zone, l.settlementDay) = (zone, ordinal) := by
  unfold localDay partition
  rw [List.mem_filter, decide_eq_true_eq]

/-- A row of the result: the aggregates of the rows of its day, of which there
are some, and the count of a densest series; the day is older than the newest. -/
theorem completenessRow_eq (h : row ∈ completenessRows T) :
    (row.periods, row.series, row.maxMw) =
        dayAggregates (localDay T row.zone row.settlementDay) ∧
      row.densestSeries = ((partition (fun s : (String × Int × String × String) × Nat =>
        (s.1.1, s.1.2.1)) (row.zone, row.settlementDay)
          (perSeries (T.map localRow))).map Prod.snd).max? ∧
      (∃ l, l ∈ localDay T row.zone row.settlementDay) ∧
      (compare (· < ·) (some row.settlementDay)
        ((T.map localRow).map LocalRow.settlementDay).max?).holds = true := by
  unfold completenessRows at h
  simp only at h
  rcases List.mem_map.mp h with ⟨⟨⟨⟨zone, ordinal⟩, aggregates⟩, densest⟩, hjoined, rfl⟩
  rcases List.mem_filter.mp hjoined with ⟨hjoin, hlatest⟩
  rcases List.mem_flatMap.mp hjoin with ⟨day, hday, hmatch⟩
  rcases List.mem_map.mp hmatch with ⟨⟨key, most⟩, hmost, heq⟩
  cases heq
  rcases List.mem_filter.mp hmost with ⟨hmost, hkey⟩
  have hkey : key = (zone, ordinal) := of_decide_eq_true hkey
  rcases mem_groupBy.mp hday with ⟨⟨l, hl, hlkey⟩, haggregates⟩
  refine ⟨haggregates, ?_, ⟨l, mem_localDay.mpr ⟨hl, hlkey⟩⟩, hlatest⟩
  rw [← hkey]
  exact (mem_groupBy.mp hmost).2

/-- A row of the result counts the valid times of its day, which is older than
that of some row. -/
theorem mem_completenessRows (h : row ∈ completenessRows T) :
    row.periods = (dayTimes T row.zone row.settlementDay).length ∧
      (∃ r ∈ T, r.zone = row.zone ∧ parisDate r.validTime = row.settlementDay) ∧
      ∃ r ∈ T, row.settlementDay < parisDate r.validTime := by
  rcases completenessRow_eq h with ⟨haggregates, -, ⟨l, hl⟩, hlatest⟩
  refine ⟨?_, ?_, ?_⟩
  · -- the partition of the key is the rows of the zone on the day
    have hperiods : row.periods = countDistinct
        ((localDay T row.zone row.settlementDay).map LocalRow.validTime) :=
      congrArg Prod.fst haggregates
    rw [hperiods]
    unfold countDistinct dayTimes localDay partition
    rw [List.filter_map, List.map_map]
    congr 2
    refine congrArg (List.map Row.validTime) (List.filter_congr fun r _ => ?_)
    exact decide_eq_decide.mpr Prod.mk_inj
  · rcases mem_localDay.mp hl with ⟨hmem, hkey⟩
    rcases List.mem_map.mp hmem with ⟨r, hr, rfl⟩
    exact ⟨r, hr, congrArg Prod.fst hkey, congrArg Prod.snd hkey⟩
  · cases hmax : ((T.map localRow).map LocalRow.settlementDay).max? with
    | none =>
        rw [hmax] at hlatest
        cases hlatest
    | some latest =>
        rw [hmax, holds_compare_some, decide_eq_true_eq] at hlatest
        have hmem := List.max?_mem hmax
        rw [List.map_map] at hmem
        rcases List.mem_map.mp hmem with ⟨newest, hnewest, rfl⟩
        exact ⟨newest, hnewest, hlatest⟩

/-- A row has a series in `per_series`. -/
theorem exists_perSeries {rows : List LocalRow} {l : LocalRow} (hl : l ∈ rows) :
    ∃ s ∈ perSeries rows, (s.1.1, s.1.2.1) = (l.zone, l.settlementDay) :=
  ⟨_, mem_groupBy_of_mem hl, rfl⟩

/-- A zone with rows on a day older than the newest has a row in the result. -/
theorem exists_completenessRow {r newest : Row} (hr : r ∈ T) (hnewest : newest ∈ T)
    (hlt : parisDate r.validTime < parisDate newest.validTime) :
    ∃ row ∈ completenessRows T, row.zone = r.zone ∧ row.settlementDay = parisDate r.validTime := by
  have hlocal : localRow r ∈ T.map localRow := List.mem_map_of_mem hr
  -- its group of the day, and that of its series
  have hday : ((r.zone, parisDate r.validTime), dayAggregates (partition
      (fun l : LocalRow => (l.zone, l.settlementDay)) (r.zone, parisDate r.validTime)
        (T.map localRow))) ∈ perDay (T.map localRow) := mem_groupBy_of_mem hlocal
  have hdensest : ((r.zone, parisDate r.validTime), ((partition
      (fun s : (String × Int × String × String) × Nat => (s.1.1, s.1.2.1))
        (r.zone, parisDate r.validTime) (perSeries (T.map localRow))).map Prod.snd).max?) ∈
          densest (T.map localRow) :=
    mem_groupBy.mpr ⟨exists_perSeries hlocal, rfl⟩
  refine ⟨_, List.mem_map_of_mem (List.mem_filter.mpr ⟨List.mem_flatMap.mpr ⟨_, hday,
    List.mem_map_of_mem (List.mem_filter.mpr ⟨hdensest, decide_eq_true rfl⟩)⟩, ?_⟩), rfl, rfl⟩
  cases hmax : ((T.map localRow).map LocalRow.settlementDay).max? with
  | none =>
      rw [List.max?_eq_none_iff, List.map_map, List.map_eq_nil_iff] at hmax
      rw [hmax] at hr
      cases hr
  | some latest =>
      have hle : parisDate newest.validTime ≤ latest := by
        refine (List.max?_le_iff hmax).mp (le_refl latest) _ ?_
        rw [List.map_map]
        exact List.mem_map_of_mem hnewest
      show (compare (· < ·) (some (parisDate r.validTime)) (some latest)).holds = true
      rw [holds_compare_some, decide_eq_true_eq]
      exact hlt.trans_le hle

/-- The days of the result are dates, and the last one is none of them. -/
theorem day_bounds (hT : Admitted T) (h : row ∈ completenessRows T) :
    1 ≤ row.settlementDay ∧ row.settlementDay ≤ MAX_ORDINAL := by
  rcases mem_completenessRows h with ⟨-, ⟨r, hr, -, hday⟩, newest, hnewest, hlt⟩
  have hrange : ∀ r ∈ T, WallInRange r.validTime := by
    intro r hr
    rcases hT r hr with ⟨record, rfl⟩
    exact record.validTime.inRange
  have hfirst := hrange r hr
  have hlast := hrange newest hnewest
  have hoffset := parisOffset_cases r.validTime
  have hoffset' := parisOffset_cases newest.validTime
  unfold parisDate at hday hlt
  have hmax : MAX_ORDINAL = 3652059 := rfl
  generalize parisOffset r.validTime = offset at *
  generalize parisOffset newest.validTime = offset' at *
  unfold WallInRange at hfirst hlast
  rw [DAY_eq, HOUR_eq] at *
  omega

end Query

/-! ## What passes -/

section Passes

variable {T : List Row} {row : DayRow} {day : Date} {window : Instant × Instant}

theorem QUARTER_HOUR_eq : QUARTER_HOUR = 900000000 := rfl

theorem dateFromIso_dateText (day : Date) : dateFromIso (dateText day.ordinal) = .ok day := by
  unfold dateFromIso
  rw [castDate_dateText day.inRange]
  exact dif_pos day.inRange

/-- A day is a whole number of quarter hours, and some. -/
theorem window_quarters (hwindow : settlementDay day PARIS = .ok window) :
    0 < window.2.micros - window.1.micros ∧
      (window.2.micros - window.1.micros) % QUARTER_HOUR = 0 := by
  have hlength := settlementDay_length hwindow
  rw [HOUR_eq] at hlength
  rw [QUARTER_HOUR_eq]
  omega

/-- The quarter hours of a day are counted. -/
theorem expectedPeriods_ok (hwindow : settlementDay day PARIS = .ok window) :
    expectedPeriods (dateText day.ordinal) =
      .ok ((window.2.micros - window.1.micros) / QUARTER_HOUR) := by
  rcases window_quarters hwindow with ⟨hpos, hwhole⟩
  unfold expectedPeriods periodCount
  rw [dateFromIso_dateText, ok_bind, hwindow, ok_bind]
  simp only
  rw [if_neg (not_le.mpr hpos), if_neg (not_not.mpr hwhole)]

theorem not_mem_failedColumns {expected : Int} :
    "periods" ∉ failedColumns row expected ↔ (row.periods : Int) = expected := by
  unfold failedColumns
  constructor
  · intro hnone
    by_contra hne
    rw [if_neg hne] at hnone
    exact hnone (by simp)
  · intro heq
    rw [if_pos heq]
    split_ifs <;> simp

/-- A day passes with as many valid times as it has quarter hours. -/
theorem passes_iff (hT : Admitted T) (h : row ∈ completenessRows T) :
    Passes row ↔ FullCount T row.zone row.settlementDay := by
  rcases mem_completenessRows h with ⟨hperiods, -, -⟩
  rcases (⟨⟨_, day_bounds hT h⟩, rfl⟩ : ∃ day : Date, day.ordinal = row.settlementDay) with
    ⟨day, hordinal⟩
  unfold Passes FullCount
  rw [← hperiods, ← hordinal]
  simp only [not_mem_failedColumns]
  constructor
  · rintro ⟨expected, hexpected, hnone⟩
    have hread := hexpected
    unfold expectedPeriods at hread
    rw [dateFromIso_dateText, ok_bind] at hread
    rcases bind_eq_ok.mp hread with ⟨window, hwindow, -⟩
    rw [expectedPeriods_ok hwindow] at hexpected
    rcases window_quarters hwindow with ⟨-, hwhole⟩
    refine ⟨day, window, rfl, hwindow, ?_⟩
    rw [hnone, ← Except.ok.inj hexpected]
    exact Int.ediv_mul_cancel (Int.dvd_of_emod_eq_zero hwhole)
  · rintro ⟨day', window, hsame, hwindow, hcount⟩
    refine ⟨_, by rw [← hsame]; exact expectedPeriods_ok hwindow, ?_⟩
    rw [← hcount]
    exact (Int.mul_ediv_cancel _ (by decide)).symm

/-- So the check tells the days that have as many from the others. -/
theorem completeness_periods (hT : Admitted T) {results : List (List String)}
    (h : completeness (completenessRows T) = .ok results) :
    List.Forall₂ (fun row failed => "periods" ∉ failed ↔ FullCount T row.zone row.settlementDay)
      (completenessRows T) results := by
  have heach := (List.forall₂_and_left _ _).mpr
    ⟨fun row (hrow : row ∈ completenessRows T) => hrow, mapM_eq_ok.mp h⟩
  refine heach.imp fun row failed hrow => ?_
  rcases hrow with ⟨hmem, hfailed⟩
  rcases bind_eq_ok.mp hfailed with ⟨expected, hexpected, hcolumns⟩
  cases hcolumns
  rw [← passes_iff hT hmem]
  constructor
  · intro hnone
    exact ⟨expected, hexpected, hnone⟩
  · rintro ⟨expected', hexpected', hnone⟩
    rw [hexpected] at hexpected'
    cases hexpected'
    exact hnone

/-- The quarter hours of a day. -/
def quarterHours (window : Instant × Instant) : Finset Int :=
  (Finset.range ((window.2.micros - window.1.micros) / QUARTER_HOUR).toNat).image
    fun i : Nat => window.1.micros + i * QUARTER_HOUR

theorem card_quarterHours (window : Instant × Instant) : (quarterHours window).card =
    ((window.2.micros - window.1.micros) / QUARTER_HOUR).toNat := by
  unfold quarterHours
  rw [Finset.card_image_of_injective, Finset.card_range]
  intro i j hij
  rw [QUARTER_HOUR_eq] at hij
  simp only at hij
  omega

theorem mem_quarterHours (hwindow : settlementDay day PARIS = .ok window) {u : Int} :
    u ∈ quarterHours window ↔
      (window.1.micros ≤ u ∧ u < window.2.micros) ∧ u % QUARTER_HOUR = 0 := by
  rcases window_quarters hwindow with ⟨hpos, hwhole⟩
  have hstart := (@settlementDay_paris _ window.1 window.2 hwindow).1
  have hoffset := parisOffset_cases (day.ordinal * DAY - 2 * HOUR)
  unfold parisMidnight at hstart
  generalize parisOffset (day.ordinal * DAY - 2 * HOUR) = offset at *
  have hdays : day.ordinal * DAY = day.ordinal * 96 * QUARTER_HOUR := by
    rw [DAY_eq, QUARTER_HOUR_eq]
    ring
  rw [hdays] at hstart
  unfold quarterHours
  rw [Finset.mem_image]
  rw [QUARTER_HOUR_eq] at *
  rw [HOUR_eq] at hoffset
  generalize day.ordinal * 96 = quarters at hstart
  constructor
  · rintro ⟨i, hi, rfl⟩
    rw [Finset.mem_range] at hi
    omega
  · rintro ⟨⟨hfirst, hlast⟩, hquarter⟩
    exact ⟨((u - window.1.micros) / 900000000).toNat, Finset.mem_range.mpr (by omega), by omega⟩

/-- The valid times of a day lie in its window. -/
theorem within_of_mem_dayTimes (hT : Admitted T) (hwindow : settlementDay day PARIS = .ok window)
    {u : Int} (hu : u ∈ dayTimes T row.zone day.ordinal) :
    window.1.micros ≤ u ∧ u < window.2.micros := by
  rcases mem_dayTimes.mp hu with ⟨r, hr, ⟨-, hday⟩, rfl⟩
  rcases hT r hr with ⟨record, rfl⟩
  exact (within_settlementDay_iff hwindow record.validTime).mpr hday

/-- A complete day has its quarter hours among its valid times. -/
theorem completeDay_iff_subset (hT : Admitted T) (hwindow : settlementDay day PARIS = .ok window) :
    CompleteDay T row.zone day.ordinal ↔
      quarterHours window ⊆ (dayTimes T row.zone day.ordinal).toFinset := by
  constructor
  · rintro ⟨day', window', hordinal, hwindow', hall⟩ u hu
    have hday : day' = day := date_eq_iff.mpr hordinal
    rw [hday, hwindow] at hwindow'
    cases hwindow'
    rcases (mem_quarterHours hwindow).mp hu with ⟨hin, hquarter⟩
    rcases hall u hin hquarter with ⟨r, hr, hzone, rfl⟩
    rcases hT r hr with ⟨record, rfl⟩
    rw [List.mem_toFinset, mem_dayTimes]
    exact ⟨_, hr, ⟨hzone, (within_settlementDay_iff hwindow record.validTime).mp hin⟩, rfl⟩
  · intro hsub
    refine ⟨day, window, rfl, hwindow, fun u hin hquarter => ?_⟩
    have hmem := hsub ((mem_quarterHours hwindow).mpr ⟨hin, hquarter⟩)
    rcases mem_dayTimes.mp (List.mem_toFinset.mp hmem) with ⟨r, hr, ⟨hzone, -⟩, htime⟩
    exact ⟨r, hr, hzone, htime⟩

/-- And one whose valid times are quarter hours has them among its quarter hours. -/
theorem subset_quarterHours_iff (hT : Admitted T)
    (hwindow : settlementDay day PARIS = .ok window) :
    (dayTimes T row.zone day.ordinal).toFinset ⊆ quarterHours window ↔
      ∀ u ∈ dayTimes T row.zone day.ordinal, u % QUARTER_HOUR = 0 := by
  constructor
  · intro hsub u hu
    exact ((mem_quarterHours hwindow).mp (hsub (List.mem_toFinset.mpr hu))).2
  · intro hquarters u hu
    rw [List.mem_toFinset] at hu
    exact (mem_quarterHours hwindow).mpr ⟨within_of_mem_dayTimes hT hwindow hu, hquarters u hu⟩

/-- Where a day that passes is complete: where, if it has as many valid times
as quarter hours, all of them are quarter hours. -/
theorem passes_complete_iff (hT : Admitted T) (h : row ∈ completenessRows T) :
    (Passes row → CompleteDay T row.zone row.settlementDay) ↔
      (FullCount T row.zone row.settlementDay →
        ∀ u ∈ dayTimes T row.zone row.settlementDay, u % QUARTER_HOUR = 0) := by
  rw [passes_iff hT h]
  refine imp_congr_right fun hfull => ?_
  rcases hfull with ⟨day, window, hordinal, hwindow, hcount⟩
  rw [← hordinal] at hcount ⊢
  have hcard : (dayTimes T row.zone day.ordinal).toFinset.card = (quarterHours window).card := by
    rw [List.toFinset_card_of_nodup nodup_dayTimes, card_quarterHours, ← hcount,
      Int.mul_ediv_cancel _ (by decide)]
    exact (Int.toNat_natCast _).symm
  -- of as many, either all are among the others or none is missing
  rw [completeDay_iff_subset hT hwindow, ← subset_quarterHours_iff hT hwindow]
  constructor
  · intro hsub
    exact (Finset.eq_of_subset_of_card_le hsub hcard.le).ge
  · intro hsub
    exact (Finset.eq_of_subset_of_card_le hsub hcard.ge).ge

/-- A valid time on the boundary of a resolution of whole quarters is a quarter hour. -/
theorem quarter_of_onBoundary {resolution : Int} {u : Instant} (hu : OnBoundary resolution u)
    (hquarters : resolution % 15 = 0) : u.micros % QUARTER_HOUR = 0 := by
  have hdvd : QUARTER_HOUR ∣ resolution * MINUTE :=
    mul_dvd_mul_right (Int.dvd_of_emod_eq_zero hquarters) MINUTE
  have hday : QUARTER_HOUR ∣ DAY := by decide
  have hsince : QUARTER_HOUR ∣ u.micros % DAY := hdvd.trans (Int.dvd_of_emod_eq_zero hu)
  rw [← Int.emod_add_mul_ediv u.micros DAY]
  exact Int.emod_eq_zero_of_dvd (Int.dvd_add hsince (hday.mul_right _))

/-- The check is sound for records of whole quarters, mixed in any way. -/
theorem complete_of_quarters (hT : ∀ r ∈ T, ∃ record : GenerationRecord, r = stagedRow record ∧
    record.resolutionMinutes % 15 = 0) (h : row ∈ completenessRows T) (hpasses : Passes row) :
    CompleteDay T row.zone row.settlementDay := by
  have hadmitted : Admitted T := by
    intro r hr
    rcases hT r hr with ⟨record, hrecord, -⟩
    exact ⟨record, hrecord⟩
  refine (passes_complete_iff hadmitted h).mpr (fun _ u hu => ?_) hpasses
  rcases mem_dayTimes.mp hu with ⟨r, hr, -, rfl⟩
  rcases hT r hr with ⟨record, rfl, hquarters⟩
  exact quarter_of_onBoundary record.on_boundary hquarters

end Passes

/-! ## A day of five minutes -/

theorem fiveMinutes_inRange (i : Fin 576) : WallInRange (63923385600000000 + i * 300000000) := by
  have hi := i.isLt
  unfold WallInRange
  rw [DAY_eq]
  have hmax : MAX_ORDINAL = 3652059 := rfl
  omega

theorem lastFiveMinutes_inRange : WallInRange 63923558100000000 := by decide

theorem fiveMinutes_bounds : 0 < (5 : Int) ∧ (5 : Int) ≤ 1440 := by decide

theorem fiveMinutes_plausible : Plausible (.finite false 100 0) :=
  ⟨fun h => absurd h (by decide), by decide, by decide⟩

theorem fiveMinutes_boundary (i : Fin 576) :
    OnBoundary 5 ⟨63923385600000000 + i * 300000000, fiveMinutes_inRange i⟩ := by
  have hi := i.isLt
  have hfive : 5 * MINUTE = 300000000 := rfl
  unfold OnBoundary
  simp only
  rw [DAY_eq, hfive]
  omega

/-- A record for five minutes of 26 August 2026, or the day behind it. -/
def fiveMinutes (i : Fin 576) : GenerationRecord where
  source := .entsoe
  sourceDocumentId := none
  zone := .FR
  productionType := .NUCLEAR
  direction := .generation
  unit := .MW
  resolutionMinutes := 5
  validTime := ⟨63923385600000000 + i * 300000000, fiveMinutes_inRange i⟩
  knownAt := ⟨63923558100000000, lastFiveMinutes_inRange⟩
  sourceUpdatedAt := none
  quantityMw := .finite false 100 0
  resolution_bounds := fiveMinutes_bounds
  quantity_plausible := fiveMinutes_plausible
  on_boundary := fiveMinutes_boundary i
  known_after := by
    have hi := i.isLt
    simp only
    omega

/-- Eight hours of five minutes, and one on the next day. -/
def fiveMinuteTable : List Row :=
  ((List.finRange 576).filter fun i => i.val < 96 ∨ i.val = 288).map fun i =>
    stagedRow (fiveMinutes i)

theorem admitted_fiveMinutes : Admitted fiveMinuteTable := by
  intro r hr
  rcases List.mem_map.mp hr with ⟨i, -, rfl⟩
  exact ⟨fiveMinutes i, rfl⟩

/-- The valid times of the first day. -/
theorem mem_dayTimes_fiveMinutes {u : Int} :
    u ∈ dayTimes fiveMinuteTable "10YFR-RTE------C" 739854 ↔
      ∃ i : Nat, i < 96 ∧ 63923385600000000 + i * 300000000 = u := by
  rw [mem_dayTimes]
  unfold fiveMinuteTable
  constructor
  · rintro ⟨r, hr, ⟨-, hday⟩, rfl⟩
    rcases List.mem_map.mp hr with ⟨i, hi, rfl⟩
    have hi := (List.mem_filter.mp hi).2
    rw [decide_eq_true_eq] at hi
    refine ⟨i, ?_, rfl⟩
    have hoffset := parisOffset_cases (63923385600000000 + i * 300000000)
    have hdate : (63923385600000000 + i * 300000000 +
        parisOffset (63923385600000000 + i * 300000000)) / DAY = 739854 := hday
    generalize parisOffset (63923385600000000 + i * 300000000) = offset at *
    rw [DAY_eq] at hdate
    rw [HOUR_eq] at hoffset
    omega
  · rintro ⟨i, hi, rfl⟩
    refine ⟨stagedRow (fiveMinutes ⟨i, by omega⟩), ?_, ⟨rfl, ?_⟩, rfl⟩
    · exact List.mem_map_of_mem (List.mem_filter.mpr ⟨List.mem_finRange _,
        decide_eq_true (Or.inl hi)⟩)
    · show (63923385600000000 + i * 300000000 +
        parisOffset (63923385600000000 + i * 300000000)) / DAY = 739854
      have hoffset := parisOffset_cases (63923385600000000 + i * 300000000)
      generalize parisOffset (63923385600000000 + i * 300000000) = offset at *
      rw [DAY_eq]
      rw [HOUR_eq] at hoffset
      omega

theorem length_dayTimes_fiveMinutes :
    (dayTimes fiveMinuteTable "10YFR-RTE------C" 739854).length = 96 := by
  have hnodup : ((List.range 96).map fun i : Nat =>
      (63923385600000000 + i * 300000000 : Int)).Nodup := by
    refine List.nodup_range.map fun i j hij => ?_
    have htimes : (63923385600000000 + i * 300000000 : Int) =
      63923385600000000 + j * 300000000 := hij
    omega
  have hsame : ∀ u, u ∈ dayTimes fiveMinuteTable "10YFR-RTE------C" 739854 ↔
      u ∈ (List.range 96).map fun i : Nat => (63923385600000000 + i * 300000000 : Int) := by
    intro u
    rw [mem_dayTimes_fiveMinutes, List.mem_map]
    simp only [List.mem_range]
  have hperm := (List.perm_ext_iff_of_nodup nodup_dayTimes hnodup).mpr hsame
  rw [hperm.length_eq, List.length_map, List.length_range]

theorem augustDay_inRange : 1 ≤ (739854 : Int) ∧ (739854 : Int) ≤ MAX_ORDINAL := by decide

/-- 26 August 2026. -/
def augustDay : Date := ⟨739854, augustDay_inRange⟩

theorem parisMidnight_augustDay : parisMidnight 739854 = 63923378400000000 ∧
    parisMidnight (739854 + 1) = 63923464800000000 := by decide

theorem exists_augustRow : ∃ row ∈ completenessRows fiveMinuteTable,
    row.zone = "10YFR-RTE------C" ∧ row.settlementDay = 739854 := by
  have hmem : ∀ i : Fin 576, i.val < 96 ∨ i.val = 288 →
      stagedRow (fiveMinutes i) ∈ fiveMinuteTable := fun i hi =>
    List.mem_map_of_mem (List.mem_filter.mpr ⟨List.mem_finRange i, decide_eq_true hi⟩)
  have hfirst : parisDate (stagedRow (fiveMinutes 0)).validTime = 739854 := by decide
  have hnext : parisDate (stagedRow (fiveMinutes 288)).validTime = 739855 := by decide
  rcases exists_completenessRow (hmem 0 (by decide)) (hmem 288 (by decide))
    (by rw [hfirst, hnext]; decide) with ⟨row, hrow, hzone, hday⟩
  exact ⟨row, hrow, hzone, hday.trans hfirst⟩

/-- Ninety-six times of five minutes pass for the day, which has no row before
two in the morning. -/
theorem five_minutes_pass : Admitted fiveMinuteTable ∧
    ∃ row ∈ completenessRows fiveMinuteTable, Passes row ∧
      ¬ CompleteDay fiveMinuteTable row.zone row.settlementDay := by
  rcases exists_augustRow with ⟨row, hrow, hzone, hday⟩
  have hexists : ∃ window, settlementDay augustDay PARIS = .ok window :=
    exists_settlementDay (by decide) (by decide)
  rcases hexists with ⟨window, hwindow⟩
  have hbounds := @settlementDay_paris _ window.1 window.2 hwindow
  have hordinal : augustDay.ordinal = 739854 := rfl
  rw [hordinal, parisMidnight_augustDay.1, parisMidnight_augustDay.2] at hbounds
  refine ⟨admitted_fiveMinutes, row, hrow, ?_, ?_⟩
  · rw [passes_iff admitted_fiveMinutes hrow, hzone, hday]
    refine ⟨augustDay, window, rfl, hwindow, ?_⟩
    rw [length_dayTimes_fiveMinutes, hbounds.1, hbounds.2]
    decide
  · rw [hzone, hday]
    rintro ⟨day, window', hordinal, hwindow', hall⟩
    have hsame : day = augustDay := date_eq_iff.mpr hordinal
    rw [hsame, hwindow] at hwindow'
    cases hwindow'
    rcases hall 63923378400000000 (by omega) (by decide) with ⟨r, hr, -, htime⟩
    rcases List.mem_map.mp hr with ⟨i, -, rfl⟩
    have hlater : (63923385600000000 + i * 300000000 : Int) = 63923378400000000 := htime
    omega

theorem passes_complete_august : ∃ row ∈ completenessRows fiveMinuteTable,
    ((Passes row → CompleteDay fiveMinuteTable row.zone row.settlementDay) ↔
      (FullCount fiveMinuteTable row.zone row.settlementDay →
        ∀ u ∈ dayTimes fiveMinuteTable row.zone row.settlementDay, u % QUARTER_HOUR = 0)) := by
  rcases exists_augustRow with ⟨row, hrow, -, -⟩
  exact ⟨row, hrow, passes_complete_iff admitted_fiveMinutes hrow⟩

/-! ## A result of more than one page -/

/-- A row of the result as its cells, in the order of the columns; a double is
written by the engine. -/
def dayCells (double : Int → String) (row : DayRow) : Cells :=
  [some row.zone, some (dateText row.settlementDay), some (toString row.periods),
    some (toString row.series), row.densestSeries.map toString, row.maxMw.map double]

/-- The row is in the frame that is validated. -/
def DayJudged (double : Int → String) (a : QueryAnswer) (row : DayRow) : Prop :=
  ∃ frame scanned, bronzeFetch a = .ok (frame, scanned) ∧ dayCells double row ∈ frame.body

/-- The day is among those that are reported. -/
def DayReported (client : GapQuery → QueryAnswer) (database : String) (start stop day : Date) :
    Prop :=
  ∃ found, missingSettlementDays client database start stop = .ok found ∧ day ∈ found

section Pages

variable {T : List Row} {a : QueryAnswer} {header : Cells} {data : List Cells}
  {double : Int → String} {client : GapQuery → QueryAnswer} {start stop : Date}

/-- A part of a list that has all of it is all of it, if nothing is there twice. -/
theorem append_eq_left_of_subset {α : Type} {front back : List α} (hnodup : (front ++ back).Nodup)
    (hall : ∀ x ∈ front ++ back, x ∈ front) : back = [] := by
  refine List.eq_nil_iff_forall_not_mem.mpr fun x hx => ?_
  have hfront := hall x (List.mem_append_right front hx)
  exact (List.nodup_append.mp hnodup).2.2 x hfront x hx rfl

/-- A day of a zone has one row in the result. -/
theorem completenessRows_keys_nodup :
    ((completenessRows T).map fun row => (row.zone, row.settlementDay)).Nodup := by
  have hone : ∀ p ∈ perDay (T.map localRow), (densest (T.map localRow)).filter
      (fun d => decide (d.1 = p.1)) = [(p.1, ((partition (fun s : (String × Int × String × String) ×
        Nat => (s.1.1, s.1.2.1)) p.1 (perSeries (T.map localRow))).map Prod.snd).max?)] := by
    intro p hp
    rcases mem_groupBy.mp hp with ⟨⟨l, hl, hkey⟩, -⟩
    rw [← hkey]
    exact filter_groupBy (exists_perSeries hl)
  have hkeys : ((join (fun p d => decide (d.1 = p.1)) (perDay (T.map localRow))
      (densest (T.map localRow))).map fun j => j.1.1).Nodup := by
    rw [join_eq_map hone, List.map_map]
    exact groupBy_keys_nodup
  unfold completenessRows
  simp only
  rw [List.map_map]
  exact (List.filter_sublist.map _).nodup hkeys

/-- The rows differ in their first two cells. -/
theorem nodup_dayCells (hT : Admitted T) : ((completenessRows T).map (dayCells double)).Nodup := by
  refine List.Nodup.map_on ?_ completenessRows_keys_nodup.of_map
  intro row hrow row' hrow' hcells
  have hzone : row.zone = row'.zone := Option.some.inj (List.cons.inj hcells).1
  have htext : dateText row.settlementDay = dateText row'.settlementDay :=
    Option.some.inj (List.cons.inj (List.cons.inj hcells).2).1
  have hday := congrArg castDate htext
  rw [castDate_dateText (day_bounds hT hrow), castDate_dateText (day_bounds hT hrow')] at hday
  exact List.inj_on_of_nodup_map completenessRows_keys_nodup hrow hrow'
    (Prod.ext hzone (Option.some.inj hday))

/-- Every day is judged where the first page is all of the result. -/
theorem judged_iff (hT : Admitted T)
    (h : HoldsResult a header ((completenessRows T).map (dayCells double))) :
    (∀ row ∈ completenessRows T, DayJudged double a row) ↔
      a.rows = header :: (completenessRows T).map (dayCells double) := by
  rcases h.rows_eq with ⟨front, back, hrows, hdata⟩
  have hfetch : bronzeFetch a = .ok (⟨header, front⟩, a.execution.dataScannedInBytes) := by
    unfold bronzeFetch
    rw [if_pos h.succeeded, hrows]
  have hnodup : ((completenessRows T).map (dayCells double)).Nodup := nodup_dayCells hT
  constructor
  · intro hall
    have hback : back = [] := by
      rw [hdata] at hnodup
      refine append_eq_left_of_subset hnodup fun cells hcells => ?_
      rw [← hdata] at hcells
      rcases List.mem_map.mp hcells with ⟨row, hrow, rfl⟩
      rcases hall row hrow with ⟨frame, scanned, hframe, hmem⟩
      rw [hfetch] at hframe
      cases hframe
      exact hmem
    rw [hrows, hdata, hback, List.append_nil]
  · intro hwhole row hrow
    rw [hrows] at hwhole
    refine ⟨_, _, hfetch, ?_⟩
    rw [(List.cons.inj hwhole).2]
    exact List.mem_map_of_mem hrow

/-- Every missing day is reported where the first page is all of the result. -/
theorem reported_iff {database : String} (hle : start.ordinal ≤ stop.ordinal)
    (hbounds : Bounded start stop)
    (h : HoldsResult (client (gapQuery database start stop)) [some "missing_day"]
      ((missingOrdinals T start stop).map fun n => [some (dateText n)])) :
    (∀ day, MissingDay T start stop day → DayReported client database start stop day) ↔
      (client (gapQuery database start stop)).rows = [some "missing_day"] ::
        (missingOrdinals T start stop).map fun n => [some (dateText n)] := by
  rcases h.rows_eq with ⟨front, back, hrows, hdata⟩
  -- the first page has the first of the days
  rcases List.map_eq_append_iff.mp hdata with ⟨first, rest, hsplit, rfl, rfl⟩
  have hfirst : ∀ n ∈ first, 1 ≤ n ∧ n ≤ MAX_ORDINAL := by
    intro n hn
    have hmem : n ∈ missingOrdinals T start stop := by
      rw [hsplit]
      exact List.mem_append_left rest hn
    exact missingOrdinals_bounds n hmem
  rcases missingSettlementDays_rows hle hbounds hfirst h.succeeded hrows with
    ⟨found, hfound, hordinals⟩
  constructor
  · intro hall
    have hnodup : (first ++ rest).Nodup := by
      rw [← hsplit]
      exact (missingOrdinals_pairwise T start stop).imp ne_of_lt
    have hrest : rest = [] := by
      refine append_eq_left_of_subset hnodup fun n hn => ?_
      rw [← hsplit] at hn
      have hday : MissingDay T start stop ⟨n, missingOrdinals_bounds n hn⟩ :=
        mem_missingOrdinals.mp hn
      rcases hall _ hday with ⟨found', hfound', hmem⟩
      rw [hfound] at hfound'
      cases hfound'
      rw [mem_iff_ordinal, hordinals] at hmem
      exact hmem
    rw [hrows, hsplit, hrest, List.append_nil]
  · intro hwhole day hday
    refine ⟨found, hfound, ?_⟩
    -- the first page has as many days as there are
    have hlength := congrArg List.length (hrows.symm.trans hwhole)
    rw [List.length_cons, List.length_cons, List.length_map, List.length_map, hsplit,
      List.length_append] at hlength
    have hrest : rest = [] := List.eq_nil_of_length_eq_zero (by omega)
    have hmem := mem_missingOrdinals.mpr hday
    rw [hsplit, hrest, List.append_nil] at hmem
    rw [mem_iff_ordinal, hordinals]
    exact hmem

end Pages

/-- A result is read whole exactly where its first page is all of it, which
leaves room for 999 rows; where it is not, days of it are not judged, and
missing days not reported. -/
theorem read_whole_iff {a : QueryAnswer} {header : Cells} {data : List Cells}
    (h : HoldsResult a header data) :
    (bronzeFetch a = .ok (⟨header, data⟩, a.execution.dataScannedInBytes) ∧
        gapRows a = .ok (data.map texts) ↔ a.rows = header :: data) ∧
      (a.rows = header :: data → data.length < PAGE_ROWS) ∧
      (∀ T double, Admitted T → data = (completenessRows T).map (dayCells double) →
        ((∀ row ∈ completenessRows T, DayJudged double a row) ↔ a.rows = header :: data)) ∧
      ∀ T client database start stop, start.ordinal ≤ stop.ordinal → Bounded start stop →
        client (gapQuery database start stop) = a → header = [some "missing_day"] →
        data = (missingOrdinals T start stop).map (fun n => [some (dateText n)]) →
        ((∀ day, MissingDay T start stop day → DayReported client database start stop day) ↔
          a.rows = header :: data) := by
  refine ⟨?_, h.length_lt, ?_, ?_⟩
  · rw [fetch_whole_iff h]
    exact and_iff_left_of_imp (rowsOr_whole_iff h .GapQueryFailed).mpr
  · intro T double hT hdata
    rw [hdata] at h ⊢
    exact judged_iff hT h
  · intro T client database start stop hle hbounds hclient hheader hdata
    rw [hheader, hdata, ← hclient] at h ⊢
    exact reported_iff hle hbounds h

/-- A thousand rows. -/
def manyDays : List Cells := List.replicate 999 [some "2026-08-26"] ++ [[some "2026-08-27"]]

theorem length_manyDays : manyDays.length = 1000 := by
  unfold manyDays
  rw [List.length_append, List.length_replicate, List.length_singleton]

/-- The last of the rows is on a page of its own. -/
def thousandRows : QueryAnswer :=
  ⟨⟨true, none, 0⟩, [[some "missing_day"] :: List.replicate 999 [some "2026-08-26"],
    [[some "2026-08-27"]]]⟩

theorem holdsResult_thousandRows : HoldsResult thousandRows [some "missing_day"] manyDays := by
  refine ⟨rfl, ?_, ?_, List.cons_ne_nil _ _⟩
  · show ([some "missing_day"] :: List.replicate 999 [some "2026-08-26"]) ++
      ([[some "2026-08-27"]] ++ []) = _
    rw [List.append_nil, List.cons_append]
    rfl
  · intro page hpage
    rcases List.mem_cons.mp hpage with rfl | hpage
    · rw [List.length_cons, List.length_replicate]
    · rw [List.mem_singleton.mp hpage, List.length_singleton]
      decide

theorem read_whole_thousandRows :
    (bronzeFetch thousandRows = .ok (⟨[some "missing_day"], manyDays⟩, 0) ∧
        gapRows thousandRows = .ok (manyDays.map texts) ↔
      thousandRows.rows = [some "missing_day"] :: manyDays) :=
  (read_whole_iff holdsResult_thousandRows).1

/-- One page of the two is read. -/
theorem thousandth_row_lost : HoldsResult thousandRows [some "missing_day"] manyDays ∧
    bronzeFetch thousandRows ≠ .ok (⟨[some "missing_day"], manyDays⟩, 0) ∧
    gapRows thousandRows ≠ .ok (manyDays.map texts) := by
  have hcut : thousandRows.rows ≠ [some "missing_day"] :: manyDays := by
    intro hall
    have hlt := holdsResult_thousandRows.length_lt hall
    rw [length_manyDays] at hlt
    exact lt_irrefl _ hlt
  refine ⟨holdsResult_thousandRows, ?_, ?_⟩
  · intro hfetch
    exact hcut ((fetch_whole_iff holdsResult_thousandRows).mp hfetch)
  · intro hrows
    exact hcut ((rowsOr_whole_iff holdsResult_thousandRows .GapQueryFailed).mp hrows)

end Gridlens
