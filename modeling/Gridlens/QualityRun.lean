import Gridlens.Completeness
import Gridlens.Identity
import Gridlens.Invariants
import Gridlens.Sql.Distinct

/-!
# What the quality run finds

`quality.bronze.run` validates the one row of `INVARIANTS` and then the days of
`COMPLETENESS`. The two queries find bronze at two moments, and it may be
loaded in between.

As long as no `known_at` is given that is later than the clock, six of the ten
expectations decide nothing: what calls do to bronze keeps them, or another one
fails with them. The other four are what a run is green by
(`quality_passes_iff`): no identity is held twice, something was learned in the
last 49 hours, and every day that is judged has as many periods as the calendar
says, and fifteen series.
-/

namespace Gridlens

open Effects Sql

/-! ## The run -/

abbrev MAX_HOURS_SINCE_LAST_LEARNED : Int := 48

/-- The expectations of `invariants`, by their columns. -/
abbrev INVARIANT_COLUMNS : List String :=
  ["duplicate_keys", "future_periods", "known_before_it_happened", "negative_quantities",
    "hours_since_last_learned"]

/-- The expectations of `completeness`, a pair by its first column. -/
abbrev COMPLETENESS_COLUMNS : List String :=
  ["periods", "expected_periods", "series", "max_mw", "zone"]

/-- The columns with an expectation the row of `INVARIANTS` does not meet; a
null fails none. -/
def failedInvariants (row : InvariantCounts) : List String :=
  (if row.duplicateKeys = 0 then [] else ["duplicate_keys"]) ++
    (if row.futurePeriods = 0 then [] else ["future_periods"]) ++
    (if row.knownBeforeItHappened = 0 then [] else ["known_before_it_happened"]) ++
    (if row.negativeQuantities = 0 then [] else ["negative_quantities"]) ++
    (if row.hoursSinceLastLearned.all fun hours =>
        decide (0 ≤ hours ∧ hours ≤ MAX_HOURS_SINCE_LAST_LEARNED) then []
      else ["hours_since_last_learned"])

/-- The expectations some row does not meet, in their order. -/
def failedOf (columns : List String) (results : List (List String)) : List String :=
  columns.filter fun column => results.any fun failed => decide (column ∈ failed)

/-- A query that has ended: its execution, and the rows of the first page
behind the header. -/
structure Ended (α : Type) where
  execution : Execution
  page : List α

/-- `fetch`, the rows read. -/
def Ended.fetch {α : Type} (a : Ended α) : Py (List α × Nat) :=
  if a.execution.succeeded then .ok (a.page, a.execution.dataScannedInBytes)
  else raise .RuntimeError [.text (a.execution.stateChangeReason.getD "query failed")]

/-- What `run` returns. -/
structure Report where
  expectations : Nat
  /-- The suite, and the column. -/
  failed : List (String × String)
  passed : Bool
  scannedBytes : Nat

/-- `quality.bronze.run`, of what its two queries answer. -/
def qualityRun (invariants : Ended InvariantCounts) (days : Ended DayRow) : Py Report := do
  let (rows, scanned) ← invariants.fetch
  let broken := failedOf INVARIANT_COLUMNS (rows.map failedInvariants)
  let (rows', scanned') ← days.fetch
  let results ← completeness rows'
  let incomplete := failedOf COMPLETENESS_COLUMNS results
  let failures := broken.map (fun column => ("invariants", column)) ++
    incomplete.map fun column => ("completeness", column)
  return {
    expectations := INVARIANT_COLUMNS.length + COMPLETENESS_COLUMNS.length
    failed := failures
    passed := decide (failures = [])
    scannedBytes := scanned + scanned' }

/-- `Ended.fetch` is `quality.bronze.fetch` with the rows read. -/
theorem bronzeFetch_eq {α : Type} {q : QueryAnswer} {header : Cells} {cells : α → Cells}
    {a : Ended α} (hrows : q.rows = header :: a.page.map cells)
    (hexecution : q.execution = a.execution) :
    bronzeFetch q = a.fetch.map fun r => (⟨header, r.1.map cells⟩, r.2) := by
  unfold bronzeFetch Ended.fetch
  rw [hrows, hexecution]
  split_ifs <;> rfl

/-! ## What fails -/

section Failed

variable {columns : List String} {results : List (List String)}

theorem failedOf_eq_nil_iff (hcolumns : ∀ failed ∈ results, failed ⊆ columns) :
    failedOf columns results = [] ↔ ∀ failed ∈ results, failed = [] := by
  unfold failedOf
  rw [List.filter_eq_nil_iff]
  constructor
  · intro hnone failed hfailed
    refine List.eq_nil_iff_forall_not_mem.mpr fun column hcolumn => ?_
    refine hnone column (hcolumns failed hfailed hcolumn) ?_
    exact List.any_eq_true.mpr ⟨failed, hfailed, decide_eq_true hcolumn⟩
  · intro hempty column _ hany
    rcases List.any_eq_true.mp hany with ⟨failed, hfailed, hcolumn⟩
    rw [hempty failed hfailed] at hcolumn
    exact absurd (of_decide_eq_true hcolumn) List.not_mem_nil

theorem failedInvariants_subset (row : InvariantCounts) :
    failedInvariants row ⊆ INVARIANT_COLUMNS := by
  unfold failedInvariants
  intro column hcolumn
  simp only [List.mem_append] at hcolumn
  rcases hcolumn with (((h | h) | h) | h) | h
  all_goals
    split_ifs at h
    · cases h
    · rw [List.mem_singleton.mp h]
      decide

theorem failedColumns_subset (row : DayRow) (expected : Int) :
    failedColumns row expected ⊆ COMPLETENESS_COLUMNS := by
  unfold failedColumns
  intro column hcolumn
  simp only [List.mem_append] at hcolumn
  rcases hcolumn with ((h | h) | h) | h
  all_goals
    split_ifs at h
    · cases h
    · rw [List.mem_singleton.mp h]
      decide

theorem failedInvariants_eq_nil_iff {row : InvariantCounts} : failedInvariants row = [] ↔
    row.duplicateKeys = 0 ∧ row.futurePeriods = 0 ∧ row.knownBeforeItHappened = 0 ∧
      row.negativeQuantities = 0 ∧ ∀ hours, row.hoursSinceLastLearned = some hours →
        0 ≤ hours ∧ hours ≤ MAX_HOURS_SINCE_LAST_LEARNED := by
  unfold failedInvariants
  simp only [List.append_eq_nil_iff, ite_eq_left_iff, List.cons_ne_nil, imp_false, not_not,
    Option.all_eq_true, decide_eq_true_eq, and_assoc]

theorem failedColumns_eq_nil_iff {row : DayRow} {expected : Int} :
    failedColumns row expected = [] ↔ (row.periods : Int) = expected ∧
      (∀ densest, row.densestSeries = some densest → (densest : Int) ≤ expected) ∧
      MIN_SERIES_PER_DAY ≤ row.series ∧
      ∀ mw, row.maxMw = some mw → 0 ≤ mw ∧ mw ≤ (MAX_QUANTITY_MW : Int) * 1000 := by
  unfold failedColumns
  simp only [List.append_eq_nil_iff, ite_eq_left_iff, List.cons_ne_nil, imp_false, not_not,
    Option.all_eq_true, decide_eq_true_eq, and_assoc]
  cases row.densestSeries <;> simp

end Failed

/-! ## What the days hold -/

section Days

variable {T : List Row} {row : DayRow}

/-- No series has more periods than its day. -/
theorem densest_le (h : row ∈ completenessRows T) {densest : Nat}
    (hdensest : row.densestSeries = some densest) : densest ≤ row.periods := by
  rcases completenessRow_eq h with ⟨haggregates, hmax, -, -⟩
  have hperiods : row.periods = countDistinct
      ((localDay T row.zone row.settlementDay).map LocalRow.validTime) :=
    congrArg Prod.fst haggregates
  rw [hmax] at hdensest
  rcases List.mem_map.mp (List.max?_mem hdensest) with ⟨s, hs, rfl⟩
  rcases List.mem_filter.mp hs with ⟨hs, hkey⟩
  have hkey : (s.1.1, s.1.2.1) = (row.zone, row.settlementDay) := of_decide_eq_true hkey
  rw [hperiods, (mem_groupBy.mp hs).2]
  -- the rows of a series are rows of its day
  refine countDistinct_le (List.map_subset _ fun l hl => ?_)
  rcases List.mem_filter.mp hl with ⟨hlocal, hseries⟩
  have hseries : (l.zone, l.settlementDay, l.productionType, l.direction) = s.1 :=
    of_decide_eq_true hseries
  rw [mem_localDay, ← hkey, ← hseries]
  exact ⟨hlocal, rfl⟩

/-- The largest quantity of a day is that of a row. -/
theorem exists_of_maxMw (h : row ∈ completenessRows T) {mw : Int} (hmw : row.maxMw = some mw) :
    ∃ r ∈ T, r.quantityMw = mw := by
  have hmax : row.maxMw = ((localDay T row.zone row.settlementDay).map LocalRow.quantityMw).max? :=
    congrArg (fun x => x.2.2) (completenessRow_eq h).1
  rw [hmax] at hmw
  rcases List.mem_map.mp (List.max?_mem hmw) with ⟨l, hl, rfl⟩
  rcases List.mem_map.mp (mem_localDay.mp hl).1 with ⟨r, hr, rfl⟩
  exact ⟨r, hr, rfl⟩

/-- Over records of the contract, a day meets every expectation exactly if it
has its periods, and enough series. -/
theorem failedColumns_record_iff (hsound : ∀ r ∈ T, r.Sound) (h : row ∈ completenessRows T)
    {expected : Int} : failedColumns row expected = [] ↔
      "periods" ∉ failedColumns row expected ∧ MIN_SERIES_PER_DAY ≤ row.series := by
  rw [failedColumns_eq_nil_iff, not_mem_failedColumns]
  constructor
  · rintro ⟨hperiods, -, hseries, -⟩
    exact ⟨hperiods, hseries⟩
  · rintro ⟨hperiods, hseries⟩
    refine ⟨hperiods, fun densest hdensest => ?_, hseries, fun mw hmw => ?_⟩
    · have hle := densest_le h hdensest
      omega
    · rcases exists_of_maxMw h hmw with ⟨r, hr, rfl⟩
      exact (hsound r hr).quantity_bounds

/-- And the days of a page are judged, and fail nothing, exactly if each of
them has. -/
theorem completeness_passes_iff (hT : Admitted T) (hsound : ∀ r ∈ T, r.Sound)
    {page : List DayRow} (hpage : page ⊆ completenessRows T) :
    (∃ results, completeness page = .ok results ∧ ∀ failed ∈ results, failed = []) ↔
      ∀ row ∈ page, FullCount T row.zone row.settlementDay ∧ MIN_SERIES_PER_DAY ≤ row.series := by
  have hrow : ∀ row ∈ page, (FullCount T row.zone row.settlementDay ∧
      MIN_SERIES_PER_DAY ≤ row.series) ↔
        (expectedPeriods (dateText row.settlementDay) >>= fun expected =>
          .ok (failedColumns row expected)) = .ok [] := by
    intro row hrow
    rw [← passes_iff hT (hpage hrow), bind_eq_ok]
    unfold Passes
    constructor
    · rintro ⟨⟨expected, hexpected, hperiods⟩, hseries⟩
      refine ⟨expected, hexpected, congrArg Except.ok ?_⟩
      exact (failedColumns_record_iff hsound (hpage hrow)).mpr ⟨hperiods, hseries⟩
    · rintro ⟨expected, hexpected, hnone⟩
      have hboth := (failedColumns_record_iff hsound (hpage hrow)).mp (Except.ok.inj hnone)
      exact ⟨⟨expected, hexpected, hboth.1⟩, hboth.2⟩
  unfold completeness
  constructor
  · rintro ⟨results, hresults, hempty⟩ row hmem
    rcases exists_of_forall₂_ok (mapM_eq_ok.mp hresults) hmem with ⟨failed, hfailed, hok⟩
    rw [hempty failed hfailed] at hok
    exact (hrow row hmem).mpr hok
  · intro hall
    refine ⟨page.map fun _ => [], mapM_eq_ok.mpr ?_, fun failed hfailed => ?_⟩
    · rw [List.forall₂_map_right_iff, List.forall₂_same]
      exact fun row hmem => (hrow row hmem).mp (hall row hmem)
    · rcases List.mem_map.mp hfailed with ⟨_, -, rfl⟩
      rfl

end Days

/-! ## What a run is green by -/

/-- Bronze is empty, or something was learned in the last 49 hours: of the
hours since then only whole ones are counted. -/
def LearnedLately (T : List Row) (now : Instant) : Prop :=
  T = [] ∨ ∃ r ∈ T,
    currentTimestamp now < r.knownAt + (MAX_HOURS_SINCE_LAST_LEARNED + 1) * HOUR

/-- The two queries succeeded, the first on bronze after `h`, the second on
bronze after `h'`: of its result, whatever the order, this is the first page. -/
structure Found (database : String) (h h' : Trace) (now : Instant)
    (invariants : Ended InvariantCounts) (days : Ended DayRow) : Prop where
  succeeded : invariants.execution.succeeded = true ∧ days.execution.succeeded = true
  counts : invariants.page = [INVARIANTS (bronze database h) now]
  judged : days.page ⊆ completenessRows (bronze database h')

section Green

variable {o : Outside} {database : String} {calls : List Call} {h h' : Trace} {T : List Row}
  {now : Instant} {invariants : Ended InvariantCounts} {days : Ended DayRow}

/-- A run passes exactly if no row of either result fails anything. -/
theorem qualityRun_passes_iff (hinvariants : invariants.execution.succeeded = true)
    (hdays : days.execution.succeeded = true) :
    (∃ report, qualityRun invariants days = .ok report ∧ report.passed = true) ↔
      (∀ row ∈ invariants.page, failedInvariants row = []) ∧
        ∃ results, completeness days.page = .ok results ∧ ∀ failed ∈ results, failed = [] := by
  have hfirst : failedOf INVARIANT_COLUMNS (invariants.page.map failedInvariants) = [] ↔
      ∀ row ∈ invariants.page, failedInvariants row = [] := by
    rw [failedOf_eq_nil_iff, List.forall_mem_map]
    intro failed hfailed
    rcases List.mem_map.mp hfailed with ⟨row, -, rfl⟩
    exact failedInvariants_subset row
  unfold qualityRun Ended.fetch
  rw [if_pos hinvariants, if_pos hdays, ok_bind]
  simp only
  rw [ok_bind]
  simp only
  cases hresults : completeness days.page with
  | error error =>
      constructor
      · rintro ⟨report, hreport, -⟩
        cases hreport
      · rintro ⟨-, results, hok, -⟩
        cases hok
  | ok results =>
      have hsecond : failedOf COMPLETENESS_COLUMNS results = [] ↔
          ∀ failed ∈ results, failed = [] := by
        refine failedOf_eq_nil_iff fun failed hfailed => ?_
        rcases (mem_of_forall₂_ok (mapM_eq_ok.mp hresults)).mp hfailed with ⟨row, -, hok⟩
        rcases bind_eq_ok.mp hok with ⟨expected, -, hcolumns⟩
        cases hcolumns
        exact failedColumns_subset row expected
      rw [ok_bind, ← hfirst]
      constructor
      · rintro ⟨report, hreport, hpassed⟩
        cases hreport
        have hnone := of_decide_eq_true hpassed
        rw [List.append_eq_nil_iff, List.map_eq_nil_iff, List.map_eq_nil_iff] at hnone
        exact ⟨hnone.1, results, rfl, hsecond.mp hnone.2⟩
      · rintro ⟨hnone, results', hok, hempty⟩
        cases hok
        refine ⟨_, rfl, decide_eq_true ?_⟩
        rw [hnone, hsecond.mpr hempty]
        rfl

/-- Whole hours, counted from a millisecond too early at most. -/
theorem tdiv_hour_iff {d : Int} (hd : -1000 < d) :
    (0 ≤ d.tdiv HOUR ∧ d.tdiv HOUR ≤ MAX_HOURS_SINCE_LAST_LEARNED) ↔
      d < (MAX_HOURS_SINCE_LAST_LEARNED + 1) * HOUR := by
  rcases le_or_gt 0 d with hpos | hneg
  · rw [Int.tdiv_eq_ediv_of_nonneg hpos, HOUR_eq]
    omega
  · have hzero : d.tdiv HOUR = 0 := by
      rw [← neg_neg d, Int.neg_tdiv, Int.tdiv_eq_zero_of_lt (by omega) (by rw [HOUR_eq]; omega)]
      rfl
    rw [hzero, HOUR_eq, MAX_HOURS_SINCE_LAST_LEARNED]
    omega

/-- Where nothing was learned in the future, the hours are few exactly if
something was learned in them. -/
theorem hours_iff (hknown : ∀ r ∈ T, r.knownAt ≤ now.micros) :
    (∀ hours, (INVARIANTS T now).hoursSinceLastLearned = some hours →
      0 ≤ hours ∧ hours ≤ MAX_HOURS_SINCE_LAST_LEARNED) ↔ LearnedLately T now := by
  unfold LearnedLately
  simp only [INVARIANTS]
  cases hmax : (T.map Row.knownAt).max? with
  | none =>
      rw [List.max?_eq_none_iff, List.map_eq_nil_iff] at hmax
      simp [hmax]
  | some latest =>
      rcases List.mem_map.mp (List.max?_mem hmax) with ⟨r, hr, rfl⟩
      have hlatest : ∀ s ∈ T, s.knownAt ≤ r.knownAt := fun s hs =>
        (List.max?_le_iff hmax).mp (le_refl _) _ (List.mem_map_of_mem hs)
      have hnow := hknown r hr
      have hmillis : -1000 < currentTimestamp now - r.knownAt := by
        unfold currentTimestamp
        omega
      simp only [Option.map_some, Option.some.injEq, forall_eq', tdiv_hour_iff hmillis]
      constructor
      · intro hfew
        exact Or.inr ⟨r, hr, by omega⟩
      · rintro (hempty | ⟨s, hs, hfew⟩)
        · rw [hempty] at hr
          cases hr
        · have hle := hlatest s hs
          omega

theorem admitted_bronze : Admitted (bronze database h) := by
  intro row hrow
  rcases exists_inserted hrow with ⟨pre, e, -, hinserted⟩
  rcases mem_inserted hinserted with ⟨_, batchId, _, _, -, hbatch⟩
  rcases List.mem_map.mp hbatch with ⟨r, -, rfl⟩
  exact ⟨r, rfl⟩

theorem Guarantees.known (hall : Guarantees o database h) (ho : o.Clocked)
    (hnow : (o.now h).micros ≤ now.micros) : ∀ r ∈ bronze database h, r.knownAt ≤ now.micros := by
  intro r hr
  rcases exists_inserted hr with ⟨pre, e, hpre, hinserted⟩
  exact (hall.learned pre e hpre r hinserted).trans ((ho.mono hpre).trans hnow)

/-- Where bronze has records of whole quarters only, a day with its periods has
all of them. -/
theorem complete_of_fullCount (hquarters : ∀ r ∈ bronze database h', r.resolutionMinutes % 15 = 0)
    {row : DayRow} (hrow : row ∈ completenessRows (bronze database h'))
    (hfull : FullCount (bronze database h') row.zone row.settlementDay) :
    CompleteDay (bronze database h') row.zone row.settlementDay := by
  refine complete_of_quarters (fun r hr => ?_) hrow ((passes_iff admitted_bronze hrow).mpr hfull)
  have hwhole := hquarters r hr
  rcases admitted_bronze r hr with ⟨record, rfl⟩
  exact ⟨record, rfl, hwhole⟩

/-- Over any sequence of calls none of which is given a `known_at` of the
future, a quality run passes exactly if no identity was held twice, bronze was
fresh, and every day that was judged has its periods, and fifteen series; and
where bronze has whole quarters only, every such day is complete. -/
theorem quality_passes_iff (ho : o.Clocked) (htimely : Timely o database calls)
    (hpre : h <+: runAll o calls) (hnow : (o.now h).micros ≤ now.micros)
    (hfound : Found database h h' now invariants days) :
    ((∃ report, qualityRun invariants days = .ok report ∧ report.passed = true) ↔
      Identified (bronze database h) ∧ LearnedLately (bronze database h) now ∧
        ∀ row ∈ days.page, FullCount (bronze database h') row.zone row.settlementDay ∧
          MIN_SERIES_PER_DAY ≤ row.series) ∧
      ((∀ r ∈ bronze database h', r.resolutionMinutes % 15 = 0) →
        (∃ report, qualityRun invariants days = .ok report ∧ report.passed = true) →
          ∀ row ∈ days.page, CompleteDay (bronze database h') row.zone row.settlementDay) := by
  have hall := (guarantees_iff o ho database calls).mpr htimely h hpre
  have hpasses : (∃ report, qualityRun invariants days = .ok report ∧ report.passed = true) ↔
      Identified (bronze database h) ∧ LearnedLately (bronze database h) now ∧
        ∀ row ∈ days.page, FullCount (bronze database h') row.zone row.settlementDay ∧
          MIN_SERIES_PER_DAY ≤ row.series := by
    rw [qualityRun_passes_iff hfound.succeeded.1 hfound.succeeded.2, hfound.counts,
      List.forall_mem_singleton, failedInvariants_eq_nil_iff, duplicateKeys_eq_zero_iff,
      hours_iff (hall.known ho hnow),
      completeness_passes_iff admitted_bronze (fun _ hr => bronze_sound hr) hfound.judged]
    constructor
    · rintro ⟨⟨hidentified, -, -, -, hfresh⟩, hdays⟩
      exact ⟨hidentified, hfresh, hdays⟩
    · rintro ⟨hidentified, hfresh, hdays⟩
      -- the other three the calls keep
      exact ⟨⟨hidentified, hall.futurePeriods now hnow, hall.knownBeforeItHappened now,
        hall.negativeQuantities now, hfresh⟩, hdays⟩
  refine ⟨hpasses, fun hquarters hgreen row hrow => ?_⟩
  exact complete_of_fullCount hquarters (hfound.judged hrow) ((hpasses.mp hgreen).2.2 row hrow).1

end Green

/-! ## A morning with a day to judge -/

/-- Everything done in a backfill of one period. -/
def onePeriod : Trace := runAll (smallOutside ["100"]) [smallBackfill]

theorem quarterHour_inRange (i : Fin 97) : WallInRange (63923378400000000 + i * 900000000) := by
  have hi := i.isLt
  have hmax : MAX_ORDINAL = 3652059 := rfl
  unfold WallInRange
  rw [DAY_eq]
  omega

theorem quarterHour_bounds : 0 < (15 : Int) ∧ (15 : Int) ≤ 1440 := by decide

theorem quarterHour_boundary (i : Fin 97) :
    OnBoundary 15 ⟨63923378400000000 + i * 900000000, quarterHour_inRange i⟩ := by
  have hi := i.isLt
  have hquarter : 15 * MINUTE = 900000000 := rfl
  unfold OnBoundary
  simp only
  rw [DAY_eq, hquarter]
  omega

/-- A record for a quarter hour of 26 August 2026, or the first of the next day. -/
def quarterHour (productionType : ProductionType) (i : Fin 97) : GenerationRecord where
  source := .entsoe
  sourceDocumentId := none
  zone := .FR
  productionType := productionType
  direction := .generation
  unit := .MW
  resolutionMinutes := 15
  validTime := ⟨63923378400000000 + i * 900000000, quarterHour_inRange i⟩
  knownAt := ⟨63923558100000000, lastFiveMinutes_inRange⟩
  sourceUpdatedAt := none
  quantityMw := .finite false 100 0
  resolution_bounds := quarterHour_bounds
  quantity_plausible := fiveMinutes_plausible
  on_boundary := quarterHour_boundary i
  known_after := by
    have hi := i.isLt
    simp only
    omega

/-- All of one type, and fourteen others at midnight. -/
def wholeDay : List GenerationRecord :=
  (List.finRange 97).map (quarterHour .NUCLEAR) ++
    ((ProductionType.all.filter (· ≠ .NUCLEAR)).take 14).map fun t => quarterHour t 0

/-- They are staged and merged between the two queries. -/
def loadedBetween : Trace :=
  [.put "gridlens-raw" (.staging ⟨0, by decide⟩ wholeDay) (.answered ()),
    .merged "gridlens_bronze" "gridlens" (UUID.hex ⟨0, by decide⟩)
      ⟨63923378400000000, 63923465700000000⟩ (.answered ⟨true, none, 0⟩)]

/-- The first day is judged, and has fifteen series. -/
theorem exists_judgedDay : ∃ row ∈ completenessRows (bronze "gridlens_bronze" loadedBetween),
    (row.zone = "10YFR-RTE------C" ∧ row.settlementDay = 739854) ∧
      MIN_SERIES_PER_DAY ≤ row.series := by
  have hjudged : (completenessRows (bronze "gridlens_bronze" loadedBetween)).any (fun row =>
      decide (row.zone = "10YFR-RTE------C" ∧ row.settlementDay = 739854) &&
        decide (MIN_SERIES_PER_DAY ≤ row.series)) = true := by
    decide +kernel
  obtain ⟨row, hrow, hday⟩ := List.any_eq_true.mp hjudged
  rw [Bool.and_eq_true, decide_eq_true_eq, decide_eq_true_eq] at hday
  exact ⟨row, hrow, hday⟩

theorem fullCount_loadedBetween :
    FullCount (bronze "gridlens_bronze" loadedBetween) "10YFR-RTE------C" 739854 := by
  obtain ⟨window, hwindow⟩ : ∃ window, settlementDay augustDay PARIS = .ok window :=
    exists_settlementDay (by decide) (by decide)
  have hbounds := @settlementDay_paris _ window.1 window.2 hwindow
  have htimes : (dayTimes (bronze "gridlens_bronze" loadedBetween) "10YFR-RTE------C"
      739854).length = 96 := by decide +kernel
  have hordinal : augustDay.ordinal = 739854 := rfl
  rw [hordinal, parisMidnight_augustDay.1, parisMidnight_augustDay.2] at hbounds
  refine ⟨augustDay, window, rfl, hwindow, ?_⟩
  rw [htimes, hbounds.1, hbounds.2]
  decide

/-- The day loaded since is judged, the run is green, and the day is complete. -/
theorem quality_passes_onePeriod : ∃ row report,
    qualityRun ⟨⟨true, none, 0⟩, [INVARIANTS (bronze "gridlens_bronze" onePeriod) morning]⟩
      ⟨⟨true, none, 0⟩, [row]⟩ = .ok report ∧ report.passed = true ∧
    CompleteDay (bronze "gridlens_bronze" loadedBetween) row.zone row.settlementDay := by
  obtain ⟨row, hrow, ⟨hzone, hday⟩, hseries⟩ := exists_judgedDay
  have hfound : Found "gridlens_bronze" onePeriod loadedBetween morning
      ⟨⟨true, none, 0⟩, [INVARIANTS (bronze "gridlens_bronze" onePeriod) morning]⟩
      ⟨⟨true, none, 0⟩, [row]⟩ :=
    ⟨⟨rfl, rfl⟩, rfl, List.cons_subset.mpr ⟨hrow, List.nil_subset _⟩⟩
  obtain ⟨hpasses, hcomplete⟩ := quality_passes_iff (smallOutside_clocked ["100"])
    timely_smallBackfill (List.prefix_refl _) (le_refl _) hfound
  have hgreen := hpasses.mpr ⟨by decide +kernel, Or.inr (by decide +kernel),
    List.forall_mem_singleton.mpr ⟨hzone ▸ hday ▸ fullCount_loadedBetween, hseries⟩⟩
  have hquarters : ∀ r ∈ bronze "gridlens_bronze" loadedBetween, r.resolutionMinutes % 15 = 0 := by
    decide +kernel
  obtain ⟨report, hreport, hpassed⟩ := hgreen
  exact ⟨row, report, hreport, hpassed,
    hcomplete hquarters ⟨report, hreport, hpassed⟩ row (List.mem_singleton_self row)⟩

end Gridlens
