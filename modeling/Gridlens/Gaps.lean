import Gridlens.Bronze
import Gridlens.Calendar
import Gridlens.QueryResults
import Mathlib.Data.List.Chain

/-!
# Missing settlement days

`lake.gaps`: the days of a window are generated, those with a row in bronze
are joined to them, and the ones left over are read back as dates. The query
bounds `valid_time` by texts a day before the window and two days behind it.

1. `run_window`: the bounds cut nothing off, and what they let in changes
   nothing.
2. `missing_days_exact`: the days that are returned, and the windows whose
   bounds are no dates.
-/

namespace Gridlens

open Sql

/-! ## The query -/

/-- `MISSING_DAYS`, with the texts set in it. -/
structure GapQuery where
  start : String
  stop : String
  database : String
  lower : String
  upper : String

/-- `sequence(start, stop, INTERVAL '1' DAY)`, as dates. -/
def sequence (start stop : Int) : List Int :=
  (List.range (stop - start + 1).toNat).map fun i : Nat => start + i

/-- `TIMESTAMP 'text 00:00:00'`, in a session in UTC. -/
def castMidnight (text : String) : Option Int := (castDate text).map fun day => day * DAY

/-- The dates of Paris a row lies on, between two literal bounds. -/
def presentDays (lower upper : Int) (T : List Row) : List Int :=
  ((T.filter fun r => decide (lower ≤ r.validTime) && decide (r.validTime < upper)).map
    fun r => parisDate r.validTime).dedup

/-- What the engine returns of a table: the rows of the column `missing_day`.
A literal that is no date is refused. -/
def GapQuery.run (q : GapQuery) (T : List Row) : Option (List String) := do
  let start ← castDate q.start
  let stop ← castDate q.stop
  let lower ← castMidnight q.lower
  let upper ← castMidnight q.upper
  let joined := leftJoin (fun wanted present => decide (present = wanted)) (sequence start stop)
    (presentDays lower upper T)
  some (((joined.filter fun j => (isNull j.2).holds).map fun j => dateText j.1).mergeSort (· ≤ ·))

/-! ## `missing_settlement_days` -/

/-- `date.fromisoformat(text)`, of a text of ten characters. -/
def dateFromIso (text : String) : Py Date :=
  match castDate text with
  | some ordinal => Date.ofOrdinal ordinal
  | none => raise .ValueError [.text "Invalid isoformat string: ", .repr text]

/-- `row[0]`. -/
def firstCell : List String → Py String
  | [] => raise .IndexError [.text "list index out of range"]
  | cell :: _ => .ok cell

/-- `missing_settlement_days`, by a client. -/
def missingSettlementDays (client : GapQuery → QueryAnswer) (database : String)
    (start stop : Date) : Py (List Date) := do
  if stop.ordinal < start.ordinal then raise .ValueError [.text "end is before start"]
  else
    let lower ← start.addDays (-1)
    let upper ← stop.addDays 2
    let rows ← gapRows (client ⟨dateText start.ordinal, dateText stop.ordinal, database,
      dateText lower.ordinal, dateText upper.ordinal⟩)
    rows.mapM fun row => firstCell row >>= dateFromIso

/-- A day of the window that no row of the table lies on. -/
def MissingDay (T : List Row) (start stop day : Date) : Prop :=
  (start.ordinal ≤ day.ordinal ∧ day.ordinal ≤ stop.ordinal) ∧
    ∀ r ∈ T, parisDate r.validTime ≠ day.ordinal

/-- The client returns the result of the query whole. -/
def AnswersWhole (bronze : String → List Row) (client : GapQuery → QueryAnswer) (q : GapQuery) :
    Prop :=
  ∀ found, q.run (bronze q.database) = some found →
    (client q).execution.succeeded = true ∧
      (client q).rows = [some "missing_day"] :: found.map fun day => [some day]

/-! ## What the query returns -/

section Query

variable {T : List Row} {start stop : Int}

theorem mem_sequence {day : Int} : day ∈ sequence start stop ↔ start ≤ day ∧ day ≤ stop := by
  unfold sequence
  rw [List.mem_map]
  constructor
  · rintro ⟨i, hi, rfl⟩
    rw [List.mem_range] at hi
    omega
  · intro ⟨hfirst, hlast⟩
    exact ⟨(day - start).toNat, List.mem_range.mpr (by omega), by omega⟩

theorem sequence_pairwise (start stop : Int) : (sequence start stop).Pairwise (· < ·) := by
  unfold sequence
  rw [List.pairwise_map]
  refine List.pairwise_lt_range.imp ?_
  intro i j hij
  omega

/-- Of the days of a window, those present are the ones a row lies on. -/
theorem mem_presentDays {day : Int} (hday : start ≤ day ∧ day ≤ stop) :
    day ∈ presentDays ((start - 1) * DAY) ((stop + 2) * DAY) T ↔
      ∃ r ∈ T, parisDate r.validTime = day := by
  unfold presentDays
  rw [List.mem_dedup, List.mem_map]
  constructor
  · rintro ⟨r, hr, hdate⟩
    exact ⟨r, (List.mem_filter.mp hr).1, hdate⟩
  · rintro ⟨r, hr, hdate⟩
    refine ⟨r, List.mem_filter.mpr ⟨hr, ?_⟩, hdate⟩
    rw [Bool.and_eq_true, decide_eq_true_eq, decide_eq_true_eq]
    -- a Paris day begins an hour or two before the one in UTC, and ends so
    have hoffset := parisOffset_cases r.validTime
    unfold parisDate at hdate
    generalize parisOffset r.validTime = offset at *
    rw [DAY_eq] at *
    rw [HOUR_eq] at hoffset
    omega

/-- The bounds of a window cut off no row of its days, and the rows they let in
of others make no day present. -/
theorem run_window (hstart : 1 < start) (hle : start ≤ stop) (hstop : stop + 2 ≤ MAX_ORDINAL)
    (database : String) :
    GapQuery.run ⟨dateText start, dateText stop, database, dateText (start - 1),
        dateText (stop + 2)⟩ T =
      some (((sequence start stop).filter fun day => ∀ r ∈ T, parisDate r.validTime ≠ day).map
        dateText) := by
  have hleft : ((leftJoin (fun wanted present => decide (present = wanted)) (sequence start stop)
      (presentDays ((start - 1) * DAY) ((stop + 2) * DAY) T)).filter fun j =>
        (isNull j.2).holds).map (fun j => dateText j.1) =
      ((sequence start stop).filter fun day => ∀ r ∈ T, parisDate r.validTime ≠ day).map
        dateText := by
    have hcompose : (fun j : Int × Option Int => dateText j.1) = dateText ∘ Prod.fst := rfl
    rw [hcompose, ← List.map_map, leftJoin_isNull]
    congr 1
    refine List.filter_congr fun day hday => ?_
    have hpresent := mem_presentDays (T := T) (mem_sequence.mp hday)
    rw [Bool.eq_iff_iff, Bool.not_eq_true', ← Bool.not_eq_true, List.any_eq_true, decide_eq_true_eq]
    constructor
    · intro hnone r hr hdate
      exact hnone ⟨day, hpresent.mpr ⟨r, hr, hdate⟩, decide_eq_true rfl⟩
    · rintro hnone ⟨day', hday', heq⟩
      rw [of_decide_eq_true heq] at hday'
      rcases hpresent.mp hday' with ⟨r, hr, hdate⟩
      exact hnone r hr hdate
  have hsorted : (((sequence start stop).filter fun day =>
      ∀ r ∈ T, parisDate r.validTime ≠ day).map dateText).Pairwise
        fun a b => decide (a ≤ b) = true := by
    rw [List.pairwise_map]
    refine ((sequence_pairwise start stop).filter _).imp_of_mem ?_
    intro a b ha hb hab
    have hfirst := mem_sequence.mp (List.mem_filter.mp ha).1
    have hlast := mem_sequence.mp (List.mem_filter.mp hb).1
    exact decide_eq_true (String.not_lt.mp (String.lt_asymm (dateText_lt hab (by omega) (by omega))))
  unfold GapQuery.run castMidnight
  simp only
  rw [castDate_dateText (by omega), castDate_dateText (by omega), castDate_dateText (by omega),
    castDate_dateText (by omega)]
  simp only [Option.map_some, Option.bind_eq_bind, Option.bind_some]
  rw [hleft, List.mergeSort_of_pairwise hsorted]

/-- The texts of dates are read back. -/
theorem mapM_dateFromIso (ordinals : List Int)
    (h : ∀ n ∈ ordinals, 1 ≤ n ∧ n ≤ MAX_ORDINAL) :
    ∃ found : List Date, ((ordinals.map fun n => texts [some (dateText n)]).mapM fun row =>
      firstCell row >>= dateFromIso) = (.ok found : Py (List Date)) ∧
        found.map Date.ordinal = ordinals := by
  induction ordinals with
  | nil => exact ⟨[], rfl, rfl⟩
  | cons n ordinals ih =>
      rw [List.forall_mem_cons] at h
      rcases ih h.2 with ⟨found, hfound, hordinals⟩
      have hread : (firstCell (texts [some (dateText n)]) >>= dateFromIso) = .ok ⟨n, h.1⟩ := by
        show dateFromIso (dateText n) = _
        unfold dateFromIso
        rw [castDate_dateText h.1]
        exact dif_pos h.1
      refine ⟨⟨n, h.1⟩ :: found, ?_, ?_⟩
      · rw [List.map_cons, List.mapM_cons, hread, ok_bind, hfound]
        rfl
      · rw [List.map_cons, hordinals]

end Query

/-! ## What is returned -/

section Missing

variable {bronze : String → List Row} {client : GapQuery → QueryAnswer} {start stop : Date}

/-- A window whose bounds are dates. -/
def Bounded (start stop : Date) : Prop := 1 < start.ordinal ∧ stop.ordinal + 2 ≤ MAX_ORDINAL

/-- The days missing of a window, in order and once each. -/
structure ExactlyMissing (T : List Row) (start stop : Date) (found : List Date) : Prop where
  increasing : found.Pairwise fun a b => a.ordinal < b.ordinal
  missing : ∀ day, day ∈ found ↔ MissingDay T start stop day

/-- The query a window is asked with. -/
def gapQuery (database : String) (start stop : Date) : GapQuery :=
  ⟨dateText start.ordinal, dateText stop.ordinal, database, dateText (start.ordinal - 1),
    dateText (stop.ordinal + 2)⟩

/-- The ordinals of the missing days. -/
def missingOrdinals (T : List Row) (start stop : Date) : List Int :=
  (sequence start.ordinal stop.ordinal).filter fun day => ∀ r ∈ T, parisDate r.validTime ≠ day

theorem mem_missingOrdinals {T : List Row} {day : Date} :
    day.ordinal ∈ missingOrdinals T start stop ↔ MissingDay T start stop day := by
  unfold missingOrdinals
  rw [List.mem_filter, mem_sequence, decide_eq_true_eq]
  exact Iff.rfl

theorem missingOrdinals_pairwise (T : List Row) (start stop : Date) :
    (missingOrdinals T start stop).Pairwise (· < ·) := (sequence_pairwise _ _).filter _

theorem missingOrdinals_bounds {T : List Row} :
    ∀ n ∈ missingOrdinals T start stop, 1 ≤ n ∧ n ≤ MAX_ORDINAL := by
  intro n hn
  have hmem := mem_sequence.mp (List.mem_filter.mp hn).1
  have hstart := start.inRange
  have hstop := stop.inRange
  omega

/-- The dates a first page has are returned. -/
theorem missingSettlementDays_rows {database : String} {ordinals : List Int}
    (hle : start.ordinal ≤ stop.ordinal) (hbounds : Bounded start stop)
    (hordinals : ∀ n ∈ ordinals, 1 ≤ n ∧ n ≤ MAX_ORDINAL)
    (hsucceeded : (client (gapQuery database start stop)).execution.succeeded = true)
    (hrows : (client (gapQuery database start stop)).rows =
      [some "missing_day"] :: ordinals.map fun n => [some (dateText n)]) :
    ∃ found, missingSettlementDays client database start stop = .ok found ∧
      found.map Date.ordinal = ordinals := by
  rcases hbounds with ⟨hfirst, hlast⟩
  have hstart := start.inRange
  have hstop := stop.inRange
  have hlower : start.addDays (-1) = .ok ⟨start.ordinal - 1, by omega⟩ := dif_pos (by omega)
  have hupper : stop.addDays 2 = .ok ⟨stop.ordinal + 2, by omega⟩ := dif_pos (by omega)
  rcases mapM_dateFromIso _ hordinals with ⟨found, hfound, hsame⟩
  refine ⟨found, ?_, hsame⟩
  unfold missingSettlementDays
  rw [if_neg (by omega), hlower, ok_bind, hupper, ok_bind]
  show (gapRows (client (gapQuery database start stop)) >>= _) = _
  unfold gapRows rowsOr
  rw [if_pos hsucceeded, hrows, ok_bind, List.drop_one, List.tail_cons, List.map_map]
  exact hfound

/-- A date is among those of a list where its ordinal is. -/
theorem mem_iff_ordinal {found : List Date} {day : Date} :
    day ∈ found ↔ day.ordinal ∈ found.map Date.ordinal := by
  rw [List.mem_map]
  constructor
  · intro hday
    exact ⟨day, hday, rfl⟩
  · rintro ⟨day', hday', heq⟩
    rw [← date_eq_iff.mpr heq]
    exact hday'

/-- The missing days of a window are returned where its bounds are dates. -/
theorem missingSettlementDays_ok (database : String)
    (hclient : AnswersWhole bronze client (gapQuery database start stop))
    (hle : start.ordinal ≤ stop.ordinal) (hbounds : Bounded start stop) :
    ∃ found, missingSettlementDays client database start stop = .ok found ∧
      ExactlyMissing (bronze database) start stop found := by
  have hrun : (gapQuery database start stop).run (bronze database) =
      some ((missingOrdinals (bronze database) start stop).map dateText) :=
    run_window hbounds.1 hle hbounds.2 database
  rcases hclient _ hrun with ⟨hsucceeded, hrows⟩
  rw [List.map_map] at hrows
  rcases missingSettlementDays_rows hle hbounds missingOrdinals_bounds hsucceeded hrows with
    ⟨found, hfound, hordinals⟩
  refine ⟨found, hfound, ?_, fun day => ?_⟩
  · rw [← List.pairwise_map (f := Date.ordinal), hordinals]
    exact missingOrdinals_pairwise _ _ _
  · rw [mem_iff_ordinal, hordinals, mem_missingOrdinals]

/-- A window with a bound that is no date. -/
theorem missingSettlementDays_overflow (hle : start.ordinal ≤ stop.ordinal)
    (hbounds : ¬ Bounded start stop) (client : GapQuery → QueryAnswer) (database : String) :
    ∃ message, missingSettlementDays client database start stop = raise .OverflowError message := by
  have hstart := start.inRange
  have hstop := stop.inRange
  unfold missingSettlementDays
  rw [if_neg (by omega)]
  by_cases hfirst : 1 < start.ordinal
  · have hlower : start.addDays (-1) = .ok ⟨start.ordinal - 1, by omega⟩ := dif_pos (by omega)
    have hlast : ¬ stop.ordinal + 2 ≤ MAX_ORDINAL := fun hlast => hbounds ⟨hfirst, hlast⟩
    have hupper : stop.addDays 2 = raise .OverflowError _ := dif_neg (by omega)
    rw [hlower, ok_bind, hupper]
    exact ⟨_, rfl⟩
  · have hlower : start.addDays (-1) = raise .OverflowError _ := dif_neg (by omega)
    rw [hlower]
    exact ⟨_, rfl⟩

/-- A window is answered with exactly its missing days, where a day before it
and two days behind it are dates; elsewhere the date arithmetic overflows. -/
theorem missing_days_exact (database : String)
    (hclient : AnswersWhole bronze client (gapQuery database start stop))
    (hle : start.ordinal ≤ stop.ordinal) :
    (Bounded start stop → ∃ found, missingSettlementDays client database start stop = .ok found ∧
      ExactlyMissing (bronze database) start stop found) ∧
    (¬ Bounded start stop → ∃ message,
      missingSettlementDays client database start stop = raise .OverflowError message) :=
  ⟨missingSettlementDays_ok database hclient hle,
    fun hbounds => missingSettlementDays_overflow hle hbounds client database⟩

end Missing

/-! ## A weekend of a clock change -/

/-- A client whose results are a page. -/
def onePage (bronze : String → List Row) (q : GapQuery) : QueryAnswer :=
  match q.run (bronze q.database) with
  | some found => ⟨⟨true, none, 0⟩, [[some "missing_day"] :: found.map fun day => [some day]]⟩
  | none => ⟨⟨false, some "INVALID_LITERAL", 0⟩, []⟩

theorem answersWhole_onePage (bronze : String → List Row) (q : GapQuery) :
    AnswersWhole bronze (onePage bronze) q := by
  intro found hfound
  unfold onePage
  rw [hfound]
  exact ⟨rfl, rfl⟩

/-- Half past two in the morning, the first of the two times. -/
def doubledRow : Row :=
  ⟨"entsoe", none, "10YFR-RTE------C", "B14", "generation", "MW", 15, 63928571400000000,
    63928590000000000, none, 41000000⟩

/-- A table with that row alone. -/
def octoberBronze (database : String) : List Row :=
  if database = "gridlens_bronze" then [doubledRow] else []

/-- 24 and 26 October 2026. -/
def saturday : Date := ⟨739913, by decide⟩

def monday : Date := ⟨739915, by decide⟩

theorem missing_days_october :
    (Bounded saturday monday → ∃ found,
      missingSettlementDays (onePage octoberBronze) "gridlens_bronze" saturday monday = .ok found ∧
        ExactlyMissing (octoberBronze "gridlens_bronze") saturday monday found) ∧
    (¬ Bounded saturday monday → ∃ message,
      missingSettlementDays (onePage octoberBronze) "gridlens_bronze" saturday monday =
        raise .OverflowError message) :=
  missing_days_exact "gridlens_bronze" (answersWhole_onePage octoberBronze _) (by decide)

/-- `date.min`. -/
def firstDate : Date := ⟨1, by decide⟩

/-- The day before the first one is no date. -/
theorem first_day_overflows : (∀ q, AnswersWhole octoberBronze (onePage octoberBronze) q) ∧
    ¬ ∃ found, missingSettlementDays (onePage octoberBronze) "gridlens_bronze" firstDate firstDate =
      .ok found ∧ ExactlyMissing (octoberBronze "gridlens_bronze") firstDate firstDate found := by
  refine ⟨answersWhole_onePage octoberBronze, ?_⟩
  rintro ⟨found, hfound, -⟩
  rcases missingSettlementDays_overflow (le_refl firstDate.ordinal) (fun hbounds => by
    exact absurd hbounds.1 (by decide)) (onePage octoberBronze) "gridlens_bronze" with ⟨message, hraise⟩
  rw [hraise] at hfound
  cases hfound

end Gridlens
