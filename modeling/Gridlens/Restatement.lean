import Gridlens.Gold
import Gridlens.Calendar

/-!
# Rebuilding last month

`gridlens.quality.restatement` and the models it rebuilds: the window of the
audit, the build of silver and gold, the comparison of two builds, and the
check that `known_at` selects what production read.
-/

namespace Gridlens

open Sql

/-! ## `last_month` -/

/-- `day.replace(day=1)`. -/
def Date.firstOfMonth (day : Date) : Py Date :=
  day.addDays (-daysIntoMonth (monthLengths (yearOf day.ordinal)) (dayOfYear day.ordinal))

structure Window where
  firstDay : Date
  lastDay : Date
  start : Instant
  stop : Instant
deriving DecidableEq, Repr

/-- `valid_time_predicate`. -/
def Window.containsTime (w : Window) (validTime : Int) : Bool :=
  w.start.micros ≤ validTime && validTime < w.stop.micros

/-- `settlement_day_predicate`. -/
def Window.containsDay (w : Window) (settlementDay : Int) : Bool :=
  w.firstDay.ordinal ≤ settlementDay && settlementDay ≤ w.lastDay.ordinal

/-- Every Paris settlement day of the calendar month before today's. -/
def lastMonth (today : Date) : Py Window := do
  let first ← today.firstOfMonth
  let lastDay ← first.addDays (-1)
  let firstDay ← lastDay.firstOfMonth
  let (start, _) ← settlementDay firstDay PARIS
  let (_, stop) ← settlementDay lastDay PARIS
  .ok ⟨firstDay, lastDay, start, stop⟩

/-! ## The build -/

/-- The tables an audit compares, whatever their columns. -/
structure Tables (α β γ : Type) where
  versions : List α
  net : List β
  mix : List γ

/-- What a build materialises. -/
abbrev Build (δ : Type) := Tables Version NetRow (MixRow δ)

/-- `dbt run` over a bronze table. -/
def build {δ : Type} (quotient : Int → Int → δ) (vars : Option Restate) (T : List Row) : Build δ :=
  let versions := generationVersions (stgGeneration vars T)
  let net := periodGenerationNet (generationCurrent versions)
  ⟨versions, net, dailyGenerationMix quotient net⟩

/-- Rows with the column their table's predicate reads, `valid_time` or
`settlement_day`; `none` is null. -/
class Dated (ρ : Type) where
  column : ρ → Option Int

instance : Dated Version := ⟨fun v => some v.row.validTime⟩

instance : Dated NetRow := ⟨fun r => some r.key.validTime⟩

instance {δ : Type} : Dated (MixRow δ) := ⟨fun r => some r.key.settlementDay⟩

/-- The tables under the predicates of `compare`. A null is in no window. -/
def Window.confine {α β γ : Type} [Dated α] [Dated β] [Dated γ] (w : Window)
    (b : Tables α β γ) : Tables α β γ where
  versions := b.versions.filter fun r => (Dated.column r).any w.containsTime
  net := b.net.filter fun r => (Dated.column r).any w.containsTime
  mix := b.mix.filter fun r => (Dated.column r).any w.containsDay

/-- What a restated build is given. -/
def Window.restate (w : Window) (learnedUpTo : Int) : Restate :=
  ⟨learnedUpTo, w.start.micros, w.stop.micros⟩

section BuildLemmas

variable {δ : Type} (quotient : Int → Int → δ) (T : List Row) (w : Window) (b : Build δ)

theorem build_versions : (build quotient none T).versions = versions T := rfl

theorem build_net :
    (build quotient none T).net = periodGenerationNet (generationCurrent (versions T)) := rfl

theorem build_mix :
    (build quotient none T).mix = dailyGenerationMix quotient (build quotient none T).net := by
  simp only [build]

theorem confine_versions :
    (w.confine b).versions = b.versions.filter fun v => w.containsTime v.row.validTime := rfl

theorem confine_net :
    (w.confine b).net = b.net.filter fun r => w.containsTime r.key.validTime := rfl

theorem confine_mix :
    (w.confine b).mix = b.mix.filter fun r => w.containsDay r.key.settlementDay := rfl

end BuildLemmas

/-! ## The comparison -/

structure Counts where
  left : Nat
  right : Nat
  onlyLeft : Nat
  onlyRight : Nat
deriving DecidableEq, Repr

/-- Rows of bronze, with `valid_time` and `known_at`. -/
class Stamped (ρ : Type) extends Dated ρ where
  knownAt : ρ → Option Int

instance : Stamped Row where
  column r := some r.validTime
  knownAt r := some r.knownAt

section Comparison

variable {ρ : Type} [DecidableEq ρ] [Stamped ρ]

/-- The row a difference query returns, read by `_counts`. -/
def counts (L R : List ρ) : Counts :=
  ⟨L.length, R.length, (except L R).length, (except R L).length⟩

def identical (c : Counts) : Bool := c.left = c.right && c.onlyLeft = 0 && c.onlyRight = 0

omit [DecidableEq ρ] [Stamped ρ] in
theorem identical_iff {c : Counts} :
    identical c = true ↔ c.left = c.right ∧ c.onlyLeft = 0 ∧ c.onlyRight = 0 := by
  simp only [identical, Bool.and_eq_true, decide_eq_true_eq, and_assoc]

/-- Row for row, every column, restated against production, per table. -/
def compare {α β γ : Type} [DecidableEq α] [DecidableEq β] [DecidableEq γ] [Dated α] [Dated β]
    [Dated γ] (w : Window) (restated production : Tables α β γ) : List (String × Counts) :=
  [("generation_versions", counts (w.confine restated).versions (w.confine production).versions),
    ("period_generation_net", counts (w.confine restated).net (w.confine production).net),
    ("daily_generation_mix", counts (w.confine restated).mix (w.confine production).mix)]

/-- The tables where the rebuild did not land on production. -/
def differences (results : List (String × Counts)) : List String :=
  (results.filter fun r => r.2.left ≠ r.2.right ∨ r.2.onlyLeft ≠ 0 ∨ r.2.onlyRight ≠ 0).map Prod.fst

/-- The rows production read of the window, and the ones `known_at` selects. -/
def atSnapshot (w : Window) (snapshot : List ρ) : List ρ :=
  snapshot.filter fun r => (Dated.column r).any w.containsTime

def byKnownAt (w : Window) (learnedUpTo : Int) (bronze : List ρ) : List ρ :=
  bronze.filter fun r =>
    (Stamped.knownAt r).any (fun u => u ≤ learnedUpTo) && (Dated.column r).any w.containsTime

def Counts.repr (c : Counts) : List Piece :=
  [.text "\x7b'left': ", .int c.left, .text ", 'right': ", .int c.right,
    .text ", 'only_left': ", .int c.onlyLeft, .text ", 'only_right': ", .int c.onlyRight,
    .text "\x7d"]

/-- `known_at <= learned_up_to` selects exactly what production read. -/
def checkClocks (w : Window) (snapshotId learnedUpTo : Int) (snapshot bronze : List ρ) :
    Py Counts :=
  let c := counts (atSnapshot w snapshot) (byKnownAt w learnedUpTo bronze)
  if identical c then .ok c
  else raise .AuditFailed
    (.text "known_at and snapshot " :: .int snapshotId ::
      .text " disagree about what production read: " :: c.repr)

end Comparison

/-! ## The window in Paris days -/

theorem lastMonth_ok {today : Date} {w : Window} (h : lastMonth today = .ok w) :
    w.start.micros = parisMidnight w.firstDay.ordinal ∧
      w.stop.micros = parisMidnight (w.lastDay.ordinal + 1) := by
  simp only [lastMonth, bind_eq_ok] at h
  rcases h with ⟨first, -, lastDay, -, firstDay, -, ⟨start, _⟩, hstart, ⟨_, stop⟩, hstop, heq⟩
  cases heq
  exact ⟨(settlementDay_paris hstart).1, (settlementDay_paris hstop).2⟩

/-- Across clock changes and year ends: an instant lies in the window exactly
when its Paris date is one of the window's days. -/
theorem Window.containsTime_eq {today : Date} {w : Window} (h : lastMonth today = .ok w) (u : Int) :
    w.containsTime u = w.containsDay (parisDate u) := by
  rcases lastMonth_ok h with ⟨hstart, hstop⟩
  have hfirst := start_le_iff_le_parisDate w.firstDay.ordinal u
  have hnext := start_le_iff_le_parisDate (w.lastDay.ordinal + 1) u
  rw [Bool.eq_iff_iff]
  simp only [Window.containsTime, Window.containsDay, Bool.and_eq_true, decide_eq_true_eq, hstart,
    hstop]
  constructor
  · intro ⟨hle, hlt⟩
    have hday : ¬ w.lastDay.ordinal + 1 ≤ parisDate u := fun hge =>
      absurd (hnext.mpr hge) (not_le.mpr hlt)
    exact ⟨hfirst.mp hle, by omega⟩
  · intro ⟨hle, hday⟩
    refine ⟨hfirst.mpr hle, ?_⟩
    by_contra hge
    have hafter := hnext.mp (not_lt.mp hge)
    omega

end Gridlens
