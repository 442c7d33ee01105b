import Gridlens.Bronze
import Gridlens.TimeAxis

/-!
# Silver: version intervals and the as-of read

`stg_generation`, `generation_versions`, `generation_current` and the
`known_at` macro. `generation_versions` turns each bronze row into the half
open interval it was believed in; `asOf` reads it at an instant.

`asOf_perm` ties the read to bronze: it selects the rows in force at the
instant in the sense of `Bitemporal.InForce`, each once.
-/

namespace Gridlens

open Sql

/-! ## `stg_generation` -/

/-- A row of `stg_generation`: the columns of bronze and two derived ones. -/
structure StgRow extends Row where
  settlementDay : Int
  isStorage : Bool
deriving DecidableEq, Repr

/-- The variables of a restated build. Without them the build is production's,
where giving them is a compile error. -/
structure Restate where
  restateAsOf : Int
  restateFrom : Int
  restateTo : Int
deriving DecidableEq, Repr

/-- The derived columns. -/
def stgRow (r : Row) : StgRow where
  toRow := r
  settlementDay := parisDate r.validTime
  isStorage := r.productionType = "B10" ∨ r.productionType = "B25"

/-- The `where` of a restated build. -/
def Restate.selects (vars : Restate) (r : Row) : Bool :=
  r.knownAt ≤ vars.restateAsOf && vars.restateFrom ≤ r.validTime && r.validTime < vars.restateTo

def stgGeneration (vars : Option Restate) (T : List Row) : List StgRow :=
  match vars with
  | none => T.map stgRow
  | some vars => (T.filter vars.selects).map stgRow

/-! ## `generation_versions` and its readers -/

/-- A version: a staging row, whose `known_at` is now called `known_from`, and
the end of the interval it was believed in. -/
structure Version where
  row : StgRow
  knownTo : Option Int
  isCurrent : Bool
deriving DecidableEq, Repr

namespace Version

def key (v : Version) : SeriesKey := v.row.key

def knownFrom (v : Version) : Int := v.row.knownAt

/-- `{{ known_at(moment) }}`. -/
def knownAt (moment : Int) (v : Version) : Truth :=
  (Sql.compare (· ≤ ·) (some v.knownFrom) (some moment)).and
    ((Sql.compare (· < ·) (some moment) v.knownTo).or (isNull v.knownTo))

end Version

def generationVersions (S : List StgRow) : List Version :=
  (leadOver (fun r : StgRow => r.key) (fun r => r.knownAt) S).map fun r =>
    ⟨r.1, r.2, (isNull r.2).holds⟩

def generationCurrent (V : List Version) : List Version := V.filter fun v => v.isCurrent

/-- The rows of `V` believed at an instant. -/
def asOf (moment : Int) (V : List Version) : List Version :=
  V.filter fun v => (v.knownAt moment).holds

/-- The versions production builds from a table. -/
def versions (T : List Row) : List Version := generationVersions (stgGeneration none T)

/-! ## Versions, row by row -/

/-- When the version of `r` was superseded: the next `known_at` of its key. -/
def supersededAt (T : List Row) (r : Row) : Option Int := successor Row.key Row.knownAt T r

/-- The version of a row of `T`. -/
def versionOf (T : List Row) (r : Row) : Version :=
  ⟨stgRow r, supersededAt T r, (supersededAt T r).isNone⟩

section Versions

variable {T S : List Row} {r s : Row} {v : Version} {t : Int} {k : SeriesKey}

theorem successor_map_stgRow (T : List Row) (r : Row) :
    successor (fun r : StgRow => r.key) (fun r => r.knownAt) (T.map stgRow) (stgRow r)
      = supersededAt T r := by
  unfold supersededAt successor partition
  simp only [List.filter_map, List.map_map]
  rfl

/-- Each bronze row gives one version, whatever the table. -/
theorem map_row_versions_perm (T : List Row) : ((versions T).map Version.row).Perm (T.map stgRow) := by
  unfold versions generationVersions stgGeneration
  rw [List.map_map]
  exact map_fst_leadOver_perm

/-- Where identities are distinct, the versions are those of the rows. -/
theorem versions_perm (hT : Identified T) : (versions T).Perm (T.map (versionOf T)) := by
  have hnd : ((T.map stgRow).map fun r : StgRow => (r.key, r.knownAt)).Nodup := by
    rw [List.map_map]
    exact hT
  have h := (leadOver_perm hnd).map fun r => (⟨r.1, r.2, (isNull r.2).holds⟩ : Version)
  rw [List.map_map, List.map_map] at h
  refine h.trans (List.Perm.of_eq ?_)
  apply List.map_congr_left
  intro r _
  simp only [Function.comp_apply, successor_map_stgRow, holds_isNull]
  rfl

theorem mem_versions (hT : Identified T) : v ∈ versions T ↔ ∃ r ∈ T, versionOf T r = v := by
  rw [(versions_perm hT).mem_iff, List.mem_map]

/-- The interval of a version that was superseded is not empty. -/
theorem knownFrom_lt_of_knownTo (hT : Identified T) (hv : v ∈ versions T) {u : Int}
    (hu : v.knownTo = some u) : v.knownFrom < u := by
  rcases (mem_versions hT).mp hv with ⟨r, -, rfl⟩
  rcases (successor_eq_some.mp hu).1 with ⟨s, -, -, hlt, rfl⟩
  exact hlt

/-! ## The as-of read -/

theorem holds_knownAt :
    (v.knownAt t).holds = true ↔ v.knownFrom ≤ t ∧ ∀ u, v.knownTo = some u → t < u := by
  unfold Version.knownAt
  cases h : v.knownTo with
  | none => simp
  | some u => simp

/-- The interval predicate on the version of a row, against the row's history:
it is the version in force. -/
theorem holds_knownAt_versionOf (hr : r ∈ T) :
    ((versionOf T r).knownAt t).holds = true ↔
      Bitemporal.InForce Row.knownAt (history T r.key) t r := by
  rw [holds_knownAt, Bitemporal.inForce_iff_forall_lt]
  have hnext : (∀ u, supersededAt T r = some u → t < u) ↔
      ∀ s ∈ T, s.key = r.key → r.knownAt < s.knownAt → t < s.knownAt := lt_successor_iff
  constructor
  · intro ⟨hfrom, hto⟩
    refine ⟨⟨hr, rfl⟩, hfrom, ?_⟩
    intro w hw
    exact hnext.mp hto w hw.1 hw.2
  · intro ⟨_, hfrom, hlater⟩
    exact ⟨hfrom, hnext.mpr fun s hs hk => hlater s ⟨hs, hk⟩⟩

/-- The rows of `T` in force at `t`. -/
def inForceRows (T : List Row) (t : Int) : List Row :=
  T.filter fun r => r.knownAt ≤ t ∧ ∀ s ∈ T, s.key = r.key → r.knownAt < s.knownAt → t < s.knownAt

theorem mem_inForceRows :
    r ∈ inForceRows T t ↔ r ∈ T ∧ Bitemporal.InForce Row.knownAt (history T r.key) t r := by
  rw [inForceRows, List.mem_filter, decide_eq_true_eq, Bitemporal.inForce_iff_forall_lt]
  constructor
  · intro ⟨hr, hle, hlater⟩
    exact ⟨hr, ⟨hr, rfl⟩, hle, fun w hw => hlater w hw.1 hw.2⟩
  · intro ⟨hr, _, hle, hlater⟩
    exact ⟨hr, hle, fun s hs hk => hlater s ⟨hs, hk⟩⟩

/-- The as-of read selects the versions of the rows in force, each once. -/
theorem asOf_perm (hT : Identified T) (t : Int) :
    (asOf t (versions T)).Perm ((inForceRows T t).map (versionOf T)) := by
  have hfilter : (T.map (versionOf T)).filter (fun v => (v.knownAt t).holds)
      = (inForceRows T t).map (versionOf T) := by
    rw [List.filter_map, inForceRows]
    congr 1
    apply List.filter_congr
    intro r hr
    rw [Function.comp_apply, Bool.eq_iff_iff, holds_knownAt_versionOf hr,
      Bitemporal.inForce_iff_forall_lt, decide_eq_true_eq]
    constructor
    · intro ⟨_, hle, hlater⟩
      exact ⟨hle, fun s hs hk => hlater s ⟨hs, hk⟩⟩
    · intro ⟨hle, hlater⟩
      exact ⟨⟨hr, rfl⟩, hle, fun w hw => hlater w hw.1 hw.2⟩
  rw [← hfilter]
  exact (versions_perm hT).filter _

/-- What the as-of read shows, apart from the interval. -/
theorem map_row_asOf_perm (hT : Identified T) (t : Int) :
    ((asOf t (versions T)).map Version.row).Perm ((inForceRows T t).map stgRow) := by
  have h := (asOf_perm hT t).map Version.row
  rw [List.map_map] at h
  exact h

/-! ## The current read -/

/-- The rows no row of their key is newer than. -/
def newestRows (T : List Row) : List Row :=
  T.filter fun r => ∀ s ∈ T, s.key = r.key → s.knownAt ≤ r.knownAt

/-- They are the ones the merge compares the next batch with. -/
theorem mem_newestRows (hT : Identified T) : r ∈ newestRows T ↔ newestHeld T r.key = some r := by
  rw [newestRows, List.mem_filter, decide_eq_true_eq, newestHeld_eq_some_iff hT]
  constructor
  · intro ⟨hr, hmax⟩
    exact ⟨⟨hr, rfl⟩, fun s hs => hmax s hs.1 hs.2⟩
  · intro ⟨hr, hmax⟩
    exact ⟨hr.1, fun s hs hk => hmax s ⟨hs, hk⟩⟩

/-- `generation_current` is the versions nothing superseded. -/
theorem map_row_current_perm (hT : Identified T) :
    ((generationCurrent (versions T)).map Version.row).Perm ((newestRows T).map stgRow) := by
  have hfilter : (T.map (versionOf T)).filter (fun v => v.isCurrent)
      = (newestRows T).map (versionOf T) := by
    rw [List.filter_map, newestRows]
    congr 1
    apply List.filter_congr
    intro r _
    rw [Function.comp_apply, versionOf, Bool.eq_iff_iff, decide_eq_true_eq,
      Option.isNone_iff_eq_none, supersededAt, successor_eq_none]
  have h := ((versions_perm hT).filter fun v => v.isCurrent).map Version.row
  rw [hfilter, List.map_map] at h
  exact h

/-- A restated build reads the rows it selects, as production would. -/
theorem stgGeneration_some (vars : Restate) (T : List Row) :
    stgGeneration (some vars) T = stgGeneration none (T.filter vars.selects) := rfl

theorem identified_filter (hT : Identified T) (p : Row → Bool) : Identified (T.filter p) :=
  (List.filter_sublist.map _).nodup hT

end Versions

end Gridlens
