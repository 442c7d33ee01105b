import Gridlens.EnergyExact
import Gridlens.Sql.Distinct

/-!
# What the data tests find

`dbt build` runs the queries of `transform/tests`; a row that one of them
returns fails the build. Over any bronze table, whoever wrote it, three of them
return nothing, `no_empty_version_intervals` returns something exactly where
two rows share an identity, and `net_is_one_row_per_type_and_period` exactly
where two current versions of a type and a period differ in their resolution
(`data_tests_iff`). `daily_energy_test` is the one on the daily mart.
-/

namespace Gridlens

open Sql

/-! ## The queries -/

/-- `as_of_returns_at_most_one_row_per_key`, whose moment is a constant. -/
def asOfReturnsAtMostOneRowPerKey (moment : Int) (V : List Version) : List (SeriesKey × Nat) :=
  repeated Version.key (asOf moment V)

/-- `current_is_one_row_per_series_period`. -/
def currentIsOneRowPerSeriesPeriod (current : List Version) : List (SeriesKey × Nat) :=
  repeated Version.key current

/-- `net_is_one_row_per_type_and_period`. -/
def netIsOneRowPerTypeAndPeriod (net : List NetRow) : List ((String × Int × String) × Nat) :=
  repeated (fun r => (r.key.zone, r.key.validTime, r.key.productionType)) net

/-- `no_empty_version_intervals`. -/
def noEmptyVersionIntervals (V : List Version) : List Version :=
  V.filter fun v => (Sql.compare (· ≤ ·) v.knownTo (some v.knownFrom)).holds

/-- `versions_preserve_every_bronze_row`. -/
def versionsPreserveEveryBronzeRow (staged : List StgRow) (V : List Version) : List (Nat × Nat) :=
  [(staged.length, V.length)].filter fun counts => counts.1 ≠ counts.2

/-- `daily_energy_matches_period_energy`. -/
def dailyEnergyMatchesPeriodEnergy {δ : Type} (net : List NetRow) (mix : List (MixRow δ)) :
    List (((String × Int) × Option Int) × ((String × Int) × Option Int)) :=
  let fromPeriods := groupBy NetRow.day energyOf net
  let fromDaily := groupBy (fun r : MixRow δ => r.key.day)
    (fun rows => Sql.sum (rows.map MixRow.energyMwh)) mix
  (Sql.join (fun p d => d.1 = p.1) fromPeriods fromDaily).filter fun r =>
    (Sql.compare (· ≠ ·) r.1.2 r.2.2).holds

/-! ## Versions, one after another -/

section Versions

variable {S : List StgRow} {v w : Version}

/-- Of two versions of a key, the one `lead` puts first ends where the other
begins, or earlier, whether or not they were learned at one time. -/
theorem pairwise_generationVersions (S : List StgRow) :
    (generationVersions S).Pairwise fun v w =>
      v.key = w.key → ∃ n, v.knownTo = some n ∧ n ≤ w.knownFrom := by
  unfold generationVersions
  rw [List.pairwise_map]
  exact @pairwise_leadOver StgRow SeriesKey Int _ (fun r => r.knownAt) _ (fun r => r.key) S

theorem isCurrent_eq (hv : v ∈ generationVersions S) : v.isCurrent = v.knownTo.isNone := by
  rcases List.mem_map.mp hv with ⟨x, -, rfl⟩
  exact holds_isNull x.2

theorem map_row_generationVersions_perm (S : List StgRow) :
    ((generationVersions S).map Version.row).Perm S := by
  unfold generationVersions
  rw [List.map_map]
  exact map_fst_leadOver_perm

/-- A key has one version at any instant. -/
theorem nodup_asOf (moment : Int) :
    ((asOf moment (generationVersions S)).map Version.key).Nodup := by
  refine List.pairwise_map.mpr ?_
  refine ((pairwise_generationVersions S).filter _).imp_of_mem ?_
  intro v w hv hw hend hkey
  rcases hend hkey with ⟨n, hn, hle⟩
  have hfirst := (holds_knownAt.mp (List.mem_filter.mp hv).2).2 n hn
  have hsecond := (holds_knownAt.mp (List.mem_filter.mp hw).2).1
  omega

/-- And one that is current. -/
theorem nodup_current : ((generationCurrent (generationVersions S)).map Version.key).Nodup := by
  refine List.pairwise_map.mpr ?_
  refine ((pairwise_generationVersions S).filter _).imp_of_mem ?_
  intro v w hv hw hend hkey
  rcases hend hkey with ⟨n, hn, -⟩
  rcases List.mem_filter.mp hv with ⟨hmem, hcurrent⟩
  rw [isCurrent_eq hmem, hn] at hcurrent
  cases hcurrent

theorem noEmptyVersionIntervals_eq_nil_iff (V : List Version) :
    noEmptyVersionIntervals V = [] ↔ ∀ v ∈ V, ∀ n, v.knownTo = some n → v.knownFrom < n := by
  unfold noEmptyVersionIntervals
  rw [List.filter_eq_nil_iff]
  refine forall₂_congr fun v _ => ?_
  cases v.knownTo with
  | none => simp [Sql.compare, Truth.holds]
  | some n => simp

/-- An interval is empty exactly where two rows were learned at one time. -/
theorem no_empty_iff_identified :
    noEmptyVersionIntervals (generationVersions S) = [] ↔ Identified (S.map StgRow.toRow) := by
  rw [noEmptyVersionIntervals_eq_nil_iff]
  have hidentity : (S.map StgRow.toRow).map Row.identity =
      S.map fun r => (r.key, r.knownAt) := List.map_map
  constructor
  · intro hlater
    -- the versions have distinct beginnings, and so have their rows
    have hnodup : ((generationVersions S).map fun v => (v.key, v.knownFrom)).Nodup := by
      refine List.pairwise_map.mpr ?_
      refine (pairwise_generationVersions S).imp_of_mem ?_
      intro v w hv _ hend hsame
      rcases hend (congrArg Prod.fst hsame) with ⟨n, hn, hle⟩
      have hbegin : v.knownFrom = w.knownFrom := congrArg Prod.snd hsame
      have hlt := hlater v hv n hn
      omega
    have hrows := (map_row_generationVersions_perm S).map fun r : StgRow => (r.key, r.knownAt)
    rw [List.map_map] at hrows
    unfold Identified
    rw [hidentity]
    exact hrows.nodup_iff.mp hnodup
  · intro hS v hv n hn
    unfold Identified at hS
    rw [hidentity] at hS
    rcases List.mem_map.mp hv with ⟨x, hx, rfl⟩
    rcases List.mem_map.mp ((leadOver_perm hS).mem_iff.mp hx) with ⟨r, -, rfl⟩
    rcases (successor_eq_some.mp hn).1 with ⟨s, -, -, hlt, rfl⟩
    exact hlt

end Versions

/-! ## The net mart -/

section Net

variable {current : List Version}

theorem periodGenerationNet_keys (current : List Version) :
    (periodGenerationNet current).map NetRow.key =
      (groupBy Version.netKey (fun rows => Sql.sum (rows.map Version.signedMw)) current).map
        Prod.fst := by
  unfold periodGenerationNet
  rw [List.map_map]
  rfl

theorem mem_net_keys {k : NetKey} :
    k ∈ (periodGenerationNet current).map NetRow.key ↔ ∃ v ∈ current, v.netKey = k := by
  rw [periodGenerationNet_keys, List.mem_map]
  constructor
  · rintro ⟨g, hg, rfl⟩
    exact (mem_groupBy.mp hg).1
  · rintro ⟨v, hv, rfl⟩
    exact ⟨_, mem_groupBy_of_mem hv, rfl⟩

/-- The versions of a type in a period agree on the resolution. -/
def OneResolution (current : List Version) : Prop :=
  ∀ v ∈ current, ∀ w ∈ current, v.row.zone = w.row.zone → v.row.validTime = w.row.validTime →
    v.row.productionType = w.row.productionType →
      v.row.resolutionMinutes = w.row.resolutionMinutes

/-- A type has one row in a period exactly where its versions agree on the
resolution: the day and the kind follow from the rest of the key. -/
theorem net_test_iff (hrows : ∀ v ∈ current, v.row = stgRow v.row.toRow) :
    netIsOneRowPerTypeAndPeriod (periodGenerationNet current) = [] ↔ OneResolution current := by
  have hkeys : ((periodGenerationNet current).map NetRow.key).Nodup := by
    rw [periodGenerationNet_keys]
    exact groupBy_keys_nodup
  unfold netIsOneRowPerTypeAndPeriod
  rw [repeated_eq_nil_iff, List.nodup_map_iff_inj_on (List.Nodup.of_map _ hkeys)]
  constructor
  · intro hinj v hv w hw hzone htime htype
    rcases List.mem_map.mp (mem_net_keys.mpr ⟨v, hv, rfl⟩) with ⟨r, hr, hrkey⟩
    rcases List.mem_map.mp (mem_net_keys.mpr ⟨w, hw, rfl⟩) with ⟨r', hr', hrkey'⟩
    have hsame : r = r' := by
      refine hinj r hr r' hr' ?_
      rw [hrkey, hrkey']
      show (v.row.zone, v.row.validTime, v.row.productionType) =
        (w.row.zone, w.row.validTime, w.row.productionType)
      rw [hzone, htime, htype]
    have hkey : v.netKey = w.netKey := by rw [← hrkey, ← hrkey', hsame]
    exact congrArg NetKey.resolutionMinutes hkey
  · intro hagree r hr r' hr' hsame
    refine List.inj_on_of_nodup_map hkeys hr hr' ?_
    rcases mem_net_keys.mp (List.mem_map_of_mem hr) with ⟨v, hv, hvkey⟩
    rcases mem_net_keys.mp (List.mem_map_of_mem hr') with ⟨w, hw, hwkey⟩
    rw [← hvkey, ← hwkey] at hsame ⊢
    simp only [Prod.mk.injEq] at hsame
    rcases hsame with ⟨hzone, htime, htype⟩
    have hzone : v.row.zone = w.row.zone := hzone
    have htime : v.row.validTime = w.row.validTime := htime
    have htype : v.row.productionType = w.row.productionType := htype
    have hresolution := hagree v hv w hw hzone htime htype
    have hday : v.row.settlementDay = w.row.settlementDay := by
      rw [hrows v hv, hrows w hw]
      show parisDate v.row.validTime = parisDate w.row.validTime
      rw [htime]
    have hkind : v.row.isStorage = w.row.isStorage := by
      rw [hrows v hv, hrows w hw]
      show decide (v.row.productionType = "B10" ∨ v.row.productionType = "B25") =
        decide (w.row.productionType = "B10" ∨ w.row.productionType = "B25")
      rw [htype]
    unfold Version.netKey
    rw [hzone, htime, htype, hresolution, hday, hkind]

end Net

/-! ## The daily mart -/

/-- The energies of a day, whatever the shares are. -/
theorem map_energyMwh_mix {δ : Type} (quotient : Int → Int → δ) (current : List Version)
    (d : String × Int) :
    (partition (fun r : MixRow δ => r.key.day) d
        (dailyGenerationMix quotient (periodGenerationNet current))).map MixRow.energyMwh =
      ((exactMix current).filter fun r => r.key.day = d).map MixRow.energyMwh := by
  rw [map_energyMwh_day, dailyGenerationMix_eq]
  unfold partition
  rw [List.filter_map, List.map_map]
  rfl

/-- Over whole periods the daily mart and the period mart agree to the digit. -/
theorem daily_test_nil {δ : Type} (quotient : Int → Int → δ) {current : List Version}
    (h : Published current) : dailyEnergyMatchesPeriodEnergy (periodGenerationNet current)
      (dailyGenerationMix quotient (periodGenerationNet current)) = [] := by
  unfold dailyEnergyMatchesPeriodEnergy
  rw [List.filter_eq_nil_iff]
  intro r hr
  rcases List.mem_flatMap.mp hr with ⟨p, hp, hjoined⟩
  rcases List.mem_map.mp hjoined with ⟨d, hd, rfl⟩
  rcases List.mem_filter.mp hd with ⟨hd, hday⟩
  have hday : d.1 = p.1 := of_decide_eq_true hday
  have hperiods : p.2 = energyOf (partition NetRow.day p.1 (periodGenerationNet current)) :=
    (mem_groupBy.mp hp).2
  have hdaily : d.2 = p.2 := by
    rw [(mem_groupBy.mp hd).2, hperiods, hday, map_energyMwh_mix, sum_energies_day h]
    rfl
  simp only
  rw [hdaily]
  cases p.2 with
  | none => simp [Sql.compare, Truth.holds]
  | some n => simp

/-! ## A build -/

/-- What the data tests find after a build over any bronze table: at any moment
a key has one version, and one is current, and no row is lost or added; an
interval is empty exactly where two rows share an identity; a type has two rows
in a period exactly where its current versions differ in their resolution; and
the energies agree wherever the resolutions are multiples of three minutes. -/
theorem data_tests_iff {δ : Type} (quotient : Int → Int → δ) (T : List Row) (moment : Int) :
    asOfReturnsAtMostOneRowPerKey moment (versions T) = [] ∧
      currentIsOneRowPerSeriesPeriod (generationCurrent (versions T)) = [] ∧
      versionsPreserveEveryBronzeRow (stgGeneration none T) (versions T) = [] ∧
      (noEmptyVersionIntervals (versions T) = [] ↔ Identified T) ∧
      (netIsOneRowPerTypeAndPeriod (periodGenerationNet (generationCurrent (versions T))) = [] ↔
        OneResolution (generationCurrent (versions T))) ∧
      (Published (generationCurrent (versions T)) →
        dailyEnergyMatchesPeriodEnergy (periodGenerationNet (generationCurrent (versions T)))
          (dailyGenerationMix quotient (periodGenerationNet (generationCurrent (versions T)))) =
            []) := by
  refine ⟨repeated_eq_nil_iff.mpr (nodup_asOf moment), repeated_eq_nil_iff.mpr nodup_current, ?_,
    ?_, net_test_iff fun v hv => ?_, daily_test_nil quotient⟩
  · have hlength := (map_row_versions_perm T).length_eq
    rw [List.length_map] at hlength
    simp [versionsPreserveEveryBronzeRow, stgGeneration, hlength]
  · have hrows : (stgGeneration none T).map StgRow.toRow = T := by
      unfold stgGeneration
      rw [List.map_map]
      exact List.map_id T
    rw [versions, no_empty_iff_identified, hrows]
  · have hrow := List.mem_map_of_mem (f := Version.row) (List.mem_of_mem_filter hv)
    rw [(map_row_versions_perm T).mem_iff] at hrow
    rcases List.mem_map.mp hrow with ⟨r, -, hr⟩
    rw [← hr]
    rfl

end Gridlens
