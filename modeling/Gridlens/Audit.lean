import Gridlens.Restatement

/-!
# The restatement audit

Two things the audit stands on. The rebuild compares like with like: cutting
bronze to the window of last month before building gives the rows that
building everything and cutting afterwards gives (`restated_eq_production`),
because a series key carries its `valid_time` and the window is made of whole
Paris days. And the comparison tells two tables apart exactly as far as
`identical_counts_iff` says: by their sizes and their distinct rows.
-/

namespace Gridlens

open Sql

section Cut

variable {T S : List Row} {w : Window} {today : Date}

/-- The same rows give the same versions. -/
theorem versions_congr (hT : Identified T) (h : T.Perm S) : (versions T).Perm (versions S) := by
  have hS : Identified S := (h.map _).nodup_iff.mp hT
  have hversion : ∀ r, versionOf T r = versionOf S r := by
    intro r
    have hnext : supersededAt T r = supersededAt S r :=
      successor_congr fun s _ => h.mem_iff
    unfold versionOf
    rw [hnext]
  refine (versions_perm hT).trans (List.Perm.trans ?_ (versions_perm hS).symm)
  rw [List.map_congr_left fun r _ => hversion r]
  exact h.map _

/-- Cutting a table to a span of valid times, then deriving the versions. -/
theorem versions_filter_perm (p : Int → Bool) (T : List Row) :
    (versions (T.filter fun r => p r.validTime)).Perm
      ((versions T).filter fun v => p v.row.validTime) := by
  have h : (leadOver (fun r : StgRow => r.key) (fun r => r.knownAt)
      ((T.map stgRow).filter fun r => p r.key.validTime)).Perm
        ((leadOver (fun r : StgRow => r.key) (fun r => r.knownAt) (T.map stgRow)).filter
          fun x => p x.1.key.validTime) :=
    leadOver_filter_perm (fun k : SeriesKey => p k.validTime) (T.map stgRow)
  have hstg : (T.filter fun r => p r.validTime).map stgRow
      = (T.map stgRow).filter fun r => p r.key.validTime := by
    rw [List.filter_map]
    rfl
  unfold versions generationVersions stgGeneration
  refine List.Perm.trans ?_ (List.Perm.of_eq List.filter_map.symm)
  rw [hstg]
  exact h.map _

theorem current_filter (p : Int → Bool) (V : List Version) :
    generationCurrent (V.filter fun v => p v.row.validTime)
      = (generationCurrent V).filter fun v => p v.row.validTime := by
  unfold generationCurrent
  rw [List.filter_filter, List.filter_filter]
  simp only [Bool.and_comm]

/-- A period of net generation is wholly inside or wholly outside a span of
valid times. -/
theorem net_filter_perm (p : Int → Bool) (V : List Version) :
    (periodGenerationNet (V.filter fun v => p v.row.validTime)).Perm
      ((periodGenerationNet V).filter fun r => p r.key.validTime) := by
  have h : (groupBy Version.netKey (fun rows => Sql.sum (rows.map Version.signedMw))
      (V.filter fun v => p v.row.validTime)).Perm
        ((groupBy Version.netKey (fun rows => Sql.sum (rows.map Version.signedMw)) V).filter
          fun g => p g.1.validTime) :=
    groupBy_filter_perm (fun k : NetKey => p k.validTime) V
  unfold periodGenerationNet
  rw [List.filter_map]
  exact h.map _

/-- A day of the mix is wholly inside or wholly outside a span of days, its
total included. -/
theorem mix_filter_perm {δ : Type} (quotient : Int → Int → δ) (p : Int → Bool) (N : List NetRow) :
    (dailyGenerationMix quotient (N.filter fun r => p r.key.settlementDay)).Perm
      ((dailyGenerationMix quotient N).filter fun r => p r.key.settlementDay) := by
  have henergy : (energy (N.filter fun r => p r.key.settlementDay)).Perm
      ((energy N).filter fun e => p e.1.settlementDay) :=
    groupBy_filter_perm (fun k : EnergyKey => p k.settlementDay) N
  have htotals : (totals ((energy N).filter fun e => p e.1.settlementDay)).Perm
      ((totals (energy N)).filter fun t => p t.1.2) :=
    groupBy_filter_perm (fun k : String × Int => p k.2) (energy N)
  unfold dailyGenerationMix
  rw [List.filter_map]
  refine List.Perm.map _ ?_
  have hmatch : ∀ (e : EnergyKey × Option Int) (t : (String × Int) × Option Int),
      p e.1.settlementDay = true →
        decide (t.1.1 = e.1.zone ∧ t.1.2 = e.1.settlementDay) = true → p t.1.2 = true := by
    intro e t he hon
    rw [decide_eq_true_eq] at hon
    rw [hon.2]
    exact he
  refine (join_perm henergy ((totals_perm henergy).trans htotals)).trans (List.Perm.of_eq ?_)
  exact join_filter hmatch _ _

/-- Every net row carries the Paris date of its own period. -/
theorem settlementDay_of_mem_net {r : NetRow}
    (hr : r ∈ periodGenerationNet (generationCurrent (versions T))) :
    r.key.settlementDay = parisDate r.key.validTime := by
  rcases List.mem_map.mp hr with ⟨g, hg, rfl⟩
  rcases (mem_groupBy.mp hg).1 with ⟨v, hv, hkey⟩
  have hrow : v.row ∈ (versions T).map Version.row :=
    List.mem_map_of_mem (List.mem_of_mem_filter hv)
  rw [(map_row_versions_perm T).mem_iff] at hrow
  rcases List.mem_map.mp hrow with ⟨row, -, hrow⟩
  show g.1.settlementDay = parisDate g.1.validTime
  rw [← hkey, Version.netKey, ← hrow]
  rfl

/-- A restated build sees exactly the rows `known_at` selects of the window. -/
theorem build_restate {δ : Type} (quotient : Int → Int → δ) (w : Window) (learnedUpTo : Int)
    (bronze : List Row) :
    build quotient (some (w.restate learnedUpTo)) bronze
      = build quotient none (byKnownAt w learnedUpTo bronze) := by
  have hselects : bronze.filter (w.restate learnedUpTo).selects = byKnownAt w learnedUpTo bronze := by
    apply List.filter_congr
    intro r _
    exact Bool.and_assoc _ _ _
  unfold build
  rw [stgGeneration_some, hselects]

end Cut

/-- Cutting bronze to last month before building equals building everything
and cutting afterwards, in silver and in gold. -/
theorem restated_eq_production {today : Date} {w : Window} (hw : lastMonth today = .ok w) {δ : Type}
    (quotient : Int → Int → δ) (learnedUpTo : Int) (snapshot bronze : List Row)
    (hid : Identified (atSnapshot w snapshot))
    (hsame : (atSnapshot w snapshot).Perm (byKnownAt w learnedUpTo bronze)) :
    (build quotient (some (w.restate learnedUpTo)) bronze).versions.Perm
        (w.confine (build quotient none snapshot)).versions ∧
      (build quotient (some (w.restate learnedUpTo)) bronze).net.Perm
        (w.confine (build quotient none snapshot)).net ∧
      (build quotient (some (w.restate learnedUpTo)) bronze).mix.Perm
        (w.confine (build quotient none snapshot)).mix := by
  rw [build_restate, confine_versions, confine_net, confine_mix, build_mix, build_mix, build_net,
    build_net, build_versions, build_versions]
  have hversions : (versions (byKnownAt w learnedUpTo bronze)).Perm
      ((versions snapshot).filter fun v => w.containsTime v.row.validTime) :=
    (versions_congr hid hsame).symm.trans (versions_filter_perm w.containsTime snapshot)
  have hcurrent : (generationCurrent (versions (byKnownAt w learnedUpTo bronze))).Perm
      ((generationCurrent (versions snapshot)).filter fun v => w.containsTime v.row.validTime) := by
    rw [← current_filter]
    exact hversions.filter _
  have hnet := (periodGenerationNet_perm hcurrent).trans (net_filter_perm w.containsTime _)
  refine ⟨hversions, hnet, ?_⟩
  -- the rows of the window are those of its days
  have hdays : (periodGenerationNet (generationCurrent (versions snapshot))).filter
        (fun r => w.containsTime r.key.validTime)
      = (periodGenerationNet (generationCurrent (versions snapshot))).filter
        fun r => w.containsDay r.key.settlementDay := by
    apply List.filter_congr
    intro r hr
    rw [settlementDay_of_mem_net hr]
    exact Window.containsTime_eq hw _
  rw [hdays] at hnet
  exact (dailyGenerationMix_perm quotient hnet).trans (mix_filter_perm quotient w.containsDay _)

/-- August 2026, in Paris days. -/
def august : Window where
  firstDay := ⟨739829, by decide⟩
  lastDay := ⟨739859, by decide⟩
  start := ⟨739829 * DAY - 2 * HOUR, by decide⟩
  stop := ⟨739860 * DAY - 2 * HOUR, by decide⟩

/-- Audited on 5 September, with a revision that production had not seen. -/
theorem restated_eq_production_august :
    (build Prod.mk (some (august.restate (noonPlus 2)))
        [nuclear 1 100, nuclear 2 200, nuclear 3 300]).versions.Perm
        (august.confine (build Prod.mk none [nuclear 2 200, nuclear 1 100])).versions ∧
      (build Prod.mk (some (august.restate (noonPlus 2)))
        [nuclear 1 100, nuclear 2 200, nuclear 3 300]).net.Perm
        (august.confine (build Prod.mk none [nuclear 2 200, nuclear 1 100])).net ∧
      (build Prod.mk (some (august.restate (noonPlus 2)))
        [nuclear 1 100, nuclear 2 200, nuclear 3 300]).mix.Perm
        (august.confine (build Prod.mk none [nuclear 2 200, nuclear 1 100])).mix :=
  @restated_eq_production ⟨739864, by decide⟩ august (by decide +kernel) _ Prod.mk (noonPlus 2)
    [nuclear 2 200, nuclear 1 100] [nuclear 1 100, nuclear 2 200, nuclear 3 300]
    (by decide +kernel) (by decide +kernel)

/-! ## What a difference query can see -/

section Differences

variable {ρ : Type} [DecidableEq ρ] {L R : List ρ}

/-- Two tables of one size with the same distinct rows. -/
def Alike (L R : List ρ) : Prop := L.length = R.length ∧ ∀ r, r ∈ L ↔ r ∈ R

/-- Alike, and yet some row is held more often on one side than on the other. -/
def Skewed (L R : List ρ) : Prop := Alike L R ∧ ∃ r, L.count r ≠ R.count r

omit [DecidableEq ρ] in
theorem Alike.of_perm (h : L.Perm R) : Alike L R := ⟨h.length_eq, fun _ => h.mem_iff⟩

/-- Counts beside both directions of `EXCEPT`: sizes and distinct rows. -/
theorem identical_counts_iff : identical (counts L R) = true ↔ Alike L R := by
  rw [identical_iff]
  simp only [counts, List.length_eq_zero_iff, except_eq_nil_iff]
  constructor
  · intro ⟨hlen, hleft, hright⟩
    exact ⟨hlen, fun r => ⟨hleft r, hright r⟩⟩
  · intro ⟨hlen, hmem⟩
    exact ⟨hlen, fun r => (hmem r).mp, fun r => (hmem r).mpr⟩

/-- Sizes and distinct rows settle the multiplicities unless they are skewed. -/
theorem Alike.perm_of_not_skewed (halike : Alike L R) (h : ¬ Skewed L R) : L.Perm R := by
  rw [List.perm_iff_count]
  intro r
  by_contra hcount
  exact h ⟨halike, r, hcount⟩

theorem Skewed.not_perm (h : Skewed L R) : ¬ L.Perm R := by
  rcases h with ⟨-, r, hcount⟩
  exact fun hperm => hcount (hperm.count_eq r)

/-- Where one side repeats no row, the counts settle it. -/
theorem identical_counts_iff_perm (hL : L.Nodup) : identical (counts L R) = true ↔ L.Perm R := by
  rw [identical_counts_iff]
  constructor
  · intro h
    have hsub : L.Subperm R := hL.subperm fun r hr => (h.2 r).mp hr
    exact hsub.perm_of_length_le h.1.symm.le
  · exact Alike.of_perm

end Differences

section Passing

variable {α β γ ρ : Type} [DecidableEq α] [DecidableEq β] [DecidableEq γ] [DecidableEq ρ]
  [Dated α] [Dated β] [Dated γ] [Stamped ρ] (w : Window) (snapshotId learnedUpTo : Int)
  (restated production : Tables α β γ) (snapshot bronze : List ρ)

theorem checkClocks_ok_iff :
    (∃ c, checkClocks w snapshotId learnedUpTo snapshot bronze = .ok c) ↔
      Alike (atSnapshot w snapshot) (byKnownAt w learnedUpTo bronze) := by
  rw [← identical_counts_iff]
  unfold checkClocks
  by_cases h : identical (counts (atSnapshot w snapshot) (byKnownAt w learnedUpTo bronze)) = true
  · simp [h]
  · simp [h, raise]

/-- A table is reported when its counts are not identical. -/
theorem mem_differences {results : List (String × Counts)} {table : String} :
    table ∈ differences results ↔ ∃ c, (table, c) ∈ results ∧ identical c = false := by
  have hreport : ∀ c : Counts,
      (c.left ≠ c.right ∨ c.onlyLeft ≠ 0 ∨ c.onlyRight ≠ 0) ↔ identical c = false := by
    intro c
    rw [← Bool.not_eq_true, identical_iff]
    omega
  simp only [differences, List.mem_map, List.mem_filter, decide_eq_true_eq, hreport]
  constructor
  · intro ⟨r, ⟨hr, hc⟩, hname⟩
    exact ⟨r.2, hname ▸ hr, hc⟩
  · intro ⟨c, hr, hc⟩
    exact ⟨(table, c), ⟨hr, hc⟩, rfl⟩

theorem differences_eq_nil_iff {results : List (String × Counts)} :
    differences results = [] ↔ ∀ r ∈ results, identical r.2 = true := by
  rw [List.eq_nil_iff_forall_not_mem]
  simp only [mem_differences, not_exists, not_and, Bool.not_eq_false]
  exact ⟨fun h r hr => h r.1 r.2 hr, fun h table c hr => h (table, c) hr⟩

/-- Nothing is reported when the three tables are alike on both sides. -/
theorem differences_compare_eq_nil_iff :
    differences (compare w restated production) = [] ↔
      Alike (w.confine restated).versions (w.confine production).versions ∧
        Alike (w.confine restated).net (w.confine production).net ∧
        Alike (w.confine restated).mix (w.confine production).mix := by
  rw [differences_eq_nil_iff]
  simp [compare, identical_counts_iff]

end Passing

/-- A passing audit means identical tables exactly as far as no table is
skewed: unless both sides of every table are alike while some row of one of
them is held more often on one side than on the other. -/
theorem audit_passes_iff {α β γ ρ : Type} [DecidableEq α] [DecidableEq β] [DecidableEq γ]
    [DecidableEq ρ] [Dated α] [Dated β] [Dated γ] [Stamped ρ] (w : Window)
    (snapshotId learnedUpTo : Int) (restated production : Tables α β γ) (snapshot bronze : List ρ) :
    ((differences (compare w restated production) = [] ∧
          ∃ c, checkClocks w snapshotId learnedUpTo snapshot bronze = .ok c) ↔
        (w.confine restated).versions.Perm (w.confine production).versions ∧
          (w.confine restated).net.Perm (w.confine production).net ∧
          (w.confine restated).mix.Perm (w.confine production).mix ∧
          (atSnapshot w snapshot).Perm (byKnownAt w learnedUpTo bronze)) ↔
      ¬ (Alike (w.confine restated).versions (w.confine production).versions ∧
          Alike (w.confine restated).net (w.confine production).net ∧
          Alike (w.confine restated).mix (w.confine production).mix ∧
          Alike (atSnapshot w snapshot) (byKnownAt w learnedUpTo bronze) ∧
          (Skewed (w.confine restated).versions (w.confine production).versions ∨
            Skewed (w.confine restated).net (w.confine production).net ∨
            Skewed (w.confine restated).mix (w.confine production).mix ∨
            Skewed (atSnapshot w snapshot) (byKnownAt w learnedUpTo bronze))) := by
  rw [differences_compare_eq_nil_iff, checkClocks_ok_iff]
  constructor
  · -- all alike: the audit passes, and a skewed pair is a difference it missed
    intro h ⟨hversions, hnet, hmix, hclocks, hskew⟩
    have hsame := h.mp ⟨⟨hversions, hnet, hmix⟩, hclocks⟩
    rcases hskew with hskew | hskew | hskew | hskew
    · exact hskew.not_perm hsame.1
    · exact hskew.not_perm hsame.2.1
    · exact hskew.not_perm hsame.2.2.1
    · exact hskew.not_perm hsame.2.2.2
  · intro h
    constructor
    · -- passed, so all are alike, so none is skewed
      intro ⟨⟨hversions, hnet, hmix⟩, hclocks⟩
      have hskew : ¬ _ := fun hs => h ⟨hversions, hnet, hmix, hclocks, hs⟩
      rw [not_or, not_or, not_or] at hskew
      exact ⟨hversions.perm_of_not_skewed hskew.1, hnet.perm_of_not_skewed hskew.2.1,
        hmix.perm_of_not_skewed hskew.2.2.1, hclocks.perm_of_not_skewed hskew.2.2.2⟩
    · intro ⟨hversions, hnet, hmix, hclocks⟩
      exact ⟨⟨Alike.of_perm hversions, Alike.of_perm hnet, Alike.of_perm hmix⟩,
        Alike.of_perm hclocks⟩

/-- A version of each of two rows. -/
def versionA : Version := versionOf [] (nuclear 1 100)

def versionB : Version := versionOf [] (nuclear 2 200)

/-- One row twice and another once, against the first once and the other
twice: every count agrees. -/
theorem audit_passes_on_repeats :
    differences (compare august (⟨[versionA, versionA, versionB], [], []⟩ : Build (Int × Int))
        ⟨[versionA, versionB, versionB], [], []⟩) = [] ∧
      (∃ c, checkClocks august 0 (noonPlus 2) [nuclear 1 100, nuclear 1 100, nuclear 2 200]
        [nuclear 1 100, nuclear 2 200, nuclear 2 200] = .ok c) ∧
      ¬ [versionA, versionA, versionB].Perm [versionA, versionB, versionB] ∧
      ¬ [nuclear 1 100, nuclear 1 100, nuclear 2 200].Perm
        [nuclear 1 100, nuclear 2 200, nuclear 2 200] := by
  refine ⟨by decide +kernel, ⟨⟨3, 3, 0, 0⟩, by decide +kernel⟩, by decide +kernel, by decide +kernel⟩

end Gridlens
