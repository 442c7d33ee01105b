import Gridlens.Silver

/-!
# The as-of read is stable and exact

What `known_at` promises. A merge stamped `k` leaves every answer for an
earlier instant as it was, whatever its place among the runs, because the
versions it adds all begin at `k` (`land_immutable`). And the interval
predicate, the greatest `known_at` not above the instant, and the current rows
of a build restricted to what was known then are the same read
(`asOf_exact`).
-/

namespace Gridlens

open Sql

section Immutable

variable {T N : List Row} {t : Int}

/-- Rows learned after `t` change nothing about what was in force at `t`. -/
theorem inForceRows_append (hN : ∀ s ∈ N, t < s.knownAt) :
    inForceRows (T ++ N) t = inForceRows T t := by
  -- a new row is not known at `t`
  have hnone : N.filter (fun r => r.knownAt ≤ t ∧
      ∀ s ∈ T ++ N, s.key = r.key → r.knownAt < s.knownAt → t < s.knownAt) = [] := by
    rw [List.filter_eq_nil_iff]
    intro r hr
    have hlt := hN r hr
    rw [decide_eq_true_eq]
    intro h
    omega
  unfold inForceRows
  rw [List.filter_append, hnone, List.append_nil]
  apply List.filter_congr
  intro r _
  rw [decide_eq_decide]
  constructor
  · intro ⟨hle, hlater⟩
    exact ⟨hle, fun s hs => hlater s (List.mem_append_left N hs)⟩
  · intro ⟨hle, hlater⟩
    refine ⟨hle, fun s hs hk hlt => ?_⟩
    -- nor does it supersede a row that is
    rcases List.mem_append.mp hs with hs | hs
    · exact hlater s hs hk hlt
    · exact hN s hs

/-- One merge leaves the answers for instants before its own alone. -/
theorem asOf_apply_perm (hT : Identified T) (R : Run) (ht : t < R.knownAt) :
    ((asOf t (versions (R.apply T))).map Version.row).Perm
      ((asOf t (versions T)).map Version.row) := by
  have hafter := map_row_asOf_perm (R.identified_apply hT) t
  rw [Run.apply_eq, inForceRows_append] at hafter
  · rw [Run.apply_eq]
    exact hafter.trans (map_row_asOf_perm hT t).symm
  · intro s hs
    rw [R.stamped s (List.mem_of_mem_filter hs)]
    exact ht

end Immutable

/-- Over any sequence of runs, in any order of their stamps, each merge keeps
every held row and every answer for an instant before its own stamp. -/
theorem land_immutable {T : List Row} (hT : Identified T) (before : List Run) (R : Run) :
    land T before <+: land T (before ++ [R]) ∧
      ∀ t < R.knownAt, ((asOf t (versions (land T (before ++ [R])))).map Version.row).Perm
        ((asOf t (versions (land T before))).map Version.row) := by
  rw [land_concat]
  constructor
  · exact R.prefix_apply _
  · intro t ht
    exact asOf_apply_perm (identified_land hT before) R ht

/-- A correction stamped between two held versions: the instants before it
still read what they read. -/
theorem land_immutable_between :
    [nuclear 10 100, nuclear 30 300] <+:
        land [nuclear 10 100, nuclear 30 300] ([] ++ [Run.single (nuclear 20 200)]) ∧
      ∀ t < noonPlus 20,
        ((asOf t (versions (land [nuclear 10 100, nuclear 30 300]
          ([] ++ [Run.single (nuclear 20 200)])))).map Version.row).Perm
          ((asOf t (versions (land [nuclear 10 100, nuclear 30 300] []))).map Version.row) :=
  land_immutable (by decide) []
    (Run.single (nuclear 20 200))

section Exact

variable {T : List Row} {k : SeriesKey} {r : Row} {t : Int}

/-- The rows in force of one key are the one row in force, if any. -/
theorem filter_inForceRows (hT : Identified T)
    (hr : Bitemporal.InForce Row.knownAt (history T k) t r) :
    (inForceRows T t).filter (fun s => s.key = k) = [r] := by
  have hnodup : ((inForceRows T t).filter fun s => s.key = k).Nodup :=
    ((List.Nodup.of_map _ hT).filter _).filter _
  have hmem : ∀ s, s ∈ (inForceRows T t).filter (fun s => s.key = k) ↔ s ∈ [r] := by
    intro s
    rw [List.mem_filter, decide_eq_true_eq, mem_inForceRows, List.mem_singleton]
    constructor
    · intro ⟨⟨_, hs⟩, hk⟩
      rw [hk] at hs
      exact hs.unique (identified_history hT k) hr
    · intro hs
      have hk : r.key = k := hr.1.2
      rw [hs, hk]
      exact ⟨⟨hr.1.1, hr⟩, rfl⟩
  have hperm := (List.perm_ext_iff_of_nodup hnodup (List.nodup_singleton r)).mpr hmem
  exact List.perm_singleton.mp hperm

/-- Reading one key at an instant gives the version in force. -/
theorem map_row_asOf_key (hT : Identified T)
    (hr : Bitemporal.InForce Row.knownAt (history T k) t r) :
    ((asOf t (versions T)).filter fun v => v.key = k).map Version.row = [stgRow r] := by
  have h := ((asOf_perm hT t).filter fun v => v.key = k).map Version.row
  have hkey : ((fun v : Version => decide (v.key = k)) ∘ versionOf T) = fun s => decide (s.key = k) :=
    rfl
  rw [List.filter_map, hkey, filter_inForceRows hT hr] at h
  exact List.perm_singleton.mp h

/-- A key without a version by the instant reads as nothing. -/
theorem asOf_key_eq_nil (hT : Identified T) (hk : ∀ s ∈ T, s.key = k → t < s.knownAt) :
    (asOf t (versions T)).filter (fun v => v.key = k) = [] := by
  rw [List.filter_eq_nil_iff]
  intro v hv
  rcases List.mem_map.mp ((asOf_perm hT t).mem_iff.mp hv) with ⟨s, hs, rfl⟩
  rw [mem_inForceRows] at hs
  rw [decide_eq_true_eq]
  intro hkey
  have hlate := hk s hs.1 hkey
  have hknown := hs.2.2.1
  omega

/-- The bronze columns of the as-of read of one key. -/
def asOfKey (T : List Row) (t : Int) (k : SeriesKey) : List Row :=
  ((asOf t (versions T)).filter fun v => v.key = k).map fun v => v.row.toRow

theorem asOfKey_perm (hT : Identified T) (t : Int) (k : SeriesKey) :
    (asOfKey T t k).Perm (partition Row.key k (inForceRows T t)) := by
  have h := ((asOf_perm hT t).filter fun v => v.key = k).map fun v => v.row.toRow
  rw [List.filter_map, List.map_map] at h
  have hid : (fun v : Version => v.row.toRow) ∘ versionOf T = id := rfl
  rw [hid, List.map_id] at h
  exact h

theorem asOfKey_of_inForce (hT : Identified T)
    (hr : Bitemporal.InForce Row.knownAt (history T k) t r) : asOfKey T t k = [r] := by
  have h := congrArg (List.map StgRow.toRow) (map_row_asOf_key hT hr)
  rw [List.map_map] at h
  exact h

theorem asOfKey_eq_nil (hT : Identified T)
    (h : ∀ r, ¬ Bitemporal.InForce Row.knownAt (history T k) t r) : asOfKey T t k = [] := by
  rw [asOfKey, asOf_key_eq_nil hT, List.map_nil]
  intro s hs hk
  by_contra hlt
  rcases Bitemporal.exists_inForce (finite_history T k) ⟨hs, hk⟩ (not_lt.mp hlt) with ⟨r, hr⟩
  exact h r hr

/-- The as-of read of a key is its newest row among those known by then. -/
theorem asOfKey_eq_newestHeld (hT : Identified T) (t : Int) (k : SeriesKey) :
    asOfKey T t k = (newestHeld (T.filter fun r => r.knownAt ≤ t) k).toList := by
  have hknown : history (T.filter fun r => r.knownAt ≤ t) k
      = {w | w ∈ history T k ∧ w.knownAt ≤ t} := by
    ext w
    simp only [mem_history, List.mem_filter, decide_eq_true_eq, Set.mem_ofPred_eq]
    tauto
  cases h : newestHeld (T.filter fun r => r.knownAt ≤ t) k with
  | none =>
      rw [newestHeld_eq_none_iff, hknown] at h
      apply asOfKey_eq_nil hT
      intro r hr
      have hmem : r ∈ {w | w ∈ history T k ∧ w.knownAt ≤ t} := ⟨hr.1, hr.2.1⟩
      rw [h] at hmem
      exact hmem
  | some r =>
      rw [newestHeld_eq_some_iff (identified_filter hT _), hknown] at h
      exact asOfKey_of_inForce hT (Bitemporal.inForce_iff_newest.mpr h)

/-- Two tables show the same of a key at every instant exactly when its two
histories agree. -/
theorem asOfKey_eq_iff_agrees {β : Type} {S : List Row} (f : Row → β) (hT : Identified T)
    (hS : Identified S) :
    (∀ t, (asOfKey T t k).map f = (asOfKey S t k).map f) ↔
      Bitemporal.Agrees Row.knownAt f (history T k) (history S k) := by
  have hread : ∀ {U : List Row}, Identified U → ∀ t b, b ∈ (asOfKey U t k).map f ↔
      ∃ v, Bitemporal.InForce Row.knownAt (history U k) t v ∧ f v = b := by
    intro U hU t b
    by_cases hex : ∃ v, Bitemporal.InForce Row.knownAt (history U k) t v
    · rcases hex with ⟨v, hv⟩
      rw [asOfKey_of_inForce hU hv, List.map_singleton, List.mem_singleton]
      constructor
      · intro hb
        exact ⟨v, hv, hb.symm⟩
      · intro ⟨w, hw, hb⟩
        rw [← hb, hw.unique (identified_history hU k) hv]
    · rw [asOfKey_eq_nil hU (not_exists.mp hex), List.map_nil]
      simp only [List.not_mem_nil, false_iff, not_exists, not_and]
      exact fun v hv => absurd ⟨v, hv⟩ hex
  have hshape : ∀ {U : List Row}, Identified U → ∀ t,
      asOfKey U t k = [] ∨ ∃ v, asOfKey U t k = [v] := by
    intro U hU t
    by_cases hex : ∃ v, Bitemporal.InForce Row.knownAt (history U k) t v
    · rcases hex with ⟨v, hv⟩
      exact Or.inr ⟨v, asOfKey_of_inForce hU hv⟩
    · exact Or.inl (asOfKey_eq_nil hU (not_exists.mp hex))
  constructor
  · intro h t b
    rw [← hread hT, ← hread hS, h t]
  · intro h t
    have hmem : ∀ b, b ∈ (asOfKey T t k).map f ↔ b ∈ (asOfKey S t k).map f := by
      intro b
      rw [hread hT, hread hS]
      exact h t b
    -- lists of at most one element are determined by their members
    rcases hshape hT t with hT' | ⟨v, hT'⟩
    · rcases hshape hS t with hS' | ⟨w, hS'⟩
      · rw [hT', hS']
      · have hw := (hmem (f w)).mpr (by simp [hS'])
        simp [hT'] at hw
    · rcases hshape hS t with hS' | ⟨w, hS'⟩
      · have hv := (hmem (f v)).mp (by simp [hT'])
        simp [hS'] at hv
      · have hv := (hmem (f v)).mp (by simp [hT'])
        rw [hS', List.map_singleton, List.mem_singleton] at hv
        rw [hT', hS', List.map_singleton, List.map_singleton, hv]

/-- Current rows of a build cut to a window and to what was known by `t`,
against the rows in force at `t` inside that window. -/
theorem newestRows_selects (T : List Row) (t start stop : Int) :
    newestRows (T.filter (Restate.mk t start stop).selects)
      = (inForceRows T t).filter fun r => start ≤ r.validTime ∧ r.validTime < stop := by
  unfold newestRows inForceRows
  rw [List.filter_filter, List.filter_filter]
  apply List.filter_congr
  intro r _
  rw [Bool.eq_iff_iff]
  simp only [Restate.selects, List.mem_filter, Bool.and_eq_true, decide_eq_true_eq]
  constructor
  · intro ⟨hnew, ⟨hknown, hstart⟩, hstop⟩
    refine ⟨⟨hstart, hstop⟩, hknown, fun s hs hk hlt => ?_⟩
    -- a later version known by `t` would be selected with `r`
    by_contra hst
    have hvalid := Row.key_validTime hk
    have hle := hnew s ⟨hs, ⟨by omega, by omega⟩, by omega⟩ hk
    omega
  · intro ⟨⟨hstart, hstop⟩, hknown, hlater⟩
    refine ⟨fun s hs hk => ?_, ⟨hknown, hstart⟩, hstop⟩
    by_contra hlt
    have hafter := hlater s hs.1 hk (by omega)
    have hbefore := hs.2.1.1
    omega

end Exact

/-- The as-of read of each key is its version with the greatest `known_at` not
above the instant, and nothing for a key without one; every bronze row has one
version, none of them empty; and the current rows of a restated build are the
same read. -/
theorem asOf_exact {T : List Row} (hT : Identified T) (t : Int) :
    (∀ k, (∃ s ∈ T, s.key = k ∧ s.knownAt ≤ t) →
        ∃ r, Bitemporal.InForce Row.knownAt (history T k) t r ∧
          ((asOf t (versions T)).filter fun v => v.key = k).map Version.row = [stgRow r]) ∧
      (∀ k, (∀ s ∈ T, s.key = k → t < s.knownAt) →
        (asOf t (versions T)).filter (fun v => v.key = k) = []) ∧
      ((versions T).map Version.row).Perm (T.map stgRow) ∧
      (∀ v ∈ versions T, ∀ u, v.knownTo = some u → v.knownFrom < u) ∧
      ∀ start stop,
        ((generationCurrent (generationVersions
          (stgGeneration (some ⟨t, start, stop⟩) T))).map Version.row).Perm
          (((asOf t (versions T)).map Version.row).filter fun r =>
            start ≤ r.validTime ∧ r.validTime < stop) := by
  refine ⟨?_, ?_, map_row_versions_perm T, ?_, ?_⟩
  · -- a key known by `t` has one version in force
    intro k hk
    rcases hk with ⟨s, hs, hkey, hknown⟩
    rcases Bitemporal.exists_inForce (finite_history T k) ⟨hs, hkey⟩ hknown with ⟨r, hr⟩
    exact ⟨r, hr, map_row_asOf_key hT hr⟩
  · intro k hk
    exact asOf_key_eq_nil hT hk
  · intro v hv u hu
    exact knownFrom_lt_of_knownTo hT hv hu
  · -- rebuilding from the rows known by `t` leaves the newest of them current
    intro start stop
    have hcurrent := map_row_current_perm (identified_filter hT (Restate.mk t start stop).selects)
    rw [newestRows_selects] at hcurrent
    have hread := (map_row_asOf_perm hT t).filter fun r =>
      start ≤ r.validTime ∧ r.validTime < stop
    refine hcurrent.trans (List.Perm.trans ?_ hread.symm)
    rw [List.filter_map]
    exact List.Perm.refl _

/-- One revision of one period. -/
def revised : List Row := [nuclear 10 100, nuclear 20 200]

/-- The read at the very instant of the revision. -/
theorem asOf_exact_at_revision :
    (∀ k, (∃ s ∈ revised, s.key = k ∧ s.knownAt ≤ noonPlus 20) →
        ∃ r, Bitemporal.InForce Row.knownAt (history revised k) (noonPlus 20) r ∧
          ((asOf (noonPlus 20) (versions revised)).filter
            fun v => v.key = k).map Version.row = [stgRow r]) ∧
      (∀ k, (∀ s ∈ revised, s.key = k → noonPlus 20 < s.knownAt) →
        (asOf (noonPlus 20) (versions revised)).filter (fun v => v.key = k) = []) ∧
      ((versions revised).map Version.row).Perm (revised.map stgRow) ∧
      (∀ v ∈ versions revised, ∀ u, v.knownTo = some u → v.knownFrom < u) ∧
      ∀ start stop,
        ((generationCurrent (generationVersions
          (stgGeneration (some ⟨noonPlus 20, start, stop⟩) revised))).map Version.row).Perm
          (((asOf (noonPlus 20) (versions revised)).map Version.row).filter fun r =>
            start ≤ r.validTime ∧ r.validTime < stop) :=
  asOf_exact (by decide) (noonPlus 20)

end Gridlens
