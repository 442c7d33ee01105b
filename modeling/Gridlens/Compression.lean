import Gridlens.AsOf
import Gridlens.Gold

/-!
# Bronze as the compression of what was fetched

Runs whose stamps increase. The newest version held of a key then always shows
what the last observation of that key showed, whether or not that observation
was itself inserted, so the merge keeps exactly the observations that differ
from the one before (`versionsOf_land`).

Whether gold can tell the compressed table from one that kept everything
depends on what the comparison leaves out: `gold_blind_iff` says when it
cannot, and `resolution_change_lost` is the case where it can.
-/

namespace Gridlens

open Sql Bitemporal

/-- Stamps increase from run to run. -/
abbrev Increasing (runs : List Run) : Prop := runs.Pairwise fun R R' => R.knownAt < R'.knownAt

/-- The versions of one key, ordered by `known_at`. -/
def versionsOf (T : List Row) (k : SeriesKey) : List Row :=
  (partition Row.key k T).insertionSort fun a b => a.knownAt ≤ b.knownAt

section Compression

variable {runs : List Run} {k : SeriesKey}

/-- The observations of a key come in the order of their stamps. -/
theorem pairwise_observed (h : Increasing runs) (k : SeriesKey) :
    (observed runs k).Pairwise fun a b => a.knownAt < b.knownAt := by
  unfold observed
  rw [List.pairwise_filterMap]
  refine h.imp fun {R R'} hlt => ?_
  intro a ha b hb
  rw [Run.row?_eq_some] at ha hb
  rw [R.stamped a ha.1, R'.stamped b hb.1]
  exact hlt

/-- What a key holds after the runs, in table order: the changes of what was
observed. -/
theorem partition_land (h : Increasing runs) (k : SeriesKey) :
    partition Row.key k (land [] runs) = changes Row.value (observed runs k) := by
  induction runs using List.reverseRecOn with
  | nil => rfl
  | append_singleton runs R ih =>
      rcases List.pairwise_append.mp h with ⟨hruns, -, hlast⟩
      have hih := ih hruns
      rw [land_concat, partition_apply, observed_concat, hih]
      cases hrow : R.row? k with
      | none => simp
      | some s =>
          have hs := Run.row?_eq_some.mp hrow
          have hheld : ¬ Held (land [] runs) s := by
            apply not_held_of_fresh
            intro R' hR'
            rw [R.stamped s hs.1]
            exact (hlast R' hR' R (List.mem_singleton_self R)).ne
          -- the invariant: the newest version shows what was last observed
          have hnewest : Unchanged (land [] runs) s ↔
              (observed runs k).getLast?.map Row.value = some s.value := by
            have hsorted : (partition Row.key k (land [] runs)).Pairwise
                fun a b => a.knownAt < b.knownAt := by
              rw [hih]
              exact (pairwise_observed hruns k).sublist (changes_sublist _ _)
            rw [Unchanged, hs.2, newestHeld_eq_getLast? (identified_land identified_nil runs) hsorted,
              hih, getLast?_changes]
          rw [Option.toList_some, changes_concat]
          congr 1
          by_cases hrep : (observed runs k).getLast?.map Row.value = some s.value
          · rw [if_pos hrep, List.filter_cons_of_neg, List.filter_nil]
            rw [decide_eq_true_eq]
            exact fun hnew => hnew.1 (hnewest.mpr hrep)
          · rw [if_neg hrep, List.filter_cons_of_pos, List.filter_nil]
            rw [decide_eq_true_eq]
            exact ⟨fun hunchanged => hrep (hnewest.mp hunchanged), hheld⟩

/-- The newest version held of a key is the last change of what was observed. -/
theorem newestHeld_land (h : Increasing runs) (k : SeriesKey) :
    newestHeld (land [] runs) k = (changes Row.value (observed runs k)).getLast? := by
  have hpart := partition_land h k
  have hsorted : (partition Row.key k (land [] runs)).Pairwise
      fun a b => a.knownAt < b.knownAt := by
    rw [hpart]
    exact (pairwise_observed h k).sublist (changes_sublist _ _)
  rw [newestHeld_eq_getLast? (identified_land identified_nil runs) hsorted, hpart]

end Compression

/-- Bronze is the run-length compression of what was fetched: the versions of
a key are its observations that differ from the one before, in order, and no
two consecutive ones show the same. -/
theorem versionsOf_land {runs : List Run} (h : Increasing runs) (k : SeriesKey) :
    versionsOf (land [] runs) k = changes Row.value (observed runs k) ∧
      (versionsOf (land [] runs) k).Pairwise (fun a b => a.knownAt < b.knownAt) ∧
      (versionsOf (land [] runs) k).IsChain fun a b => a.value ≠ b.value := by
  have hsorted : (changes Row.value (observed runs k)).Pairwise
      fun a b => a.knownAt < b.knownAt :=
    (pairwise_observed h k).sublist (changes_sublist _ _)
  have heq : versionsOf (land [] runs) k = changes Row.value (observed runs k) := by
    rw [versionsOf, partition_land h]
    exact (hsorted.imp fun hlt => hlt.le).insertionSort_eq
  rw [heq]
  exact ⟨rfl, hsorted, isChain_changes _ _⟩

/-- A value fetched three times and then revised. -/
theorem versionsOf_land_revised :
    versionsOf (land [] ([nuclear 1 100, nuclear 2 100, nuclear 3 200].map Run.single))
        (nuclear 1 100).key
        = changes Row.value (observed ([nuclear 1 100, nuclear 2 100, nuclear 3 200].map Run.single)
          (nuclear 1 100).key) ∧
      (versionsOf (land [] ([nuclear 1 100, nuclear 2 100, nuclear 3 200].map Run.single))
        (nuclear 1 100).key).Pairwise (fun a b => a.knownAt < b.knownAt) ∧
      (versionsOf (land [] ([nuclear 1 100, nuclear 2 100, nuclear 3 200].map Run.single))
        (nuclear 1 100).key).IsChain fun a b => a.value ≠ b.value :=
  versionsOf_land (by decide) _

/-! ## What gold can see of it -/

/-- `period_generation_net`, as of an instant. -/
def netAsOf (T : List Row) (t : Int) : List NetRow := periodGenerationNet (asOf t (versions T))

/-- `daily_generation_mix`, as of an instant. -/
def mixAsOf {δ : Type} (quotient : Int → Int → δ) (T : List Row) (t : Int) : List (MixRow δ) :=
  dailyGenerationMix quotient (netAsOf T t)

section Gold

variable {T S : List Row} {t : Int}

theorem map_content_asOf_perm (hT : Identified T) (t : Int) :
    ((asOf t (versions T)).map fun v => v.row.content).Perm
      (((inForceRows T t).map Row.content).map stgRow) := by
  have h := (map_row_asOf_perm hT t).map StgRow.content
  rw [List.map_map, List.map_map] at h
  rw [List.map_map]
  exact h

/-- Tables that read the same at `t`, key by key, give gold the same rows. -/
theorem netAsOf_perm (hT : Identified T) (hS : Identified S)
    (h : ∀ k, (asOfKey T t k).map Row.content = (asOfKey S t k).map Row.content) :
    (netAsOf T t).Perm (netAsOf S t) := by
  have hpart : ∀ {U : List Row}, Identified U → ∀ k,
      (partition Row.key k ((inForceRows U t).map Row.content)).Perm
        ((asOfKey U t k).map Row.content) := by
    intro U hU k
    have hmap : partition Row.key k ((inForceRows U t).map Row.content)
        = (partition Row.key k (inForceRows U t)).map Row.content := List.filter_map
    rw [hmap]
    exact ((asOfKey_perm hU t k).map _).symm
  have hparts : ∀ k, (partition Row.key k ((inForceRows T t).map Row.content)).Perm
      (partition Row.key k ((inForceRows S t).map Row.content)) := by
    intro k
    refine (hpart hT k).trans ?_
    rw [h k]
    exact (hpart hS k).symm
  have hrows := perm_of_partition_perm hparts
  apply periodGenerationNet_congr
  refine (map_content_asOf_perm hT t).trans ?_
  exact (hrows.map stgRow).trans (map_content_asOf_perm hS t).symm

end Gold

/-- Two rows of one key that show the same value have the same content exactly
when they have the same resolution and unit. -/
theorem Row.content_eq_iff {a b : Row} (hk : a.key = b.key) (hv : a.value = b.value) :
    a.content = b.content ↔ a.resolutionMinutes = b.resolutionMinutes ∧ a.unit = b.unit := by
  simp only [Row.key, SeriesKey.mk.injEq] at hk
  simp only [Row.value, Prod.mk.injEq] at hv
  simp [Row.content, hk, hv, and_comm]

/-- The deduplicated table and the one that kept every staged row read the
same at every instant, gold included, exactly when every observation that
repeats the value before it also repeats its resolution and unit. -/
theorem gold_blind_iff {runs : List Run} (h : Increasing runs) {δ : Type}
    (quotient : Int → Int → δ) :
    (∀ t, (∀ k, (asOfKey (land [] runs) t k).map Row.content
          = (asOfKey (staged runs) t k).map Row.content) ∧
        (netAsOf (land [] runs) t).Perm (netAsOf (staged runs) t) ∧
        (mixAsOf quotient (land [] runs) t).Perm (mixAsOf quotient (staged runs) t)) ↔
      ∀ k, (observed runs k).IsChain fun a b =>
        a.value = b.value → a.resolutionMinutes = b.resolutionMinutes ∧ a.unit = b.unit := by
  have hland := identified_land identified_nil runs
  have hstaged : Identified (staged runs) := identified_staged (h.imp fun hlt => hlt.ne)
  -- key by key, one table holds the observations and the other their changes
  have hchain : ∀ k, (∀ t, (asOfKey (land [] runs) t k).map Row.content
        = (asOfKey (staged runs) t k).map Row.content) ↔
      (observed runs k).IsChain fun a b =>
        a.value = b.value → a.resolutionMinutes = b.resolutionMinutes ∧ a.unit = b.unit := by
    intro k
    have hheld : history (land [] runs) k = {v | v ∈ changes Row.value (observed runs k)} := by
      ext v
      rw [Set.mem_ofPred_eq, ← partition_land h, mem_partition]
      exact Iff.rfl
    rw [asOfKey_eq_iff_agrees Row.content hland hstaged, history_staged, hheld,
      agrees_changes_iff (pairwise_observed h k)]
    apply List.IsChain.iff_of_mem_imp
    intro a b ha hb
    have hkey : a.key = b.key := by
      rcases mem_observed.mp ha with ⟨R, -, hR⟩
      rcases mem_observed.mp hb with ⟨R', -, hR'⟩
      exact (Run.row?_eq_some.mp hR).2.trans (Run.row?_eq_some.mp hR').2.symm
    exact forall_congr' fun hv => Row.content_eq_iff hkey hv
  constructor
  · intro hread k
    exact (hchain k).mp fun t => (hread t).1 k
  · intro hobs t
    have hkeys := fun k => (hchain k).mpr (hobs k) t
    have hnet := netAsOf_perm hland hstaged hkeys
    exact ⟨hkeys, hnet, dailyGenerationMix_perm quotient hnet⟩

/-- The same quarter hour, re-published as a whole hour. -/
def republished : List Run :=
  [Run.single (nuclear 1 100), Run.single { nuclear 2 100 with resolutionMinutes := 60 }]

theorem gold_blind_iff_republished :
    (∀ t, (∀ k, (asOfKey (land [] republished) t k).map Row.content
          = (asOfKey (staged republished) t k).map Row.content) ∧
        (netAsOf (land [] republished) t).Perm (netAsOf (staged republished) t) ∧
        (mixAsOf Prod.mk (land [] republished) t).Perm (mixAsOf Prod.mk (staged republished) t)) ↔
      ∀ k, (observed republished k).IsChain fun a b =>
        a.value = b.value → a.resolutionMinutes = b.resolutionMinutes ∧ a.unit = b.unit :=
  gold_blind_iff (by decide) Prod.mk

/-- The new length is dropped with the unchanged value: bronze keeps the
quarter hour, and the energy of the period comes out a quarter of what was
published. -/
theorem resolution_change_lost :
    Increasing republished ∧
      (asOfKey (land [] republished) (noonPlus 2) (nuclear 1 100).key).map Row.resolutionMinutes = [15] ∧
      (asOfKey (staged republished) (noonPlus 2) (nuclear 1 100).key).map Row.resolutionMinutes = [60] ∧
      (mixAsOf Prod.mk (land [] republished) (noonPlus 2)).map MixRow.energyMwh = [some 25000000] ∧
      (mixAsOf Prod.mk (staged republished) (noonPlus 2)).map MixRow.energyMwh = [some 100000000] := by
  refine ⟨by decide, ?_, ?_, ?_, ?_⟩
  all_goals decide +kernel

end Gridlens
