import Gridlens.Sql.Query
import Gridlens.Sql.Window

/-!
# One row to a key

What a query with `HAVING count(*) > 1` finds, and what `lead` says of rows
that share a key, ties included.

* `repeated_eq_nil_iff`: nothing is found exactly if no two rows share a key.
* `pairwise_leadOver`: of two rows of a key, the one `lead` puts first ends at
  the other's order value or before.
-/

namespace Sql

variable {α : Type*} {κ : Type*} {τ : Type*}

/-! ## `HAVING count(*) > 1` -/

/-- `SELECT key, count(*) .. GROUP BY key HAVING count(*) > 1`. -/
def repeated [DecidableEq κ] (key : α → κ) (T : List α) : List (κ × Nat) :=
  (groupBy key List.length T).filter fun g => 1 < g.2

section Repeated

variable [DecidableEq κ] {key : α → κ} {T : List α}

theorem count_map_key (k : κ) : (T.map key).count k = (partition key k T).length := by
  unfold partition
  rw [List.count_eq_countP, List.countP_map, List.countP_eq_length_filter]
  rfl

theorem repeated_eq_nil_iff : repeated key T = [] ↔ (T.map key).Nodup := by
  unfold repeated
  rw [List.filter_eq_nil_iff, List.nodup_iff_count_le_one]
  constructor
  · intro h k
    by_cases hk : ∃ r ∈ T, key r = k
    · have hgroup := h (k, (partition key k T).length) (mem_groupBy.mpr ⟨hk, rfl⟩)
      rw [decide_eq_true_eq, not_lt] at hgroup
      rw [count_map_key]
      exact hgroup
    · have hnone : k ∉ T.map key := fun hmem => hk (List.mem_map.mp hmem)
      rw [List.count_eq_zero_of_not_mem hnone]
      exact Nat.zero_le 1
  · intro h g hg
    rw [decide_eq_true_eq, not_lt, (mem_groupBy.mp hg).2, ← count_map_key]
    exact h g.1

end Repeated

/-! ## `count(DISTINCT ..)` -/

/-- What is among more values is no more. -/
theorem countDistinct_le [DecidableEq α] {l l' : List α} (h : l ⊆ l') :
    countDistinct l ≤ countDistinct l' := by
  unfold countDistinct
  refine (List.subperm_of_subset (List.nodup_dedup l) fun a ha => ?_).length_le
  rw [List.mem_dedup] at ha ⊢
  exact h ha

/-! ## `lead` with ties -/

section Ties

variable [LinearOrder τ] {ord : α → τ} {l : List α}

/-- The row before another one of an ordered partition ends where that begins,
or earlier. -/
theorem pairwise_lead (hl : l.Pairwise fun a b => ord a ≤ ord b) :
    (lead ord l).Pairwise fun x y => ∃ n, x.2 = some n ∧ n ≤ ord y.1 := by
  induction l with
  | nil => exact List.Pairwise.nil
  | cons a l ih =>
      cases l with
      | nil => exact List.pairwise_singleton _ _
      | cons b l =>
          rw [lead, List.pairwise_cons]
          rw [List.pairwise_cons] at hl
          refine ⟨fun y hy => ⟨ord b, rfl, ?_⟩, ih hl.2⟩
          have hmem : y.1 ∈ b :: l := by
            have hfst := List.mem_map_of_mem (f := Prod.fst) hy
            rw [map_fst_lead] at hfst
            exact hfst
          rcases List.mem_cons.mp hmem with heq | hlater
          · rw [heq]
          · exact (List.pairwise_cons.mp hl.2).1 y.1 hlater

/-- The same over a table: of two rows of one key. -/
theorem pairwise_leadOver [DecidableEq κ] {key : α → κ} (T : List α) :
    (leadOver key ord T).Pairwise fun x y =>
      key x.1 = key y.1 → ∃ n, x.2 = some n ∧ n ≤ ord y.1 := by
  unfold leadOver partitions
  rw [List.flatMap_map, List.pairwise_flatMap]
  constructor
  · intro k _
    have hsorted : ((partition key k T).insertionSort fun a b => ord a ≤ ord b).Pairwise
        fun a b => ord a ≤ ord b := List.pairwise_insertionSort _ _
    refine (pairwise_lead hsorted).imp ?_
    intro x y h _
    exact h
  · refine (List.nodup_dedup (T.map key)).imp ?_
    intro k k' hne x hx y hy hkey
    rw [key_of_mem_lead hx, key_of_mem_lead hy] at hkey
    exact absurd hkey hne

end Ties

end Sql
