import Gridlens.Sql.Query
import Mathlib.Algebra.BigOperators.Group.List.Lemmas

/-!
# Sums over groups

Grouping splits a table without losing a row or taking one twice, so the sums
of the groups add up to the sum of the table (`sum_groupBy`), and of a part of
it that is cut along the key (`sum_filter_groupBy`). A group that exists is not
empty, so where no summand is null no sum is (`sum_map_some`).
-/

namespace Sql

variable {α : Type*} {β : Type*} {γ : Type*} {κ : Type*} {σ : Type*} {M : Type*}

/-- A sum without nulls. -/
theorem sum_map_some {l : List α} (f : α → Int) (hl : l ≠ []) :
    sum (l.map fun a => some (f a)) = some (l.map f).sum := by
  have hvals : (l.map fun a => some (f a)).filterMap id = l.map f := by
    rw [List.filterMap_map]
    show l.filterMap (some ∘ f) = l.map f
    rw [List.filterMap_eq_map]
  unfold sum
  rw [hvals]
  cases l with
  | nil => exact absurd rfl hl
  | cons a l => rfl

/-- A sum sees the values that are not null. -/
theorem sum_congr {l l' : List (Option Int)} (h : l.filterMap id = l'.filterMap id) :
    sum l = sum l' := by
  unfold sum
  rw [h]

/-- A join in which every left row has one match. -/
theorem join_eq_map {on : σ → α → Bool} {S : List σ} {R : List α} {f : σ → α}
    (h : ∀ s ∈ S, R.filter (on s) = [f s]) : join on S R = S.map fun s => (s, f s) := by
  unfold join
  rw [List.map_eq_flatMap]
  apply List.flatMap_congr
  intro s hs
  rw [h s hs]
  rfl

section GroupBy

variable [DecidableEq κ] {key : α → κ} {agg agg' : List α → β} {T : List α}

/-- Each key has one group. -/
theorem groupBy_keys_nodup : ((groupBy key agg T).map Prod.fst).Nodup := by
  have hkeys : (groupBy key agg T).map Prod.fst = (T.map key).dedup := by
    unfold groupBy
    rw [List.map_map]
    exact List.map_id _
  rw [hkeys]
  exact List.nodup_dedup _

theorem groupBy_nodup : (groupBy key agg T).Nodup := List.Nodup.of_map _ groupBy_keys_nodup

/-- The group of a key that occurs. -/
theorem filter_groupBy {k : κ} (hk : ∃ r ∈ T, key r = k) :
    (groupBy key agg T).filter (fun g => g.1 = k) = [(k, agg (partition key k T))] := by
  have hmem : ∀ g, g ∈ (groupBy key agg T).filter (fun g => g.1 = k) ↔
      g ∈ [(k, agg (partition key k T))] := by
    intro g
    rw [List.mem_filter, mem_groupBy, decide_eq_true_eq, List.mem_singleton]
    constructor
    · intro ⟨⟨_, hagg⟩, hg⟩
      rw [← hg, ← hagg]
    · intro hg
      rw [hg]
      exact ⟨⟨hk, rfl⟩, rfl⟩
  have hperm := (List.perm_ext_iff_of_nodup (groupBy_nodup.filter _) (List.nodup_singleton _)).mpr hmem
  exact List.perm_singleton.mp hperm

/-- Aggregates that agree on the groups give the same table. -/
theorem groupBy_congr (h : ∀ k, (∃ r ∈ T, key r = k) →
    agg (partition key k T) = agg' (partition key k T)) : groupBy key agg T = groupBy key agg' T := by
  unfold groupBy
  apply List.map_congr_left
  intro k hk
  rw [List.mem_dedup, List.mem_map] at hk
  rw [h k hk]

theorem partition_ne_nil {k : κ} (hk : ∃ r ∈ T, key r = k) : partition key k T ≠ [] := by
  rcases hk with ⟨r, hr, hkey⟩
  exact List.ne_nil_of_mem (mem_partition.mpr ⟨hr, hkey⟩)

theorem groupBy_eq_nil_iff : groupBy key agg T = [] ↔ T = [] := by
  unfold groupBy
  rw [List.map_eq_nil_iff, List.dedup_eq_nil, List.map_eq_nil_iff]

/-- There are groups with a property of the key where there are rows with it. -/
theorem filter_groupBy_eq_nil_iff (p : κ → Bool) :
    (groupBy key agg T).filter (fun g => p g.1) = [] ↔ T.filter (fun r => p (key r)) = [] := by
  have hcut : (groupBy key agg (T.filter fun r => p (key r))).Perm
      ((groupBy key agg T).filter fun g => p g.1) := groupBy_filter_perm p T
  rw [← List.length_eq_zero_iff, ← hcut.length_eq, List.length_eq_zero_iff, groupBy_eq_nil_iff]

variable [AddCommMonoid M]

/-- The sums of the groups add up to the sum of the table. -/
theorem sum_groupBy (f : α → M) :
    ((groupBy key (fun rows => (rows.map f).sum) T).map Prod.snd).sum = (T.map f).sum := by
  have hparts : (groupBy key (fun rows => (rows.map f).sum) T).map Prod.snd
      = (partitions key T).map fun rows => (rows.map f).sum := by
    unfold groupBy partitions
    rw [List.map_map, List.map_map]
    rfl
  have hsame : (partitions key T).flatten.Perm T := partitions_flatten_perm
  rw [hparts, ← (hsame.map f).sum_eq, List.map_flatten, List.sum_flatten, List.map_map]
  rfl

/-- And so do the sums of the groups with some property of the key, to the sum
of the rows with that property. -/
theorem sum_filter_groupBy (p : κ → Bool) (f : α → M) :
    (((groupBy key (fun rows => (rows.map f).sum) T).filter fun g => p g.1).map Prod.snd).sum
      = ((T.filter fun r => p (key r)).map f).sum := by
  have hcut : ((groupBy key (fun rows => (rows.map f).sum) (T.filter fun r => p (key r))).map
      Prod.snd).sum = ((T.filter fun r => p (key r)).map f).sum := sum_groupBy f
  rw [← hcut]
  exact ((groupBy_filter_perm p T).map Prod.snd).sum_eq.symm

end GroupBy

end Sql
