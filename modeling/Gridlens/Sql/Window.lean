import Mathlib.Data.List.Sort
import Mathlib.Data.List.Dedup
import Mathlib.Data.List.Nodup
import Mathlib.Data.List.Perm.Basic
import Mathlib.Order.MinMax

/-!
# Window functions over bags of rows

A table is a list of rows read as a bag: two tables hold the same rows when
one is a permutation of the other. `PARTITION BY` splits a table by a key,
`ORDER BY` sorts each partition, and a window function walks the sorted
partition. Rows that tie on the order keep their table order, so a result
that a database leaves open on ties shows here as a dependence on the list.

When no two rows agree on both the key and the order column, the window
function is determined: `leadOver_perm` gives `lead` row by row, and
`newest_eq_some_iff` gives the rows numbered one.
-/

namespace Sql

variable {α : Type*} {β : Type*} {κ : Type*} {τ : Type*}

/-! ## Partitions -/

/-- The rows of the partition named by `k`, in table order. -/
def partition [DecidableEq κ] (key : α → κ) (k : κ) (T : List α) : List α :=
  T.filter fun r => key r = k

/-- `PARTITION BY key`: one list of rows for each distinct key. -/
def partitions [DecidableEq κ] (key : α → κ) (T : List α) : List (List α) :=
  (T.map key).dedup.map fun k => partition key k T

/-- Flattening over a filtered list is flattening with nothing elsewhere. -/
theorem flatMap_filter (p : α → Bool) (f : α → List β) (l : List α) :
    (l.filter p).flatMap f = l.flatMap fun a => if p a then f a else [] := by
  induction l with
  | nil => rfl
  | cons a l ih =>
      by_cases ha : p a = true
      · simp [ha, ih]
      · simp [ha, ih]

section Partitions

variable [DecidableEq κ] {key : α → κ} {k : κ} {T : List α} {r : α}

@[simp] theorem mem_partition : r ∈ partition key k T ↔ r ∈ T ∧ key r = k := by
  simp [partition]

theorem partition_sublist : (partition key k T).Sublist T :=
  List.filter_sublist

theorem partition_append (S : List α) :
    partition key k (T ++ S) = partition key k T ++ partition key k S := by
  simp [partition]

/-- A filter that keeps the whole partition leaves it as it was. -/
theorem partition_filter (p : α → Bool) (h : ∀ r ∈ T, key r = k → p r = true) :
    partition key k (T.filter p) = partition key k T := by
  unfold partition
  rw [List.filter_filter]
  apply List.filter_congr
  intro r hr
  by_cases hk : key r = k
  · simp [hk, h r hr hk]
  · simp [hk]

/-- Keys that are listed once split the rows carrying them without loss. -/
theorem flatMap_partition_perm {ks : List κ} (hks : ks.Nodup) :
    (ks.flatMap fun k => partition key k T).Perm (T.filter fun r => key r ∈ ks) := by
  induction ks with
  | nil => simp
  | cons k ks ih =>
      have hk : k ∉ ks := (List.nodup_cons.mp hks).1
      -- the rows of `k`, then the rows of the keys that follow
      have hsplit := List.filter_append_perm (fun r => decide (key r = k))
        (T.filter fun r => key r ∈ k :: ks)
      have hhead : (T.filter fun r => key r ∈ k :: ks).filter (fun r => decide (key r = k))
          = partition key k T := by
        rw [List.filter_filter]
        apply List.filter_congr
        intro r _
        by_cases h : key r = k <;> simp [h]
      have htail : (T.filter fun r => key r ∈ k :: ks).filter (fun r => !decide (key r = k))
          = T.filter fun r => key r ∈ ks := by
        rw [List.filter_filter]
        apply List.filter_congr
        intro r _
        by_cases h : key r = k
        · simp [h, hk]
        · simp [h]
      rw [hhead, htail] at hsplit
      rw [List.flatMap_cons]
      exact ((ih (List.nodup_cons.mp hks).2).append_left _).trans hsplit

/-- The partitions of a table hold its rows, each as often as the table does. -/
theorem partitions_flatten_perm : (partitions key T).flatten.Perm T := by
  have h : ((T.map key).dedup.flatMap fun k => partition key k T).Perm
      (T.filter fun r => key r ∈ (T.map key).dedup) :=
    flatMap_partition_perm (List.nodup_dedup _)
  have hall : (T.filter fun r => key r ∈ (T.map key).dedup) = T := by
    apply List.filter_eq_self.mpr
    intro r hr
    simpa using ⟨r, hr, rfl⟩
  rw [hall] at h
  exact h

/-- Cutting a table by a property of the key cuts its distinct keys. -/
theorem dedup_keys_filter_perm (p : κ → Bool) (T : List α) :
    ((T.filter fun r => p (key r)).map key).dedup.Perm ((T.map key).dedup.filter p) := by
  refine (List.perm_ext_iff_of_nodup (List.nodup_dedup _) ((List.nodup_dedup _).filter _)).mpr ?_
  intro k
  simp only [List.mem_dedup, List.mem_map, List.mem_filter]
  constructor
  · intro ⟨r, ⟨hr, hp⟩, hk⟩
    exact ⟨⟨r, hr, hk⟩, hk ▸ hp⟩
  · intro ⟨⟨r, hr, hk⟩, hp⟩
    exact ⟨r, ⟨hr, hk ▸ hp⟩, hk⟩

/-- And leaves the partitions of those keys whole. -/
theorem partition_filter_key (p : κ → Bool) (hk : p k = true) :
    partition key k (T.filter fun r => p (key r)) = partition key k T := by
  apply partition_filter
  intro r _ hr
  rw [hr]
  exact hk

/-- Two tables hold the same rows when each of their partitions does. -/
theorem perm_of_partition_perm [DecidableEq α] {S : List α}
    (h : ∀ k, (partition key k S).Perm (partition key k T)) : S.Perm T := by
  rw [List.perm_iff_count]
  intro a
  have ha := (h (key a)).count_eq a
  unfold partition at ha
  rw [List.count_filter (by simp), List.count_filter (by simp)] at ha
  exact ha

theorem mem_partitions {p : List α} :
    p ∈ partitions key T ↔ ∃ r ∈ T, p = partition key (key r) T := by
  simp only [partitions, List.mem_map, List.mem_dedup]
  constructor
  · rintro ⟨_, ⟨r, hr, rfl⟩, rfl⟩
    exact ⟨r, hr, rfl⟩
  · rintro ⟨r, hr, rfl⟩
    exact ⟨key r, ⟨r, hr, rfl⟩, rfl⟩

end Partitions

/-! ## `lead` -/

/-- `lead(val)` along one ordered partition: each row with the value of the
next one, null after the last. -/
def lead (val : α → β) : List α → List (α × Option β)
  | [] => []
  | [a] => [(a, none)]
  | a :: b :: l => (a, some (val b)) :: lead val (b :: l)

/-- `lead(ord) OVER (PARTITION BY key ORDER BY ord)`. -/
def leadOver [DecidableEq κ] [LinearOrder τ] (key : α → κ) (ord : α → τ) (T : List α) :
    List (α × Option τ) :=
  (partitions key T).flatMap fun p => lead ord (p.insertionSort fun a b => ord a ≤ ord b)

/-- The least order value above a row's own among the rows of its key. -/
def successor [DecidableEq κ] [LinearOrder τ] (key : α → κ) (ord : α → τ) (T : List α) (r : α) :
    Option τ :=
  (((partition key (key r) T).filter fun s => ord r < ord s).map ord).min?

@[simp] theorem map_fst_lead (val : α → β) (l : List α) : (lead val l).map Prod.fst = l := by
  induction l with
  | nil => rfl
  | cons a l ih =>
      cases l with
      | nil => rfl
      | cons b l => simpa [lead] using ih

section Lead

variable [DecidableEq κ] [LinearOrder τ] {key : α → κ} {ord : α → τ} {T : List α}

/-- `lead` adds a column: whatever the order, it keeps every row once. -/
theorem map_fst_leadOver_perm : ((leadOver key ord T).map Prod.fst).Perm T := by
  have h : ((leadOver key ord T).map Prod.fst).Perm (partitions key T).flatten := by
    unfold leadOver
    rw [List.map_flatMap]
    simp only [map_fst_lead]
    rw [List.flatten_eq_flatMap]
    exact List.Perm.flatMap_left _ fun p _ => List.perm_insertionSort _ _
  exact h.trans partitions_flatten_perm

theorem successor_eq_none {r : α} :
    successor key ord T r = none ↔ ∀ s ∈ T, key s = key r → ord s ≤ ord r := by
  simp only [successor, List.min?_eq_none_iff, List.map_eq_nil_iff, List.filter_eq_nil_iff,
    mem_partition, decide_eq_true_eq, not_lt]
  exact ⟨fun h s hs hk => h s ⟨hs, hk⟩, fun h s hs => h s hs.1 hs.2⟩

theorem successor_eq_some {r : α} {v : τ} :
    successor key ord T r = some v ↔
      (∃ s ∈ T, key s = key r ∧ ord r < ord s ∧ ord s = v) ∧
        ∀ s ∈ T, key s = key r → ord r < ord s → v ≤ ord s := by
  have : Std.LawfulOrderMin τ :=
    .of_le_min_iff (fun _ _ _ => le_min_iff) (fun a b => (min_choice a b))
  rw [successor, List.min?_eq_some_iff]
  simp only [List.mem_map, List.mem_filter, mem_partition, decide_eq_true_eq]
  constructor
  · rintro ⟨⟨s, ⟨⟨hs, hk⟩, hlt⟩, rfl⟩, hle⟩
    exact ⟨⟨s, hs, hk, hlt, rfl⟩, fun s' hs' hk' hlt' => hle _ ⟨s', ⟨⟨hs', hk'⟩, hlt'⟩, rfl⟩⟩
  · rintro ⟨⟨s, hs, hk, hlt, rfl⟩, hle⟩
    refine ⟨⟨s, ⟨⟨hs, hk⟩, hlt⟩, rfl⟩, ?_⟩
    rintro _ ⟨s', ⟨⟨hs', hk'⟩, hlt'⟩, rfl⟩
    exact hle s' hs' hk' hlt'

/-- The successor is read off the rows of the key, whatever their order. -/
theorem successor_congr {S : List α} {r : α}
    (h : ∀ s, key s = key r → (s ∈ T ↔ s ∈ S)) : successor key ord T r = successor key ord S r := by
  cases hS : successor key ord S r with
  | none =>
      rw [successor_eq_none] at hS ⊢
      intro s hs hk
      exact hS s ((h s hk).mp hs) hk
  | some v =>
      rw [successor_eq_some] at hS ⊢
      obtain ⟨⟨s, hs, hk, hlt, hv⟩, hle⟩ := hS
      refine ⟨⟨s, (h s hk).mpr hs, hk, hlt, hv⟩, ?_⟩
      intro s' hs' hk' hlt'
      exact hle s' ((h s' hk').mp hs') hk' hlt'

/-- `t` falls before the successor exactly when no row of the key lies in
`(ord r, t]`. -/
theorem lt_successor_iff {r : α} {t : τ} :
    (∀ v, successor key ord T r = some v → t < v) ↔
      ∀ s ∈ T, key s = key r → ord r < ord s → t < ord s := by
  cases h : successor key ord T r with
  | none =>
      rw [successor_eq_none] at h
      simp only [reduceCtorEq, false_implies, implies_true, true_iff]
      intro s hs hk hlt
      exact absurd hlt (not_lt.mpr (h s hs hk))
  | some v =>
      rw [successor_eq_some] at h
      obtain ⟨⟨s, hs, hk, hlt, rfl⟩, hle⟩ := h
      constructor
      · intro ht s' hs' hk' hlt'
        exact lt_of_lt_of_le (ht _ rfl) (hle s' hs' hk' hlt')
      · rintro ht v hv
        cases hv
        exact ht s hs hk hlt

/-- Along a strictly ordered partition the next row is the successor. -/
theorem lead_eq_map_successor {l : List α} (hk : ∀ a ∈ l, ∀ b ∈ l, key a = key b)
    (hl : l.Pairwise fun a b => ord a < ord b) :
    lead ord l = l.map fun r => (r, successor key ord l r) := by
  induction l with
  | nil => rfl
  | cons a l ih =>
      obtain ⟨ha, hl'⟩ := List.pairwise_cons.mp hl
      have hk' : ∀ b ∈ l, ∀ c ∈ l, key b = key c := fun b hb c hc =>
        hk b (List.mem_cons_of_mem _ hb) c (List.mem_cons_of_mem _ hc)
      -- the head lies below every later row, so it is nobody's successor
      have htail : ∀ r ∈ l, successor key ord (a :: l) r = successor key ord l r := by
        intro r hr
        have hdrop : ∀ v, successor key ord (a :: l) r = some v ↔ successor key ord l r = some v := by
          intro v
          rw [successor_eq_some, successor_eq_some]
          constructor
          · rintro ⟨⟨s, hs, hks, hlt, hv⟩, hle⟩
            have hsl : s ∈ l := by
              rcases List.mem_cons.mp hs with rfl | hs
              · exact absurd hlt (not_lt.mpr (ha r hr).le)
              · exact hs
            exact ⟨⟨s, hsl, hks, hlt, hv⟩, fun s' hs' => hle s' (List.mem_cons_of_mem _ hs')⟩
          · rintro ⟨⟨s, hs, hks, hlt, hv⟩, hle⟩
            refine ⟨⟨s, List.mem_cons_of_mem _ hs, hks, hlt, hv⟩, ?_⟩
            intro s' hs' hks' hlt'
            rcases List.mem_cons.mp hs' with rfl | hs'
            · exact absurd hlt' (not_lt.mpr (ha r hr).le)
            · exact hle s' hs' hks' hlt'
        cases h : successor key ord l r with
        | some v => exact (hdrop v).mpr h
        | none =>
            cases h' : successor key ord (a :: l) r with
            | none => rfl
            | some v => rw [(hdrop v).mp h'] at h; cases h
      have hmap : (l.map fun r => (r, successor key ord (a :: l) r))
          = l.map fun r => (r, successor key ord l r) := by
        apply List.map_congr_left
        intro r hr
        rw [htail r hr]
      rw [List.map_cons, hmap]
      cases l with
      | nil =>
          have : successor key ord [a] a = none := by
            rw [successor_eq_none]
            intro s hs _
            rw [List.mem_singleton.mp hs]
          simp [lead, this]
      | cons b l =>
          have : successor key ord (a :: b :: l) a = some (ord b) := by
            rw [successor_eq_some]
            refine ⟨⟨b, by simp, hk b (by simp) a (by simp), ha b (by simp), rfl⟩, ?_⟩
            intro s hs _ hlt
            rcases List.mem_cons.mp hs with rfl | hs
            · exact absurd hlt (lt_irrefl _)
            · rcases List.mem_cons.mp hs with rfl | hs
              · exact le_refl _
              · exact ((List.pairwise_cons.mp hl').1 s hs).le
          rw [this, ← ih hk' hl']
          rfl

/-- Where no two rows share key and order, `lead` is the successor, row by
row. -/
theorem leadOver_perm (hT : (T.map fun r => (key r, ord r)).Nodup) :
    (leadOver key ord T).Perm (T.map fun r => (r, successor key ord T r)) := by
  -- one partition at a time: its rows in order, each with the row after it
  have hpart : ∀ p ∈ partitions key T,
      (lead ord (p.insertionSort fun a b => ord a ≤ ord b)).Perm
        (p.map fun r => (r, successor key ord T r)) := by
    intro p hp
    obtain ⟨r₀, -, rfl⟩ := mem_partitions.mp hp
    set k := key r₀
    set q := (partition key k T).insertionSort fun a b => ord a ≤ ord b with hq
    have hperm : q.Perm (partition key k T) := List.perm_insertionSort _ _
    have hmem : ∀ r, r ∈ q ↔ r ∈ T ∧ key r = k := fun r => by rw [hperm.mem_iff, mem_partition]
    have hkey : ∀ a ∈ q, ∀ b ∈ q, key a = key b := fun a ha b hb =>
      ((hmem a).mp ha).2.trans ((hmem b).mp hb).2.symm
    have hle : q.Pairwise fun a b => ord a ≤ ord b := by
      have : IsTrans α fun a b => ord a ≤ ord b := ⟨fun _ _ _ => le_trans⟩
      have : Std.Total fun a b : α => ord a ≤ ord b := ⟨fun a b => le_total (ord a) (ord b)⟩
      exact List.pairwise_insertionSort _ _
    have hne : q.Pairwise fun a b => ord a ≠ ord b := by
      have hsub : ((partition key k T).map fun r => (key r, ord r)).Nodup :=
        (partition_sublist.map _).nodup hT
      have hnd : (q.map fun r => (key r, ord r)).Nodup := (hperm.map _).nodup_iff.mpr hsub
      rw [List.Nodup, List.pairwise_map] at hnd
      exact hnd.imp_of_mem fun {a b} ha hb h he => h (Prod.ext (hkey a ha b hb) he)
    -- distinct key and order make the sorted order strict
    have hlt : q.Pairwise fun a b => ord a < ord b :=
      (hle.and hne).imp fun h => lt_of_le_of_ne h.1 h.2
    -- rows of other keys never come next
    have hsucc : ∀ r ∈ q, successor key ord q r = successor key ord T r := by
      intro r hr
      apply successor_congr
      intro s hs
      rw [hmem s]
      exact ⟨fun h => h.1, fun h => ⟨h, hs.trans ((hmem r).mp hr).2⟩⟩
    rw [lead_eq_map_successor hkey hlt, List.map_congr_left fun r hr => by rw [hsucc r hr]]
    exact hperm.map _
  unfold leadOver
  refine (List.Perm.flatMap_left _ hpart).trans ?_
  rw [← List.map_flatMap, List.flatMap_id']
  exact partitions_flatten_perm.map _

/-- Every row of a partition keeps the key of the partition. -/
theorem key_of_mem_lead {k : κ} {x : α × Option τ}
    (hx : x ∈ lead ord ((partition key k T).insertionSort fun a b => ord a ≤ ord b)) :
    key x.1 = k := by
  have hmem : x.1 ∈ (partition key k T).insertionSort fun a b => ord a ≤ ord b := by
    have hfst := @List.mem_map_of_mem _ _ _ _ Prod.fst hx
    rw [map_fst_lead] at hfst
    exact hfst
  rw [(List.perm_insertionSort (fun a b : α => ord a ≤ ord b) _).mem_iff] at hmem
  exact (mem_partition.mp hmem).2

/-- A cut by a property of the key can be made before or after `lead`. -/
theorem leadOver_filter_perm (p : κ → Bool) (T : List α) :
    (leadOver key ord (T.filter fun r => p (key r))).Perm
      ((leadOver key ord T).filter fun x => p (key x.1)) := by
  have hafter : (leadOver key ord T).filter (fun x => p (key x.1)) =
      ((T.map key).dedup.filter p).flatMap fun k =>
        lead ord ((partition key k T).insertionSort fun a b => ord a ≤ ord b) := by
    unfold leadOver partitions
    rw [List.flatMap_map, List.filter_flatMap, flatMap_filter]
    congr 1
    funext k
    -- a partition is kept or dropped as a whole
    by_cases hk : p k = true
    · rw [if_pos hk, List.filter_eq_self.mpr]
      intro x hx
      rw [key_of_mem_lead hx]
      exact hk
    · rw [if_neg hk, List.filter_eq_nil_iff.mpr]
      intro x hx
      rw [key_of_mem_lead hx]
      exact hk
  rw [hafter]
  unfold leadOver partitions
  rw [List.flatMap_map]
  refine ((dedup_keys_filter_perm p T).flatMap_right _).trans (List.Perm.of_eq ?_)
  apply List.flatMap_congr
  intro k hk
  rw [partition_filter_key p (List.mem_filter.mp hk).2]

end Lead

/-! ## `row_number`, newest first -/

/-- `row_number() OVER (PARTITION BY key ORDER BY ord DESC)`. -/
def rowNumberDescOver [DecidableEq κ] [LinearOrder τ] (key : α → κ) (ord : α → τ) (T : List α) :
    List (α × Nat) :=
  (partitions key T).flatMap fun p => (p.insertionSort fun a b => ord b ≤ ord a).zipIdx 1

/-- The row a descending `row_number` gives the number one in the partition of
`k`. -/
def newest [DecidableEq κ] [LinearOrder τ] (key : α → κ) (ord : α → τ) (T : List α) (k : κ) :
    Option α :=
  ((partition key k T).insertionSort fun a b => ord b ≤ ord a).head?

section Newest

variable [DecidableEq κ] [LinearOrder τ] {key : α → κ} {ord : α → τ} {T : List α} {k : κ} {r : α}

theorem newest_eq_none : newest key ord T k = none ↔ ∀ r ∈ T, key r ≠ k := by
  have hperm := List.perm_insertionSort (fun a b : α => ord b ≤ ord a) (partition key k T)
  rw [newest, List.head?_eq_none_iff, ← List.length_eq_zero_iff, hperm.length_eq,
    List.length_eq_zero_iff, partition, List.filter_eq_nil_iff]
  simp

/-- The newest row is a row of the key, and none of that key is newer. -/
theorem newest_spec (h : newest key ord T k = some r) :
    (r ∈ T ∧ key r = k) ∧ ∀ s ∈ T, key s = k → ord s ≤ ord r := by
  have hperm := List.perm_insertionSort (fun a b : α => ord b ≤ ord a) (partition key k T)
  have hsort : ((partition key k T).insertionSort fun a b => ord b ≤ ord a).Pairwise
      fun a b => ord b ≤ ord a := by
    have : IsTrans α fun a b => ord b ≤ ord a := ⟨fun _ _ _ hab hbc => le_trans hbc hab⟩
    have : Std.Total fun a b : α => ord b ≤ ord a := ⟨fun a b => le_total (ord b) (ord a)⟩
    exact List.pairwise_insertionSort _ _
  rw [newest, List.head?_eq_some_iff] at h
  obtain ⟨l, hl⟩ := h
  rw [hl] at hperm hsort
  have hmem : ∀ s, s ∈ r :: l ↔ s ∈ T ∧ key s = k := fun s => by
    rw [hperm.mem_iff, mem_partition]
  refine ⟨(hmem r).mp List.mem_cons_self, fun s hs hk => ?_⟩
  rcases List.mem_cons.mp ((hmem s).mpr ⟨hs, hk⟩) with rfl | hs'
  · exact le_refl _
  · exact (List.pairwise_cons.mp hsort).1 s hs'

/-- Where no two rows share key and order, a row above all others of its key
is the newest. -/
theorem newest_eq_some_iff (hT : (T.map fun r => (key r, ord r)).Nodup) :
    newest key ord T k = some r ↔
      (r ∈ T ∧ key r = k) ∧ ∀ s ∈ T, key s = k → ord s ≤ ord r := by
  constructor
  · exact newest_spec
  · rintro ⟨⟨hr, hk⟩, hmax⟩
    cases h : newest key ord T k with
    | none => exact absurd hk (newest_eq_none.mp h r hr)
    | some r' =>
        obtain ⟨⟨hr', hk'⟩, hmax'⟩ := newest_spec h
        have hord : ord r' = ord r := le_antisymm (hmax r' hr' hk') (hmax' r hr hk)
        have : r' = r := List.inj_on_of_nodup_map hT hr' hr (by rw [hk, hk', hord])
        rw [this]

omit [LinearOrder τ] in
/-- Numbering a list from one gives the number one to its head alone. -/
theorem filter_zipIdx_one {l : List α} (hl : ∀ a ∈ l, key a = k) :
    (l.zipIdx 1).filter (fun x => x.2 = 1 ∧ key x.1 = k) = (l.head?.map fun a => (a, 1)).toList := by
  cases l with
  | nil => rfl
  | cons a l =>
      have hrest : (l.zipIdx 2).filter (fun x => x.2 = 1 ∧ key x.1 = k) = [] := by
        rw [List.filter_eq_nil_iff]
        rintro ⟨r, i⟩ hx
        have := List.le_snd_of_mem_zipIdx hx
        simp only [decide_eq_true_eq, not_and]
        omega
      rw [List.zipIdx_cons, List.filter_cons_of_pos (by simp [hl a List.mem_cons_self]), hrest]
      rfl

omit [LinearOrder τ] in
/-- A family of lists that is empty off `k` flattens to its list at `k`. -/
theorem flatMap_eq_of_forall_ne {f : κ → List β} (hf : ∀ k', k' ≠ k → f k' = []) {ks : List κ}
    (hks : ks.Nodup) : ks.flatMap f = if k ∈ ks then f k else [] := by
  induction ks with
  | nil => simp
  | cons k' ks ih =>
      obtain ⟨hk', hks'⟩ := List.nodup_cons.mp hks
      rw [List.flatMap_cons, ih hks']
      by_cases h : k' = k
      · subst h
        simp [hk']
      · simp [hf k' h, Ne.symm h]

/-- The rows of one key numbered one: the newest row of that key, if any. -/
theorem filter_rowNumberDescOver :
    (rowNumberDescOver key ord T).filter (fun x => x.2 = 1 ∧ key x.1 = k)
      = ((newest key ord T k).map fun r => (r, 1)).toList := by
  have hmem : ∀ k' r, r ∈ (partition key k' T).insertionSort (fun a b => ord b ≤ ord a) →
      key r = k' := by
    intro k' r hr
    rw [(List.perm_insertionSort (fun a b : α => ord b ≤ ord a) _).mem_iff] at hr
    exact (mem_partition.mp hr).2
  -- rows of another partition carry another key
  have hother : ∀ k', k' ≠ k →
      (((partition key k' T).insertionSort fun a b => ord b ≤ ord a).zipIdx 1).filter
        (fun x => x.2 = 1 ∧ key x.1 = k) = [] := by
    intro k' hne
    rw [List.filter_eq_nil_iff]
    rintro ⟨r, i⟩ hx
    have : key r ≠ k := fun h => hne ((hmem k' r (List.fst_mem_of_mem_zipIdx hx)).symm.trans h)
    simp [this]
  rw [rowNumberDescOver, List.filter_flatMap, partitions, List.flatMap_map,
    flatMap_eq_of_forall_ne hother (List.nodup_dedup _), filter_zipIdx_one (hmem k), newest]
  split
  · rfl
  · rename_i h
    have hnil : partition key k T = [] := by
      rw [partition, List.filter_eq_nil_iff]
      intro r hr
      simp only [decide_eq_true_eq]
      exact fun hk => h (by simpa using ⟨r, hr, hk⟩)
    rw [hnil]
    rfl

end Newest

end Sql
