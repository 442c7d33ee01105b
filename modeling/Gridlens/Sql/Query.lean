import Gridlens.Sql.Window
import Mathlib.Algebra.BigOperators.Group.List.Basic
import Mathlib.Algebra.Ring.Int.Defs

/-!
# Predicates, joins, grouping and insert-only merges over bags of rows

The parts of SQL the models below use, over arbitrary row types: predicates
in three-valued logic, `LEFT JOIN`, `JOIN`, `GROUP BY`, `EXCEPT`, and a
`MERGE` that only inserts. A nullable column is an `Option`.
-/

namespace Sql

variable {α : Type*} {β : Type*} {γ : Type*} {κ : Type*} {σ : Type*}

/-! ## Three-valued predicates -/

/-- The value of a predicate; `none` is unknown. -/
abbrev Truth := Option Bool

/-- `p OR q`. -/
def Truth.or : Truth → Truth → Truth
  | some true, _ => some true
  | _, some true => some true
  | some false, some false => some false
  | _, _ => none

/-- `p AND q`. -/
def Truth.and : Truth → Truth → Truth
  | some false, _ => some false
  | _, some false => some false
  | some true, some true => some true
  | _, _ => none

/-- `WHERE` keeps a row whose predicate is true, not one where it is unknown. -/
def Truth.holds (p : Truth) : Bool := p == some true

/-- A comparison of nullable columns, unknown where either side is null. -/
def compare (r : α → α → Prop) [DecidableRel r] : Option α → Option α → Truth
  | some a, some b => some (decide (r a b))
  | _, _ => none

/-- `x IS NULL`. -/
def isNull (x : Option α) : Truth := some x.isNone

/-- `x IS DISTINCT FROM y`: null is equal to null and to nothing else. -/
def isDistinctFrom [DecidableEq α] (x y : Option α) : Truth := some (decide (x ≠ y))

@[simp] theorem Truth.holds_or (p q : Truth) : (p.or q).holds = (p.holds || q.holds) := by
  cases p with
  | none => cases q with
    | none => rfl
    | some b => cases b <;> rfl
  | some a => cases q with
    | none => cases a <;> rfl
    | some b => cases a <;> cases b <;> rfl

@[simp] theorem Truth.holds_and (p q : Truth) : (p.and q).holds = (p.holds && q.holds) := by
  cases p with
  | none => cases q with
    | none => rfl
    | some b => cases b <;> rfl
  | some a => cases q with
    | none => cases a <;> rfl
    | some b => cases a <;> cases b <;> rfl

@[simp] theorem Truth.holds_some (b : Bool) : Truth.holds (some b) = b := by
  cases b <;> rfl

@[simp] theorem holds_compare_some (r : α → α → Prop) [DecidableRel r] (a b : α) :
    (compare r (some a) (some b)).holds = decide (r a b) := Truth.holds_some _

@[simp] theorem holds_isNull (x : Option α) : (isNull x).holds = x.isNone := Truth.holds_some _

@[simp] theorem holds_isDistinctFrom [DecidableEq α] (x y : Option α) :
    (isDistinctFrom x y).holds = decide (x ≠ y) := Truth.holds_some _

/-! ## Joins -/

/-- `S LEFT JOIN R ON on`: a left row without a match meets nulls. -/
def leftJoin (on : σ → α → Bool) (S : List σ) (R : List α) : List (σ × Option α) :=
  S.flatMap fun s =>
    match R.filter (on s) with
    | [] => [(s, none)]
    | m :: ms => (m :: ms).map fun r => (s, some r)

/-- `S JOIN R ON on`. -/
def join (on : σ → α → Bool) (S : List σ) (R : List α) : List (σ × α) :=
  S.flatMap fun s => (R.filter (on s)).map fun r => (s, r)

/-- A left join that matches at most once keeps each left row exactly once. -/
theorem leftJoin_eq_map {on : σ → α → Bool} {S : List σ} {R : List α} {f : σ → Option α}
    (h : ∀ s, R.filter (on s) = (f s).toList) : leftJoin on S R = S.map fun s => (s, f s) := by
  unfold leftJoin
  rw [List.map_eq_flatMap]
  congr 1
  funext s
  rw [h s]
  cases f s <;> rfl

/-- `WHERE R.column IS NULL`: the left rows without a match. -/
theorem leftJoin_isNull (on : σ → α → Bool) (S : List σ) (R : List α) :
    ((leftJoin on S R).filter fun j => (isNull j.2).holds).map Prod.fst =
      S.filter fun s => !R.any (on s) := by
  induction S with
  | nil => rfl
  | cons s S ih =>
      have hcons : leftJoin on (s :: S) R = (match R.filter (on s) with
          | [] => [(s, none)]
          | m :: ms => (m :: ms).map fun r => (s, some r)) ++ leftJoin on S R := rfl
      rw [hcons, List.filter_append, List.map_append, ih]
      cases hmatch : R.filter (on s) with
      | nil =>
          have hnone : R.any (on s) = false := by
            rw [← Bool.not_eq_true, List.any_eq_true]
            rintro ⟨r, hr, hon⟩
            exact List.filter_eq_nil_iff.mp hmatch r hr hon
          have hkept : (s :: S).filter (fun s => !R.any (on s)) =
              s :: S.filter fun s => !R.any (on s) := List.filter_cons_of_pos (by rw [hnone]; rfl)
          rw [hkept]
          rfl
      | cons m ms =>
          have hm : m ∈ R.filter (on s) := by
            rw [hmatch]
            exact List.mem_cons_self
          have hsome : R.any (on s) = true :=
            List.any_eq_true.mpr ⟨m, (List.mem_filter.mp hm).1, (List.mem_filter.mp hm).2⟩
          have hcut : (s :: S).filter (fun s => !R.any (on s)) = S.filter fun s => !R.any (on s) :=
            List.filter_cons_of_neg (by rw [hsome]; exact Bool.false_ne_true)
          rw [hcut]
          simp

theorem join_perm {on : σ → α → Bool} {S S' : List σ} {R R' : List α} (hS : S.Perm S')
    (hR : R.Perm R') : (join on S R).Perm (join on S' R') := by
  unfold join
  refine (hS.flatMap_right _).trans ?_
  exact List.Perm.flatMap_left _ fun s _ => (hR.filter _).map _

/-- A cut of the left side, and of what its rows match, can be made before or
after the join. -/
theorem join_filter {on : σ → α → Bool} {p : σ → Bool} {q : α → Bool}
    (h : ∀ s r, p s = true → on s r = true → q r = true) (S : List σ) (R : List α) :
    join on (S.filter p) (R.filter q) = (join on S R).filter fun x => p x.1 := by
  unfold join
  rw [List.filter_flatMap, flatMap_filter]
  congr 1
  funext s
  rw [List.filter_map, List.filter_filter]
  by_cases hp : p s = true
  · have hq : R.filter (fun r => on s r && q r) = R.filter (on s) := by
      apply List.filter_congr
      intro r _
      rw [Bool.eq_iff_iff, Bool.and_eq_true]
      exact ⟨fun hr => hr.1, fun hr => ⟨hr, h s r hp hr⟩⟩
    rw [if_pos hp, hq]
    congr 1
    exact (List.filter_eq_self.mpr fun r _ => hp).symm
  · rw [if_neg hp]
    exact (List.map_eq_nil_iff.mpr (List.filter_eq_nil_iff.mpr fun r _ => hp)).symm

/-! ## `MERGE`, insert only -/

/-- `MERGE INTO T USING source ON on WHEN NOT MATCHED THEN INSERT values`. The
match is decided on the table as it stood, and every unmatched source row is
inserted. -/
def mergeInsert (on : α → σ → Bool) (values : σ → α) (source : List σ) (T : List α) : List α :=
  T ++ (source.filter fun s => !T.any fun t => on t s).map values

/-- An insert-only merge keeps every row. -/
theorem prefix_mergeInsert (on : α → σ → Bool) (values : σ → α) (source : List σ) (T : List α) :
    T <+: mergeInsert on values source T :=
  List.prefix_append _ _

/-! ## `GROUP BY` -/

/-- One row for each distinct key, with an aggregate of the rows carrying it. -/
def groupBy [DecidableEq κ] (key : α → κ) (agg : List α → β) (T : List α) : List (κ × β) :=
  (T.map key).dedup.map fun k => (k, agg (partition key k T))

section GroupBy

variable [DecidableEq κ] {key : α → κ} {agg : List α → β}

/-- Grouping reads a table as a bag when the aggregate does. -/
theorem groupBy_perm (hagg : ∀ l l', l.Perm l' → agg l = agg l') {S T : List α} (h : S.Perm T) :
    (groupBy key agg S).Perm (groupBy key agg T) := by
  have hcongr : ∀ k, agg (partition key k S) = agg (partition key k T) := fun k =>
    hagg _ _ (h.filter _)
  unfold groupBy
  simp only [hcongr]
  exact ((h.map key).dedup).map _

/-- Cutting a table by a property of the key, then grouping, keeps the groups
with that property and leaves them whole. -/
theorem groupBy_filter_perm (p : κ → Bool) (T : List α) :
    (groupBy key agg (T.filter fun r => p (key r))).Perm
      ((groupBy key agg T).filter fun g => p g.1) := by
  have hwhole : ∀ k ∈ (T.map key).dedup.filter p,
      (k, agg (partition key k (T.filter fun r => p (key r)))) = (k, agg (partition key k T)) := by
    intro k hk
    rw [partition_filter_key p (List.mem_filter.mp hk).2]
  unfold groupBy
  refine ((dedup_keys_filter_perm p T).map _).trans ?_
  rw [List.filter_map, List.map_congr_left hwhole]
  exact List.Perm.refl _

/-- Grouping a projection of a table is grouping the table by what it projects to. -/
theorem groupBy_map {f : γ → α} (T : List γ) :
    groupBy key agg (T.map f) = groupBy (key ∘ f) (fun rows => agg (rows.map f)) T := by
  unfold groupBy partition
  rw [List.map_map]
  apply List.map_congr_left
  intro k _
  rw [List.filter_map]
  rfl

/-- Every group has a row, and its key. -/
theorem mem_groupBy {g : κ × β} {T : List α} :
    g ∈ groupBy key agg T ↔ (∃ r ∈ T, key r = g.1) ∧ g.2 = agg (partition key g.1 T) := by
  obtain ⟨k, b⟩ := g
  simp only [groupBy, List.mem_map, List.mem_dedup, Prod.mk.injEq]
  constructor
  · rintro ⟨_, ⟨r, hr, rfl⟩, rfl, rfl⟩
    exact ⟨⟨r, hr, rfl⟩, rfl⟩
  · rintro ⟨⟨r, hr, rfl⟩, rfl⟩
    exact ⟨_, ⟨r, hr, rfl⟩, rfl, rfl⟩

/-- A row is in a group. -/
theorem mem_groupBy_of_mem {r : α} {T : List α} (hr : r ∈ T) :
    (key r, agg (partition key (key r) T)) ∈ groupBy key agg T :=
  mem_groupBy.mpr ⟨⟨r, hr, rfl⟩, rfl⟩

end GroupBy

/-- `count(DISTINCT ..)` of a column without nulls. -/
def countDistinct [DecidableEq α] (l : List α) : Nat := l.dedup.length

/-- `sum` of a nullable column: nulls are skipped, and a sum of none is null. -/
def sum (l : List (Option Int)) : Option Int :=
  match l.filterMap id with
  | [] => none
  | x :: xs => some (x :: xs).sum

theorem sum_perm {l l' : List (Option Int)} (h : l.Perm l') : sum l = sum l' := by
  have hvals := h.filterMap id
  unfold sum
  cases h₁ : l.filterMap id with
  | nil =>
      rw [h₁] at hvals
      rw [List.nil_perm.mp hvals]
  | cons x xs =>
      rw [h₁] at hvals
      cases h₂ : l'.filterMap id with
      | nil =>
          rw [h₂] at hvals
          cases List.perm_nil.mp hvals
      | cons y ys =>
          rw [h₂] at hvals
          exact congrArg some hvals.sum_eq

/-! ## `EXCEPT` -/

/-- `L EXCEPT R`: the distinct rows of `L` that `R` does not hold. -/
def except [DecidableEq α] (L R : List α) : List α := (L.filter fun r => r ∉ R).dedup

theorem except_eq_nil_iff [DecidableEq α] {L R : List α} : except L R = [] ↔ ∀ r ∈ L, r ∈ R := by
  rw [except, List.dedup_eq_nil, List.filter_eq_nil_iff]
  simp

end Sql
