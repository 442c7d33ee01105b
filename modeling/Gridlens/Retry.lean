import Gridlens.Bronze

/-!
# Merging a run again

A row the first merge inserted is held from then on, so its identity keeps it
from being inserted twice, however late the retry. A row the first merge
dropped left nothing behind to match on: whether the retry inserts it depends
on the newest version held by then, which other runs may have moved.
-/

namespace Gridlens

open Sql

/-- Merging `s` again inserts nothing: its identity is held, or the newest
version of its key shows what it shows. -/
def Settled (T : List Row) (s : Row) : Prop := Held T s ∨ Unchanged T s

section Retry

variable {T : List Row} {R : Run} {s : Row}

theorem Held.mono {S : List Row} (h : Held T s) (hTS : T <+: S) : Held S s :=
  List.map_subset Row.identity hTS.subset h

/-- After its merge a staged row is held, unless it was dropped as unchanged. -/
theorem held_of_merge {W : MergeWindow} {S : List Row} (hs : s ∈ S) (h : ¬ Unchanged T s) :
    Held (merge W S T) s := by
  by_cases hheld : Held T s
  · exact hheld.mono (prefix_mergeInsert _ _ _ _)
  · have hmem : s ∈ merge W S T := by
      rw [merge_eq]
      exact List.mem_append_right T (List.mem_filter.mpr ⟨hs, decide_eq_true fun _ => ⟨h, hheld⟩⟩)
    exact List.mem_map_of_mem hmem

theorem held_of_apply (hs : s ∈ R.batch) (h : ¬ Unchanged T s) : Held (R.apply T) s :=
  held_of_merge hs h

/-- A merge inserts nothing when its rows lie inside the window and are settled. -/
theorem merge_eq_self_iff {W : MergeWindow} {S : List Row} :
    merge W S T = T ↔ ∀ s ∈ S, W.contains s.validTime = true ∧ Settled T s := by
  rw [merge_eq, List.append_right_eq_self, List.filter_eq_nil_iff]
  refine forall₂_congr fun s _ => ?_
  rw [decide_eq_true_eq, Classical.not_imp, not_and_or, not_not, not_not, or_comm]
  rfl

theorem Run.apply_eq_self_iff : R.apply T = T ↔ ∀ s ∈ R.batch, Settled T s := by
  rw [Run.apply, merge_eq_self_iff]
  exact forall₂_congr fun s hs => and_iff_right (R.inWindow s hs)

/-- A row its run left out keeps the newest version of its key in place. -/
theorem newestHeld_apply_of_settled (hs : s ∈ R.batch) (h : Settled T s) :
    newestHeld (R.apply T) s.key = newestHeld T s.key := by
  have hrow : R.row? s.key = some s := Run.row?_eq_some.mpr ⟨hs, rfl⟩
  have hpart : partition Row.key s.key (R.apply T) = partition Row.key s.key T := by
    rw [partition_apply, hrow, Option.toList_some, List.filter_cons_of_neg, List.filter_nil,
      List.append_nil]
    rw [decide_eq_true_eq]
    exact fun hnew => h.elim hnew.2 hnew.1
  rw [newestHeld, newestHeld, newest, newest, hpart]

/-- A retry that nothing came between inserts nothing. -/
theorem Run.apply_apply (T : List Row) (R : Run) : R.apply (R.apply T) = R.apply T := by
  rw [Run.apply_eq_self_iff]
  intro s hs
  by_cases hun : Unchanged T s
  · right
    rw [Unchanged, newestHeld_apply_of_settled hs (Or.inr hun)]
    exact hun
  · exact Or.inl (held_of_apply hs hun)

end Retry

/-! ## Runs of one `known_at` -/

section Stamp

variable {T : List Row} {R : Run} {s : Row} {k : Int}

theorem newestHeld_apply_of_none {key : SeriesKey} (h : R.row? key = none) :
    newestHeld (R.apply T) key = newestHeld T key := by
  have hpart : partition Row.key key (R.apply T) = partition Row.key key T := by
    rw [partition_apply, h, Option.toList_none, List.filter_nil, List.append_nil]
  rw [newestHeld, newestHeld, newest, newest, hpart]

/-- A run settles its own rows. -/
theorem settled_apply (hs : s ∈ R.batch) : Settled (R.apply T) s :=
  Run.apply_eq_self_iff.mp (R.apply_apply T) s hs

/-- A run leaves the rows of its own `known_at` settled. -/
theorem Settled.apply (h : Settled T s) (hk : s.knownAt = R.knownAt) : Settled (R.apply T) s := by
  rcases h with hheld | hun
  · exact Or.inl (hheld.mono (R.prefix_apply T))
  · cases hrow : R.row? s.key with
    | none =>
        right
        rw [Unchanged, newestHeld_apply_of_none hrow]
        exact hun
    | some s' =>
        obtain ⟨hs', hkey⟩ := Run.row?_eq_some.mp hrow
        by_cases hsettled : Settled T s'
        · right
          rw [Unchanged, ← hkey, newestHeld_apply_of_settled hs' hsettled, hkey]
          exact hun
        · -- the row inserted in its place has its identity
          have hidentity : s'.identity = s.identity :=
            Prod.ext hkey ((R.stamped s' hs').trans hk.symm)
          have hheld := held_of_apply (T := T) hs' fun hun' => hsettled (Or.inr hun')
          rw [Held, hidentity] at hheld
          exact Or.inl hheld

theorem Settled.land {runs : List Run} (h : Settled T s) (hk : s.knownAt = k)
    (hruns : ∀ R ∈ runs, R.knownAt = k) : Settled (land T runs) s := by
  induction runs generalizing T with
  | nil => exact h
  | cons R runs ih =>
      have hR := hruns R List.mem_cons_self
      exact ih (h.apply (hk.trans hR.symm)) fun R' hR' => hruns R' (List.mem_cons_of_mem R hR')

/-- Every row the runs staged is settled when they are done. -/
theorem settled_land {runs : List Run} (hruns : ∀ R ∈ runs, R.knownAt = k) :
    ∀ R ∈ runs, ∀ s ∈ R.batch, Settled (land T runs) s := by
  induction runs generalizing T with
  | nil => simp
  | cons R₁ runs ih =>
      have hrest : ∀ R ∈ runs, R.knownAt = k := fun R hR => hruns R (List.mem_cons_of_mem R₁ hR)
      intro R hR s hs
      rcases List.mem_cons.mp hR with rfl | hR
      · have hk := (R.stamped s hs).trans (hruns R List.mem_cons_self)
        exact (settled_apply hs).land hk hrest
      · exact ih hrest R hR s hs

/-- Runs whose rows are all settled insert nothing. -/
theorem land_eq_self {runs : List Run} (h : ∀ R ∈ runs, ∀ s ∈ R.batch, Settled T s) :
    land T runs = T := by
  induction runs with
  | nil => rfl
  | cons R runs ih =>
      have happly : R.apply T = T := Run.apply_eq_self_iff.mpr (h R List.mem_cons_self)
      rw [land_cons, happly]
      exact ih fun R' hR' => h R' (List.mem_cons_of_mem R hR')

/-- Runs of one `known_at`, of which the first few went before, leave what they
leave alone. -/
theorem land_resumed {done runs : List Run} (hruns : ∀ R ∈ runs, R.knownAt = k)
    (hpre : done <+: runs) : land (land T done) runs = land T runs := by
  obtain ⟨rest, rfl⟩ := hpre
  have hdone : ∀ R ∈ done, R.knownAt = k := fun R hR => hruns R (List.mem_append_left rest hR)
  rw [land_append, land_append, land_eq_self (settled_land hdone)]

end Stamp

/-- A run merged again, after any other runs, inserts nothing exactly when
each row its first merge dropped as unchanged is by now held under its own
identity, or still shows what the newest version held shows. -/
theorem rerun_noop_iff (T : List Row) (before between : List Run) (R : Run) :
    R.apply (land T (before ++ R :: between)) = land T (before ++ R :: between) ↔
      ∀ s ∈ R.batch, Unchanged (land T before) s →
        Held (land T (before ++ R :: between)) s ∨
          Unchanged (land T (before ++ R :: between)) s := by
  rw [Run.apply_eq_self_iff]
  constructor
  · intro h s hs _
    exact h s hs
  · intro h s hs
    by_cases hun : Unchanged (land T before) s
    · exact h s hs hun
    · left
      rw [land_append, land_cons]
      exact (held_of_apply hs hun).mono (prefix_land _ _)

/-- Fetched unchanged at 2, revised at 3, then the run of 2 retried: the retry
inserts the row its first attempt dropped. -/
theorem rerun_inserts :
    land [] ([Run.single (nuclear 1 100)] ++ Run.single (nuclear 2 100) ::
        [Run.single (nuclear 3 200)]) = [nuclear 1 100, nuclear 3 200] ∧
      (Run.single (nuclear 2 100)).apply (land [] ([Run.single (nuclear 1 100)] ++
        Run.single (nuclear 2 100) :: [Run.single (nuclear 3 200)]))
        = [nuclear 1 100, nuclear 3 200, nuclear 2 100] := by
  constructor <;> decide +kernel

end Gridlens
