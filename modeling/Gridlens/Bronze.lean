import Gridlens.Decimals
import Gridlens.Sql.Query
import Gridlens.Bitemporal.Changes

/-!
# Bronze: the table, the staged rows and the merge

`gridlens.lake.bronze` with `sql/bronze/generation.sql`. Timestamps are UTC
wall clocks in microseconds, quantities are in thousandths of a megawatt, the
scale of the column. `quantity_mw` and the columns of the key are never null:
every staged row is made of a `GenerationRecord`, and nothing else writes.

`merge` is the statement as it is written: the staged rows left-joined with
the newest row of each key inside the window, a three-valued `WHERE`, and an
insert of the rows no held row matches. `merge_eq` says what that comes to,
and `Run.apply_eq` what is left of it when the batch lies inside its window.
-/

namespace Gridlens

open Sql

/-! ## Rows -/

/-- What the window functions partition by. -/
structure SeriesKey where
  source : String
  zone : String
  productionType : String
  direction : String
  validTime : Int
deriving DecidableEq, Repr

structure Row where
  source : String
  sourceDocumentId : Option String
  zone : String
  productionType : String
  direction : String
  unit : String
  resolutionMinutes : Int
  validTime : Int
  knownAt : Int
  sourceUpdatedAt : Option Int
  quantityMw : Int
deriving DecidableEq, Repr

namespace Row

def key (r : Row) : SeriesKey := ⟨r.source, r.zone, r.productionType, r.direction, r.validTime⟩

/-- The bitemporal identity: a series, a period, and when it was learned. -/
def identity (r : Row) : SeriesKey × Int := (r.key, r.knownAt)

/-- The two columns the merge compares. -/
def value (r : Row) : Int × Option Int := (r.quantityMw, r.sourceUpdatedAt)

/-- What a row says, apart from the document that said it and when it was
learned. -/
def content (r : Row) : Row := { r with sourceDocumentId := none, knownAt := 0 }

theorem key_validTime {r s : Row} (h : r.key = s.key) : r.validTime = s.validTime :=
  congrArg SeriesKey.validTime h

theorem value_eq_iff {r s : Row} :
    r.value = s.value ↔ r.quantityMw = s.quantityMw ∧ r.sourceUpdatedAt = s.sourceUpdatedAt := by
  simp [Row.value]

end Row

/-- No two rows share a bitemporal identity. -/
def Identified (T : List Row) : Prop := (T.map Row.identity).Nodup

instance (T : List Row) : Decidable (Identified T) := inferInstanceAs (Decidable (List.Nodup _))

/-- 12:00 UTC on 26 August 2026. -/
abbrev NOON : Int := 739854 * DAY + 12 * HOUR

/-- So many hours after `NOON`. -/
abbrev noonPlus (hours : Int) : Int := NOON + hours * HOUR

/-- A quarter hour of French nuclear generation, as fetched some hours later. -/
def nuclear (hours megawatts : Int) : Row where
  source := "entsoe"
  sourceDocumentId := none
  zone := "10YFR-RTE------C"
  productionType := "B14"
  direction := "generation"
  unit := "MW"
  resolutionMinutes := 15
  validTime := NOON
  knownAt := noonPlus hours
  sourceUpdatedAt := none
  quantityMw := megawatts * 1000

/-! ## Staging -/

/-- The row a record becomes: written as text into the staging file, and cast
column by column on the way into the merge. -/
def stagedRow (r : GenerationRecord) : Row where
  source := r.source.value
  sourceDocumentId := r.sourceDocumentId
  zone := r.zone.value
  productionType := r.productionType.value
  direction := r.direction.value
  unit := r.unit.value
  resolutionMinutes := r.resolutionMinutes
  validTime := r.validTime.micros
  knownAt := r.knownAt.micros
  sourceUpdatedAt := r.sourceUpdatedAt.map Instant.micros
  quantityMw := r.quantityMw.thousandths

/-! ## The merge -/

/-- `[window_start, window_end)`. -/
structure MergeWindow where
  windowStart : Int
  windowEnd : Int
deriving DecidableEq, Repr

def MergeWindow.contains (W : MergeWindow) (validTime : Int) : Bool :=
  W.windowStart ≤ validTime && validTime < W.windowEnd

/-- The rows of the window, numbered newest first within their key. -/
def latest (W : MergeWindow) (T : List Row) : List (Row × Nat) :=
  rowNumberDescOver Row.key Row.knownAt (T.filter fun t => W.contains t.validTime)

/-- The `ON` of the lookback. -/
def isLatestOf (s : Row) (l : Row × Nat) : Bool :=
  l.2 = 1 ∧ l.1.source = s.source ∧ l.1.zone = s.zone ∧ l.1.productionType = s.productionType ∧
    l.1.direction = s.direction ∧ l.1.validTime = s.validTime

/-- The `WHERE` over the lookback; a staged row without one meets nulls. -/
def changed (s : Row) (l : Option (Row × Nat)) : Truth :=
  (isNull (l.map fun l => l.1.validTime)).or
    ((Sql.compare (· ≠ ·) (l.map fun l => l.1.quantityMw) (some s.quantityMw)).or
      (isDistinctFrom (l.bind fun l => l.1.sourceUpdatedAt) s.sourceUpdatedAt))

/-- The query the merge reads from. -/
def mergeSource (W : MergeWindow) (staged T : List Row) : List Row :=
  ((leftJoin isLatestOf staged (latest W T)).filter fun r => (changed r.1 r.2).holds).map Prod.fst

/-- The `ON` of the merge. -/
def mergeOn (W : MergeWindow) (t s : Row) : Bool :=
  t.zone = s.zone ∧ t.validTime = s.validTime ∧ t.knownAt = s.knownAt ∧ t.source = s.source ∧
    t.productionType = s.productionType ∧ t.direction = s.direction ∧
    W.windowStart ≤ t.validTime ∧ t.validTime < W.windowEnd

def merge (W : MergeWindow) (staged T : List Row) : List Row :=
  mergeInsert (mergeOn W) id (mergeSource W staged T) T

/-! ## What the merge does -/

/-- The newest version of a key that a table holds. -/
def newestHeld (T : List Row) (k : SeriesKey) : Option Row := newest Row.key Row.knownAt T k

/-- `s` shows what the newest version held of its key shows. -/
abbrev Unchanged (T : List Row) (s : Row) : Prop :=
  (newestHeld T s.key).map Row.value = some s.value

/-- A row with the identity of `s` is held. -/
abbrev Held (T : List Row) (s : Row) : Prop := s.identity ∈ T.map Row.identity

theorem isLatestOf_iff {s : Row} {l : Row × Nat} :
    isLatestOf s l = true ↔ l.2 = 1 ∧ l.1.key = s.key := by
  simp [isLatestOf, Row.key]

theorem mergeOn_iff {W : MergeWindow} {s t : Row} :
    mergeOn W t s = true ↔ t.identity = s.identity ∧ W.contains s.validTime = true := by
  simp only [mergeOn, Row.identity, Row.key, MergeWindow.contains, Bool.and_eq_true,
    decide_eq_true_eq, Prod.mk.injEq, SeriesKey.mk.injEq]
  constructor
  · intro ⟨hzone, hvalid, hknown, hsource, htype, hdirection, hstart, hend⟩
    exact ⟨⟨⟨hsource, hzone, htype, hdirection, hvalid⟩, hknown⟩, hvalid ▸ hstart, hvalid ▸ hend⟩
  · intro ⟨⟨⟨hsource, hzone, htype, hdirection, hvalid⟩, hknown⟩, hstart, hend⟩
    exact ⟨hzone, hvalid, hknown, hsource, htype, hdirection, hvalid ▸ hstart, hvalid ▸ hend⟩

/-- Three-valued as it is, the `WHERE` keeps exactly the rows whose lookback
is missing or shows something else. -/
theorem holds_changed (s : Row) (l : Option (Row × Nat)) :
    (changed s l).holds = decide ((l.map fun l => l.1.value) ≠ some s.value) := by
  cases l with
  | none => simp [changed]
  | some l =>
      simp only [changed, Truth.holds_or, holds_isNull, Option.map_some, Option.isNone_some,
        holds_compare_some, Option.bind_some, holds_isDistinctFrom, Bool.false_or, ne_eq,
        Option.some.injEq, Row.value_eq_iff, ← Bool.decide_or]
      congr 1
      exact propext (not_and_or).symm

/-- What the lookback of a staged row finds: the newest version held, where
the row lies in the window. -/
theorem filter_latest (W : MergeWindow) (s : Row) (T : List Row) :
    (latest W T).filter (isLatestOf s) =
      ((if W.contains s.validTime then newestHeld T s.key else none).map fun r => (r, 1)).toList := by
  have hfilter : (latest W T).filter (isLatestOf s) =
      (latest W T).filter fun x => x.2 = 1 ∧ x.1.key = s.key := by
    congr 1
    funext l
    rw [Bool.eq_iff_iff, isLatestOf_iff, decide_eq_true_eq]
  rw [hfilter, latest, filter_rowNumberDescOver]
  by_cases hW : W.contains s.validTime = true
  · -- a key lies in the window with all its versions or with none
    have hwhole : partition Row.key s.key (T.filter fun t => W.contains t.validTime)
        = partition Row.key s.key T := by
      apply partition_filter
      intro r _ hr
      rw [Row.key_validTime hr]
      exact hW
    rw [if_pos hW, newestHeld, newest, newest, hwhole]
  · have hnone : newest Row.key Row.knownAt (T.filter fun t => W.contains t.validTime) s.key
        = none := by
      rw [newest_eq_none]
      intro r hr hk
      rw [← Row.key_validTime hk] at hW
      exact hW (List.mem_filter.mp hr).2
    rw [if_neg hW, hnone]

/-- The merge appends the staged rows that lie outside the window, and those
inside that are neither a repetition of the newest version nor held. -/
theorem merge_eq (W : MergeWindow) (staged T : List Row) :
    merge W staged T = T ++ staged.filter fun s =>
      W.contains s.validTime = true → ¬ Unchanged T s ∧ ¬ Held T s := by
  -- the `WHERE` keeps the rows the lookback finds changed
  have hsource : mergeSource W staged T = staged.filter fun s =>
      ((if W.contains s.validTime then newestHeld T s.key else none).map Row.value)
        ≠ some s.value := by
    rw [mergeSource, leftJoin_eq_map fun s => filter_latest W s T, List.filter_map, List.map_map]
    have hid : (Prod.fst ∘ fun s : Row =>
        (s, (if W.contains s.validTime then newestHeld T s.key else none).map fun r => (r, 1)))
          = id := rfl
    rw [hid, List.map_id]
    congr 1
    funext s
    rw [Function.comp_apply, holds_changed, Option.map_map]
    rfl
  -- the `ON` matches a held row of the same identity, inside the window only
  have hheld : ∀ s, (T.any fun t => mergeOn W t s) = true ↔
      Held T s ∧ W.contains s.validTime = true := by
    intro s
    simp only [List.any_eq_true, mergeOn_iff, List.mem_map]
    constructor
    · intro ⟨t, ht, hid, hW⟩
      exact ⟨⟨t, ht, hid⟩, hW⟩
    · intro ⟨⟨t, ht, hid⟩, hW⟩
      exact ⟨t, ht, hid, hW⟩
  rw [merge, mergeInsert, List.map_id, hsource, List.filter_filter]
  congr 1
  apply List.filter_congr
  intro s _
  rw [Bool.eq_iff_iff, Bool.and_eq_true, Bool.not_eq_true', ← Bool.not_eq_true, hheld,
    decide_eq_true_eq, decide_eq_true_eq]
  by_cases hW : W.contains s.validTime = true
  · simp [hW, and_comm]
  · simp [hW]

/-! ## Runs -/

/-- What one run hands to the merge: rows of one `known_at`, of distinct
identities, inside the window. -/
structure Run where
  window : MergeWindow
  knownAt : Int
  batch : List Row
  stamped : ∀ s ∈ batch, s.knownAt = knownAt
  inWindow : ∀ s ∈ batch, window.contains s.validTime = true
  identified : Identified batch

/-- The table after the run. -/
def Run.apply (T : List Row) (R : Run) : List Row := merge R.window R.batch T

/-- The table after a sequence of runs. -/
def land (T : List Row) (runs : List Run) : List Row := runs.foldl Run.apply T

/-- A run that stages one row, over a window of that row's instant. -/
def Run.single (s : Row) : Run where
  window := ⟨s.validTime, s.validTime + 1⟩
  knownAt := s.knownAt
  batch := [s]
  stamped := by simp
  inWindow := by simp [MergeWindow.contains]
  identified := List.nodup_singleton _

/-- Every row the runs staged: what a table would hold that left nothing out. -/
def staged (runs : List Run) : List Row := runs.flatMap Run.batch

/-- The staged row of a key. -/
def Run.row? (R : Run) (k : SeriesKey) : Option Row := R.batch.find? fun s => s.key = k

/-- The observations of a key, in the order of the runs. -/
def observed (runs : List Run) (k : SeriesKey) : List Row := runs.filterMap fun R => R.row? k

/-- The versions of one key. -/
def history (T : List Row) (k : SeriesKey) : Set Row := {v | v ∈ T ∧ v.key = k}

section Runs

variable {T : List Row} {R : Run} {k : SeriesKey} {r s v : Row}

theorem Run.apply_eq (T : List Row) (R : Run) :
    R.apply T = T ++ R.batch.filter fun s => ¬ Unchanged T s ∧ ¬ Held T s := by
  rw [Run.apply, merge_eq]
  congr 1
  apply List.filter_congr
  intro s hs
  simp [R.inWindow s hs]

theorem Run.mem_apply :
    v ∈ R.apply T ↔ v ∈ T ∨ v ∈ R.batch ∧ ¬ Unchanged T v ∧ ¬ Held T v := by
  rw [Run.apply_eq, List.mem_append, List.mem_filter, decide_eq_true_eq]

/-- No held row is changed or removed. -/
theorem Run.prefix_apply (T : List Row) (R : Run) : T <+: R.apply T :=
  prefix_mergeInsert _ _ _ _

/-- A batch has at most one row of a key. -/
theorem Run.eq_of_key (hr : r ∈ R.batch) (hs : s ∈ R.batch) (h : r.key = s.key) : r = s := by
  apply List.inj_on_of_nodup_map R.identified hr hs
  exact Prod.ext h ((R.stamped r hr).trans (R.stamped s hs).symm)

theorem Run.row?_eq_some : R.row? k = some s ↔ s ∈ R.batch ∧ s.key = k := by
  constructor
  · intro h
    exact ⟨List.mem_of_find?_eq_some h, by simpa using List.find?_some h⟩
  · intro ⟨hs, hk⟩
    cases h : R.row? k with
    | none =>
        have hne := List.find?_eq_none.mp h s hs
        simp [hk] at hne
    | some s' =>
        have hs' := List.mem_of_find?_eq_some h
        have hk' : s'.key = k := by simpa using List.find?_some h
        rw [R.eq_of_key hs' hs (hk'.trans hk.symm)]

theorem Run.row?_eq_none : R.row? k = none ↔ ∀ s ∈ R.batch, s.key ≠ k := by
  rw [Run.row?, List.find?_eq_none]
  simp

/-- The merge keeps identities distinct. -/
theorem Run.identified_apply (hT : Identified T) : Identified (R.apply T) := by
  rw [Identified, Run.apply_eq, List.map_append, List.nodup_append]
  refine ⟨hT, (List.filter_sublist.map _).nodup R.identified, ?_⟩
  intro i hi j hj hij
  rcases List.mem_map.mp hj with ⟨s, hs, rfl⟩
  have hfresh := (List.mem_filter.mp hs).2
  rw [decide_eq_true_eq] at hfresh
  rw [hij] at hi
  exact hfresh.2 hi

@[simp] theorem land_nil (T : List Row) : land T [] = T := rfl

@[simp] theorem land_cons (T : List Row) (R : Run) (runs : List Run) :
    land T (R :: runs) = land (R.apply T) runs := rfl

theorem land_append (T : List Row) (runs runs' : List Run) :
    land T (runs ++ runs') = land (land T runs) runs' := List.foldl_append

theorem land_concat (T : List Row) (runs : List Run) (R : Run) :
    land T (runs ++ [R]) = R.apply (land T runs) := land_append T runs [R]

theorem prefix_land (T : List Row) (runs : List Run) : T <+: land T runs := by
  induction runs generalizing T with
  | nil => exact List.prefix_refl T
  | cons R runs ih => exact (R.prefix_apply T).trans (ih (R.apply T))

theorem identified_land (hT : Identified T) (runs : List Run) : Identified (land T runs) := by
  induction runs generalizing T with
  | nil => exact hT
  | cons R runs ih => exact ih (R.identified_apply hT)

theorem identified_nil : Identified [] := List.nodup_nil

/-! ## The history of one key -/

theorem mem_history : v ∈ history T k ↔ v ∈ T ∧ v.key = k := Iff.rfl

theorem finite_history (T : List Row) (k : SeriesKey) : (history T k).Finite :=
  (List.finite_toSet T).subset fun _ hv => hv.1

theorem identified_history (hT : Identified T) (k : SeriesKey) :
    Bitemporal.Identified Row.knownAt (history T k) := by
  intro v hv w hw h
  exact List.inj_on_of_nodup_map hT hv.1 hw.1 (Prod.ext (hv.2.trans hw.2.symm) h)

/-- The newest version held is the newest of the key's history. -/
theorem newestHeld_eq_some_iff (hT : Identified T) :
    newestHeld T k = some v ↔ Bitemporal.Newest Row.knownAt (history T k) v := by
  rw [newestHeld, newest_eq_some_iff hT]
  constructor
  · intro ⟨hv, hmax⟩
    exact ⟨hv, fun w hw => hmax w hw.1 hw.2⟩
  · intro ⟨hv, hmax⟩
    exact ⟨hv, fun w hw hk => hmax w ⟨hw, hk⟩⟩

theorem newestHeld_eq_none_iff : newestHeld T k = none ↔ history T k = ∅ := by
  rw [newestHeld, newest_eq_none, Set.eq_empty_iff_forall_notMem]
  exact ⟨fun h v hv => h v hv.1 hv.2, fun h v hv hk => h v ⟨hv, hk⟩⟩

/-- A run that carries nothing of a key leaves its history alone. -/
theorem history_apply_of_none (h : R.row? k = none) : history (R.apply T) k = history T k := by
  rw [Run.row?_eq_none] at h
  ext v
  rw [mem_history, mem_history, Run.mem_apply]
  constructor
  · intro ⟨hv, hk⟩
    rcases hv with hv | hv
    · exact ⟨hv, hk⟩
    · exact absurd hk (h v hv.1)
  · intro ⟨hv, hk⟩
    exact ⟨Or.inl hv, hk⟩

/-- A staged row that repeats the newest version, or is held, changes nothing. -/
theorem history_apply_of_dropped (hs : R.row? k = some s) (h : Unchanged T s ∨ Held T s) :
    history (R.apply T) k = history T k := by
  rw [Run.row?_eq_some] at hs
  ext v
  rw [mem_history, mem_history, Run.mem_apply]
  constructor
  · intro ⟨hv, hk⟩
    rcases hv with hv | ⟨hv, hnew⟩
    · exact ⟨hv, hk⟩
    · rw [R.eq_of_key hv hs.1 (hk.trans hs.2.symm)] at hnew
      exact absurd h (not_or.mpr hnew)
  · intro ⟨hv, hk⟩
    exact ⟨Or.inl hv, hk⟩

/-- Any other staged row becomes a version of its key. -/
theorem history_apply_of_inserted (hs : R.row? k = some s) (hnew : ¬ Unchanged T s)
    (hheld : ¬ Held T s) : history (R.apply T) k = insert s (history T k) := by
  rw [Run.row?_eq_some] at hs
  ext v
  rw [Set.mem_insert_iff, mem_history, mem_history, Run.mem_apply]
  constructor
  · intro ⟨hv, hk⟩
    rcases hv with hv | hv
    · exact Or.inr ⟨hv, hk⟩
    · exact Or.inl (R.eq_of_key hv.1 hs.1 (hk.trans hs.2.symm))
  · intro hv
    rcases hv with hv | hv
    · rw [hv]
      exact ⟨Or.inr ⟨hs.1, hnew, hheld⟩, hs.2⟩
    · exact ⟨Or.inl hv.1, hv.2⟩

/-! ## The partition of one key -/

theorem partition_batch (R : Run) (k : SeriesKey) :
    partition Row.key k R.batch = (R.row? k).toList := by
  have hnodup : (partition Row.key k R.batch).Nodup := (List.Nodup.of_map _ R.identified).filter _
  cases h : R.row? k with
  | none =>
      rw [Run.row?_eq_none] at h
      rw [partition, Option.toList_none, List.filter_eq_nil_iff]
      intro s hs
      simp [h s hs]
  | some s =>
      rw [Run.row?_eq_some] at h
      have hmem : ∀ r, r ∈ partition Row.key k R.batch ↔ r ∈ [s] := by
        intro r
        rw [mem_partition, List.mem_singleton]
        constructor
        · intro hr
          exact R.eq_of_key hr.1 h.1 (hr.2.trans h.2.symm)
        · intro hr
          rw [hr]
          exact h
      have hperm := (List.perm_ext_iff_of_nodup hnodup (List.nodup_singleton s)).mpr hmem
      exact List.perm_singleton.mp hperm

/-- The merge appends at most one version to a key. -/
theorem partition_apply (T : List Row) (R : Run) (k : SeriesKey) :
    partition Row.key k (R.apply T) = partition Row.key k T ++
      (R.row? k).toList.filter fun s => ¬ Unchanged T s ∧ ¬ Held T s := by
  rw [Run.apply_eq, partition_append, ← partition_batch, partition, partition, partition,
    List.filter_filter, List.filter_filter]
  congr 1
  apply List.filter_congr
  intro s _
  rw [Bool.and_comm]

/-- Where versions were appended in the order of their stamps, the newest one
held is the last. -/
theorem newestHeld_eq_getLast? (hT : Identified T)
    (h : (partition Row.key k T).Pairwise fun a b => a.knownAt < b.knownAt) :
    newestHeld T k = (partition Row.key k T).getLast? := by
  cases hlast : (partition Row.key k T).getLast? with
  | none =>
      have hnil := List.getLast?_eq_none_iff.mp hlast
      rw [newestHeld, newest_eq_none]
      intro r hr hk
      have hmem : r ∈ partition Row.key k T := mem_partition.mpr ⟨hr, hk⟩
      rw [hnil] at hmem
      cases hmem
  | some v =>
      have hnewest := Bitemporal.newest_getLast h hlast
      rw [newestHeld, newest_eq_some_iff hT]
      exact ⟨mem_partition.mp hnewest.1, fun s hs hk => hnewest.2 s (mem_partition.mpr ⟨hs, hk⟩)⟩

/-! ## What the runs staged -/

theorem mem_observed {runs : List Run} :
    v ∈ observed runs k ↔ ∃ R ∈ runs, R.row? k = some v := List.mem_filterMap

theorem mem_staged {runs : List Run} : v ∈ staged runs ↔ ∃ R ∈ runs, v ∈ R.batch :=
  List.mem_flatMap

theorem history_staged (runs : List Run) (k : SeriesKey) :
    history (staged runs) k = {v | v ∈ observed runs k} := by
  ext v
  rw [mem_history, mem_staged, Set.mem_ofPred_eq, mem_observed]
  constructor
  · intro ⟨⟨R, hR, hv⟩, hk⟩
    exact ⟨R, hR, Run.row?_eq_some.mpr ⟨hv, hk⟩⟩
  · intro ⟨R, hR, hv⟩
    rw [Run.row?_eq_some] at hv
    exact ⟨⟨R, hR, hv.1⟩, hv.2⟩

theorem observed_concat (runs : List Run) (R : Run) (k : SeriesKey) :
    observed (runs ++ [R]) k = observed runs k ++ (R.row? k).toList := by
  unfold observed
  rw [List.filterMap_append]
  cases h : R.row? k <;> simp [h]

/-- A run adds its row of a key to what was staged of it. -/
theorem history_staged_concat {runs : List Run} (hs : R.row? k = some s) :
    history (staged (runs ++ [R])) k = insert s (history (staged runs) k) := by
  rw [history_staged, history_staged, observed_concat, hs, Option.toList_some,
    Bitemporal.setOf_mem_concat]

theorem history_staged_concat_of_none {runs : List Run} (h : R.row? k = none) :
    history (staged (runs ++ [R])) k = history (staged runs) k := by
  rw [history_staged, history_staged, observed_concat, h, Option.toList_none, List.append_nil]

/-- Every version held was staged by one of the runs. -/
theorem subset_staged (runs : List Run) :
    ∀ v ∈ land [] runs, v ∈ staged runs := by
  induction runs using List.reverseRecOn with
  | nil => simp
  | append_singleton runs R ih =>
      intro v hv
      rw [land_concat, Run.mem_apply] at hv
      rw [mem_staged]
      rcases hv with hv | hv
      · rcases mem_staged.mp (ih v hv) with ⟨R', hR', hmem⟩
        exact ⟨R', List.mem_append_left [R] hR', hmem⟩
      · exact ⟨R, by simp, hv.1⟩

/-- Nothing held carries a stamp that no run had. -/
theorem not_held_of_fresh {runs : List Run} (h : ∀ R ∈ runs, R.knownAt ≠ s.knownAt) :
    ¬ Held (land [] runs) s := by
  intro hheld
  rcases List.mem_map.mp hheld with ⟨v, hv, hid⟩
  rcases mem_staged.mp (subset_staged runs v hv) with ⟨R, hR, hmem⟩
  have hknown : v.knownAt = s.knownAt := congrArg Prod.snd hid
  rw [R.stamped v hmem] at hknown
  exact h R hR hknown

theorem history_subset_staged (runs : List Run) (k : SeriesKey) :
    history (land [] runs) k ⊆ history (staged runs) k :=
  fun v hv => ⟨subset_staged runs v hv.1, hv.2⟩

/-- Runs of distinct stamps stage rows of distinct identities. -/
theorem identified_staged {runs : List Run} (h : runs.Pairwise fun R R' => R.knownAt ≠ R'.knownAt) :
    Identified (staged runs) := by
  rw [Identified, staged, List.map_flatMap, List.nodup_flatMap]
  refine ⟨fun R _ => R.identified, h.imp fun {R R'} hne => ?_⟩
  intro i hi hi'
  rcases List.mem_map.mp hi with ⟨s, hs, rfl⟩
  rcases List.mem_map.mp hi' with ⟨s', hs', hid⟩
  have hknown : s'.knownAt = s.knownAt := congrArg Prod.snd hid
  rw [R.stamped s hs, R'.stamped s' hs'] at hknown
  exact hne hknown.symm

end Runs

end Gridlens
