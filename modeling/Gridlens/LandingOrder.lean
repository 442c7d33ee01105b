import Gridlens.AsOf

/-!
# Runs that land out of order

`known_at` is an argument, so a run can land after runs stamped later than
itself. The read should not depend on that: at `t` a key should show the run
with the greatest stamp not above `t` (`lastObserved`). The merge, however,
compares a staged row with the newest version held and not with the version in
force at the row's own stamp.

`readsRight_iff` says exactly when the order does not show: a dropped row has
to repeat the version in force at its own stamp, and an inserted row must not
come to cover a later observation that was dropped for another quantity.
-/

namespace Gridlens

open Bitemporal

/-- The row a read at `t` should show: of the run with the greatest stamp not
above `t`, among those that carried the key. -/
def lastObserved (runs : List Run) (t : Int) (k : SeriesKey) : Option Row :=
  newestHeld ((staged runs).filter fun s => s.knownAt ≤ t) k

/-- The table reads, for every key and instant, the quantity it should. -/
def ReadsRight (runs : List Run) : Prop :=
  ∀ t k, (asOfKey (land [] runs) t k).map Row.quantityMw
    = ((lastObserved runs t k).map Row.quantityMw).toList

/-- What has to hold of a staged row and the runs that landed before it: if it
is dropped, it repeats the version in force at its own stamp; if it is
inserted, the later observations it comes to cover show its quantity. -/
def RowOk (before : List Run) (s : Row) : Prop :=
  (Unchanged (land [] before) s → ∃ v,
    InForce Row.knownAt (history (land [] before) s.key) s.knownAt v ∧
      v.quantityMw = s.quantityMw) ∧
  (¬ Unchanged (land [] before) s → ∀ o ∈ history (staged before) s.key, s.knownAt < o.knownAt →
    (∀ v ∈ history (land [] before) s.key, s.knownAt < v.knownAt → o.knownAt < v.knownAt) →
      o.quantityMw = s.quantityMw)

section LandingOrder

variable {runs before : List Run} {R : Run} {k : SeriesKey}

/-- Reading right is agreement with everything that was staged. -/
theorem readsRight_iff_agrees (h : runs.Pairwise fun R R' => R.knownAt ≠ R'.knownAt) :
    ReadsRight runs ↔ ∀ k,
      Agrees Row.knownAt Row.quantityMw (history (land [] runs) k) (history (staged runs) k) := by
  have hstaged := identified_staged h
  have hright : ∀ t k, ((lastObserved runs t k).map Row.quantityMw).toList
      = (asOfKey (staged runs) t k).map Row.quantityMw := by
    intro t k
    rw [asOfKey_eq_newestHeld hstaged, lastObserved]
    cases newestHeld ((staged runs).filter fun s => s.knownAt ≤ t) k <;> rfl
  simp only [ReadsRight, hright]
  rw [forall_comm]
  exact forall_congr' fun k =>
    asOfKey_eq_iff_agrees Row.quantityMw (identified_land identified_nil runs) hstaged

/-- One run keeps the agreement of a key exactly when its row of that key does
what it has to. -/
theorem agrees_concat_iff (h : before.Pairwise fun R R' => R.knownAt ≠ R'.knownAt)
    (hR : ∀ R' ∈ before, R'.knownAt ≠ R.knownAt)
    (hagree : Agrees Row.knownAt Row.quantityMw (history (land [] before) k)
      (history (staged before) k)) :
    Agrees Row.knownAt Row.quantityMw (history (land [] (before ++ [R])) k)
        (history (staged (before ++ [R])) k) ↔
      ∀ s ∈ R.batch, s.key = k → RowOk before s := by
  rw [land_concat]
  cases hrow : R.row? k with
  | none =>
      rw [history_apply_of_none hrow, history_staged_concat_of_none hrow]
      rw [Run.row?_eq_none] at hrow
      constructor
      · intro _ s hs hk
        exact absurd hk (hrow s hs)
      · intro _
        exact hagree
  | some s =>
      rcases Run.row?_eq_some.mp hrow with ⟨hs, rfl⟩
      have hsub := history_subset_staged before s.key
      have hid := identified_history (identified_staged h) s.key
      have hstamp : ∀ R' ∈ before, R'.knownAt ≠ s.knownAt := by
        intro R' hR'
        rw [R.stamped s hs]
        exact hR R' hR'
      have hfresh : ∀ w ∈ history (staged before) s.key, w.knownAt ≠ s.knownAt := by
        intro w hw
        rcases mem_staged.mp hw.1 with ⟨R', hR', hmem⟩
        rw [R'.stamped w hmem]
        exact hstamp R' hR'
      have honly : (∀ s' ∈ R.batch, s'.key = s.key → RowOk before s') ↔ RowOk before s := by
        constructor
        · intro hall
          exact hall s hs rfl
        · intro hok s' hs' hk
          rw [R.eq_of_key hs' hs hk]
          exact hok
      rw [history_staged_concat hrow, honly]
      by_cases hun : Unchanged (land [] before) s
      · -- dropped: only the staged side records it
        rw [history_apply_of_dropped hrow (Or.inl hun),
          agrees_insert_right_iff hsub hid hfresh hagree]
        constructor
        · intro hforce
          exact ⟨fun _ => hforce, fun hnot => absurd hun hnot⟩
        · intro hstep
          exact hstep.1 hun
      · -- inserted: both sides record it
        rw [history_apply_of_inserted hrow hun (not_held_of_fresh hstamp),
          agrees_insert_both_iff (finite_history _ s.key) hsub hid hfresh hagree]
        constructor
        · intro hcover
          exact ⟨fun hdrop => absurd hdrop hun, fun _ => hcover⟩
        · intro hstep
          exact hstep.2 hun

/-- One run keeps the table reading right exactly when all its rows do what
they have to. -/
theorem readsRight_concat_iff (h : (before ++ [R]).Pairwise fun R R' => R.knownAt ≠ R'.knownAt)
    (hright : ReadsRight before) :
    ReadsRight (before ++ [R]) ↔ ∀ s ∈ R.batch, RowOk before s := by
  rcases List.pairwise_append.mp h with ⟨hbefore, -, hlast⟩
  have hR : ∀ R' ∈ before, R'.knownAt ≠ R.knownAt := fun R' hR' =>
    hlast R' hR' R (List.mem_singleton_self R)
  rw [readsRight_iff_agrees hbefore] at hright
  rw [readsRight_iff_agrees h]
  have hkey := fun k => agrees_concat_iff hbefore hR (hright k)
  constructor
  · intro hagree s hs
    exact (hkey s.key).mp (hagree s.key) s hs rfl
  · intro hok k
    exact (hkey k).mpr fun s hs _ => hok s hs

end LandingOrder

/-- For runs of distinct stamps, in whatever order they land: every table on
the way reads right exactly when every staged row, as it lands, is dropped or
inserted as it has to be. -/
theorem readsRight_iff {runs : List Run} (h : runs.Pairwise fun R R' => R.knownAt ≠ R'.knownAt) :
    (∀ before after, runs = before ++ after → ReadsRight before) ↔
      ∀ before R after, runs = before ++ R :: after → ∀ s ∈ R.batch, RowOk before s := by
  have hbefore : ∀ before after, runs = before ++ after →
      before.Pairwise fun R R' => R.knownAt ≠ R'.knownAt := by
    intro before after heq
    rw [heq] at h
    exact (List.pairwise_append.mp h).1
  have hsplit : ∀ before (R : Run) after, before ++ R :: after = before ++ [R] ++ after := by
    intro before R after
    rw [List.append_assoc, List.singleton_append]
  constructor
  · intro hright before R after heq
    rw [hsplit] at heq
    rw [← readsRight_concat_iff (hbefore _ _ heq) (hright before ([R] ++ after) (by simpa using heq))]
    exact hright (before ++ [R]) after heq
  · -- by induction on what has landed
    intro hok before
    induction before using List.reverseRecOn with
    | nil =>
        intro _ _
        rw [readsRight_iff_agrees List.Pairwise.nil]
        exact fun k => Agrees.refl _ _ _
    | append_singleton before R ih =>
        intro after heq
        have heq' : runs = before ++ R :: after := by rw [heq, ← hsplit]
        exact (readsRight_concat_iff (hbefore _ _ heq) (ih _ heq')).mpr (hok before R after heq')

/-- A run stamped 2 that lands after the run stamped 3 and fetched the same. -/
def backdated : List Run := [nuclear 1 100, nuclear 3 200, nuclear 2 200].map Run.single

theorem readsRight_iff_backdated :
    (∀ before after, backdated = before ++ after → ReadsRight before) ↔
      ∀ before R after, backdated = before ++ R :: after → ∀ s ∈ R.batch, RowOk before s :=
  readsRight_iff (by decide)

/-- The late run is dropped, because the newest version held shows what it
shows: at 2 the table still reads what was known at 1. -/
theorem backdated_reads_wrong :
    (asOfKey (land [] backdated) (noonPlus 2) (nuclear 2 200).key).map Row.quantityMw = [100000] ∧
      (lastObserved backdated (noonPlus 2) (nuclear 2 200).key).map Row.quantityMw = some 200000 ∧
      ¬ ReadsRight backdated := by
  have hread : (asOfKey (land [] backdated) (noonPlus 2) (nuclear 2 200).key).map Row.quantityMw
      = [100000] := by decide +kernel
  have hshould : (lastObserved backdated (noonPlus 2) (nuclear 2 200).key).map Row.quantityMw
      = some 200000 := by decide +kernel
  refine ⟨hread, hshould, fun hright => ?_⟩
  have h := hright (noonPlus 2) (nuclear 2 200).key
  rw [hread, hshould] at h
  exact absurd h (by decide)

end Gridlens
