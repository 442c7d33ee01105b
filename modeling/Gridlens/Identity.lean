import Gridlens.Calls

/-!
# One row for each bitemporal identity

Bronze has no unique index: that no two rows share an identity rests on the
merge alone. The merge compares staged rows with held rows, and only inside
its window. It does not compare staged rows with each other, and a row staged
outside the window is compared with nothing. `bronze_identified_iff` says that
these two gaps are all there is: over any sequence of calls, identities stay
distinct exactly as long as no merge falls into one of them.

Where the documents are orderly, distinct rows inside the day they were fetched
for, the jobs do to bronze what a sequence of runs does (`exists_land`), and
what is proved of runs is true of the jobs.
-/

namespace Gridlens

open Effects

/-! ## One merge -/

/-- The merge would insert this staged row. -/
abbrev Fresh (W : MergeWindow) (T : List Row) (s : Row) : Prop :=
  W.contains s.validTime = true → ¬ Unchanged T s ∧ ¬ Held T s

/-- A batch that falls into neither gap. -/
structure Clean (W : MergeWindow) (S T : List Row) : Prop where
  /-- No row outside the window has an identity that is held. -/
  outside : ∀ s ∈ S, W.contains s.validTime = false → ¬ Held T s
  /-- No two rows of one identity would both be inserted. -/
  apart : S.Pairwise fun a b => a.identity = b.identity → ¬ (Fresh W T a ∧ Fresh W T b)

/-- A merge keeps identities distinct exactly when its batch is clean. -/
theorem identified_merge_iff {W : MergeWindow} {S T : List Row} (hT : Identified T) :
    Identified (merge W S T) ↔ Clean W S T := by
  -- among the inserted rows
  have hfresh : (S.filter fun s => Fresh W T s).Pairwise (fun a b => a.identity ≠ b.identity) ↔
      S.Pairwise fun a b => a.identity = b.identity → ¬ (Fresh W T a ∧ Fresh W T b) := by
    rw [List.pairwise_filter]
    apply iff_of_eq
    congr 1
    funext a b
    simp only [decide_eq_true_eq]
    exact propext ⟨fun h hid hab => h hab.1 hab.2 hid, fun h ha hb hid => h hid ⟨ha, hb⟩⟩
  rw [Identified, merge_eq, List.map_append, List.nodup_append]
  show _ ∧ List.Pairwise (· ≠ ·) _ ∧ _ ↔ _
  rw [List.pairwise_map, hfresh]
  constructor
  · intro h
    rcases h with ⟨-, hapart, hdisjoint⟩
    refine ⟨fun s hs hW hheld => ?_, hapart⟩
    have hmem : s ∈ S.filter fun s => Fresh W T s :=
      List.mem_filter.mpr ⟨hs, decide_eq_true fun hin => by rw [hW] at hin; cases hin⟩
    exact hdisjoint s.identity hheld s.identity (List.mem_map_of_mem hmem) rfl
  · intro hclean
    refine ⟨hT, hclean.apart, fun i hi j hj hij => ?_⟩
    rcases List.mem_map.mp hj with ⟨s, hs, rfl⟩
    rcases List.mem_filter.mp hs with ⟨hsS, hsfresh⟩
    -- an inserted row inside the window is not held; outside, nothing checked
    rw [hij] at hi
    cases hW : W.contains s.validTime with
    | false => exact hclean.outside s hsS hW hi
    | true => exact ((of_decide_eq_true hsfresh) hW).2 hi

/-! ## A run of the system -/

/-- The effect is no merge into this database that takes effect, or its batch
is clean. -/
def CleanStep (database : String) (s : Store) : Effect → Prop
  | .merged database' _ batchId W outcome =>
      database' = database ∧ outcome.committed = true → Clean W (s.batch batchId) s.bronze
  | _ => True

theorem identified_step_iff {database : String} {s : Store} (hs : Identified s.bronze)
    (e : Effect) : Identified (s.step database e).bronze ↔ CleanStep database s e := by
  rw [Store.step_bronze]
  cases e with
  | merged database' _ batchId W outcome =>
      simp only [CleanStep]
      split
      · rename_i hcommit
        rw [identified_merge_iff hs]
        exact ⟨fun h _ => h, fun h => h hcommit⟩
      · rename_i hcommit
        exact ⟨fun _ h => absurd h hcommit, fun _ => hs⟩
  | _ => exact ⟨fun _ => trivial, fun _ => hs⟩

/-- Whatever is called and whatever the outside answers: every table bronze
goes through has distinct identities if and only if every merge that takes
effect has a clean batch. -/
theorem bronze_identified_iff (o : Outside) (calls : List Call) (database : String) :
    (∀ h, h <+: runAll o calls → Identified (bronze database h)) ↔
      ∀ h e, h ++ [e] <+: runAll o calls → CleanStep database (store database h) e := by
  have hstep : ∀ (s : Store) e, Identified s.bronze →
      (Identified (s.step database e).bronze ↔ CleanStep database s e) :=
    fun _ e hs => identified_step_iff hs e
  exact @forall_prefix_iff _ _ _ (fun s : Store => Identified s.bronze) _ _ identified_nil hstep _

/-- A document that gives one series twice is staged and merged whole. -/
theorem repeated_series_held_twice :
    ¬ Identified (bronze "gridlens_bronze" (runAll (smallOutside ["100", "200"]) [smallIngest])) := by
  decide +kernel

/-! ## Runs of well-behaved documents -/

/-- The document's rows are distinct and lie inside the day it was fetched for. -/
def Orderly (o : Outside) : Effect → Prop
  | .fetched _ start stop (.ok fetched) => ∀ knownAt result,
      o.gate fetched.body knownAt = .ok result →
        Identified (result.records.map stagedRow) ∧
          ∀ s ∈ result.records.map stagedRow,
            MergeWindow.contains ⟨start.micros, stop.micros⟩ s.validTime = true
  | _ => True

/-- A merge of an orderly document is a run. -/
theorem step_eq_apply {o : Outside} {h : Trace} {e : Effect} (database : String)
    (horderly : ∀ e ∈ h, Orderly o e) (hgated : Gated o h e) :
    bronze database (h ++ [e]) = bronze database h ∨
      ∃ R : Run, bronze database (h ++ [e]) = R.apply (bronze database h) := by
  rw [bronze, store_concat, Store.step_bronze]
  cases e with
  | merged database' workgroup batchId W outcome =>
      rcases hgated with ⟨_, _, start, stop, code, fetched, knownAt, result, -, rfl, hf, hg, hbatch⟩
      have hrows := horderly _ hf knownAt result hg
      simp only
      split
      · right
        -- the gate stamped every record with the one known_at of the call
        refine ⟨⟨_, knownAt.wall, (store database h).batch batchId, ?_, ?_, ?_⟩, rfl⟩
        all_goals rw [hbatch database]
        · intro s hs
          rcases List.mem_map.mp hs with ⟨r, hr, rfl⟩
          rcases bind_eq_ok.mp hg with ⟨document, -, hgate⟩
          exact stamped_applyGate hgate r hr
        · exact hrows.2
        · exact hrows.1
      · exact Or.inl rfl
  | _ => exact Or.inl rfl

/-- Where every document is orderly, the calls do to bronze what a sequence of
runs does. -/
theorem exists_land {o : Outside} {calls : List Call} (database : String)
    (horderly : ∀ e ∈ runAll o calls, Orderly o e) {h : Trace} (hpre : h <+: runAll o calls) :
    ∃ runs, bronze database h = land [] runs := by
  induction h using List.reverseRecOn with
  | nil => exact ⟨[], rfl⟩
  | append_singleton h e ih =>
      have hbefore : h <+: runAll o calls := (List.prefix_append h [e]).trans hpre
      rcases ih hbefore with ⟨runs, hruns⟩
      have hstep := step_eq_apply database (fun e' he' => horderly e' (hbefore.subset he'))
        ((merges_gated o calls).at hpre)
      rcases hstep with hsame | ⟨R, hR⟩
      · exact ⟨runs, hsame.trans hruns⟩
      · refine ⟨runs ++ [R], ?_⟩
        rw [land_concat, ← hruns]
        exact hR

/-- And identities stay distinct. -/
theorem bronze_identified_of_orderly {o : Outside} {calls : List Call} (database : String)
    (horderly : ∀ e ∈ runAll o calls, Orderly o e) {h : Trace} (hpre : h <+: runAll o calls) :
    Identified (bronze database h) := by
  rcases exists_land database horderly hpre with ⟨runs, hruns⟩
  rw [hruns]
  exact identified_land identified_nil runs

end Gridlens
