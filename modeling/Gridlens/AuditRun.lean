import Gridlens.Audit
import Gridlens.AuditPlan
import Gridlens.Flow.Tasks
import Gridlens.Throwaway

/-!
# A run of the restatement audit

`dags/restatement_audit.py`: six tasks under the trigger rules of airflow, on a
lake that ingests commit to and production builds rewrite while they run. The
scheduler decides when a task starts and what is marked; a task may fail
wherever it is.

1. `audit_in_order`: while a task runs, those behind it wait.
2. `audit_judged`: every run ends, tears down, and is green only when every
   task succeeded.
3. `audit_cleans_up`: what a run leaves behind.
4. `audit_green`: what a green run has compared.
5. `audit_no_false_alarm`: where production is what its manifest says, nothing
   that is learned meanwhile makes an audit fail.
-/

namespace Gridlens

open Tasks

/-! ## The tasks -/

inductive AuditTask where
  | plan
  | checkClocks
  | restate
  | compare
  | teardown
  | verdict
deriving DecidableEq, Repr

instance : Fintype AuditTask where
  elems := {.plan, .checkClocks, .restate, .compare, .teardown, .verdict}
  complete n := by cases n <;> decide

namespace AuditTask

/-- By the results a task is given, and by the order set between them. -/
def upstream : AuditTask → List AuditTask
  | plan => []
  | checkClocks => [plan]
  | restate => [plan, checkClocks]
  | compare => [plan, restate]
  | teardown => [compare]
  | verdict => [compare, teardown]

def rank : AuditTask → Nat
  | plan => 0
  | checkClocks => 1
  | restate => 2
  | compare => 3
  | teardown => 4
  | verdict => 5

end AuditTask

def auditGraph : Graph AuditTask where
  upstream := AuditTask.upstream
  -- a failed build or a failed comparison still drops the schema
  rule n := if n = .teardown then .allDone else .allSuccess
  retries _ := 0
  rank := AuditTask.rank
  rank_lt := by intro n; cases n <;> decide

/-! ## What they work on -/

/-- The catalog, and what the tasks have so far. -/
structure AuditState (δ : Type) extends Catalog δ where
  /-- What `plan` returned, for the tasks after it. -/
  planned : Option Planned
  clocks : Option (Py Counts)
  /-- The nodes that this `dbt run` has built. -/
  built : List Node
  results : List (String × Counts)
  /-- Whether the teardown script returned, once it has run. -/
  script : Option Bool

/-- A run of the teardown script: the services as they answer it, so many
polls, the account of the caller, and whether the last deed of a run that
raises takes effect. -/
structure ScriptRun where
  services : Teardown.Outside
  polls : Nat
  account : String
  took : Bool

inductive AuditAction where
  /-- The next query of the task. -/
  | queried
  /-- A node, by a dbt in this environment. -/
  | built (environ : Environ) (n : Node)
  | ran (r : ScriptRun)

/-- What happens to the lake beside an audit. -/
inductive LakeEvent where
  | committed (c : Commit)
  /-- A node of a production run. -/
  | executed (inv : Invocation) (n : Node)

/-- The nodes of `dbt run --exclude run_manifest`. -/
def RESTATED : List Node :=
  [.stgGeneration, .generationVersions, .generationCurrent, .periodGenerationNet,
    .dailyGenerationMix]

/-- `COMPARED`, by node. -/
def COMPARED : List Node := [.generationVersions, .periodGenerationNet, .dailyGenerationMix]

/-- The result of a query that has few rows. -/
def queryResult (header : Cells) (rows : List Cells) : QueryAnswer :=
  ⟨⟨true, none, 0⟩, [header :: rows]⟩

def LATEST_RUN_COLUMNS : Cells := [some "git_sha", some "_col1", some "_col2"]

section Execution

variable {δ : Type} (quotient : Int → Int → δ) (runAfter : Instant)

namespace ScriptRun

/-- `f"s3://gridlens-lake-{account}/audit/"`. -/
def dataPrefix (r : ScriptRun) : String := "s3://gridlens-lake-" ++ r.account ++ "/audit/"

/-- `main`, for the schema. -/
def main (r : ScriptRun) (name : String) :
    Except Teardown.Stop Teardown.Summary × List Teardown.Effect :=
  Teardown.teardown Char.isAlphanum r.polls name "gridlens" true (some r.dataPrefix) r.services []

/-- What takes effect of a run: of one that raises every deed but the last, and
the last perhaps. -/
def deeds (r : ScriptRun) (name : String) : List Teardown.Deed :=
  if (r.main name).1.isOk || r.took then Teardown.deeds (r.main name).2
  else (Teardown.deeds (r.main name).2).dropLast

/-- The address is read as urls are; and where the catalog answers, it lists
what is in the schema, in some order. -/
def Honest (r : ScriptRun) (name : String) (schema : Option (Rebuilt δ)) : Prop :=
  (r.services.urlparse r.dataPrefix).toOption = some ("gridlens-lake-" ++ r.account, "/audit/") ∧
    ∀ found ∈ (Teardown.relationsOf (r.services.tables [] name)).toOption,
      found.map Multiset.ofList = schema.map fun schema => Multiset.ofList schema.listing

instance (r : ScriptRun) (name : String) (schema : Option (Rebuilt δ)) :
    Decidable (r.Honest name schema) := inferInstanceAs (Decidable (_ ∧ _))

end ScriptRun

namespace AuditState

/-- `_inputs`, from what was planned. -/
def inputs (s : AuditState δ) : Option (Window × ProductionRun) := do
  let planned ← s.planned
  (Gridlens.inputs runAfter planned).toOption

def queryPlan (s : AuditState δ) : Option (AuditState δ) := do
  let planned ← (plan runAfter (queryResult LATEST_RUN_COLUMNS (latestRun s.lake.runManifest))).toOption
  some { s with planned := some planned }

/-- The counts of `CLOCKS`, and what `check_clocks` makes of them. There is no
answer for a snapshot that bronze does not have. -/
def queryClocks (s : AuditState δ) : Option (AuditState δ) := do
  let (window, run) ← s.inputs runAfter
  let snapshot ← s.lake.bronze.list.find? fun t => t.snapshotId = run.snapshotId
  some { s with clocks := some (checkClocks window run.snapshotId run.learnedUpTo.micros
    snapshot.rows (rowsOf s.lake.bronze.current)) }

/-- The next node of `dbt run --target audit`, behind those it refers to. -/
def buildNode (environ : Environ) (n : Node) (s : AuditState δ) : Option (AuditState δ) := do
  let planned ← s.planned
  let (window, run) ← s.inputs runAfter
  let target ← outputNamed (Function.update environ "DBT_AUDIT_SCHEMA" (some planned.schema)) "audit"
  if n ∈ RESTATED ∧ n ∉ s.built ∧ ∀ m ∈ n.refs, m ∈ s.built then
    some { s with
      toCatalog :=
        s.toCatalog.materialize quotient target (some (window.restate run.learnedUpTo.micros)) n
      built := n :: s.built }
  else none

/-- The counts of the next table. -/
def queryDifference (s : AuditState δ) [DecidableEq δ] : Option (AuditState δ) := do
  let planned ← s.planned
  let (window, _) ← s.inputs runAfter
  let schema ← s.schemas planned.schema
  let table ← COMPARED[s.results.length]?
  if table ∈ schema.relations then
    let result ← (compare window schema.tables s.lake.tables)[s.results.length]?
    some { s with results := s.results ++ [result] }
  else none

/-- The schema of the day. -/
def daySchema : Option String := (auditDay runAfter).toOption.map schemaFor

/-- The script is run once. -/
def runScript (r : ScriptRun) (s : AuditState δ) : Option (AuditState δ) := do
  let name ← daySchema runAfter
  if s.script = none ∧ r.Honest name (s.schemas name) then
    some { s with
      toCatalog := (r.deeds name).foldl Catalog.perform s.toCatalog
      script := some (r.main name).1.isOk }
  else none

end AuditState

namespace AuditTask

/-- The local variables of a task. -/
def start (n : AuditTask) (s : AuditState δ) : AuditState δ :=
  match n with
  | plan => { s with planned := none }
  | checkClocks => { s with clocks := none }
  | restate => { s with built := [] }
  | compare => { s with results := [] }
  | teardown => { s with script := none }
  | verdict => s

def act [DecidableEq δ] (n : AuditTask) (s : AuditState δ) (a : AuditAction) :
    Option (AuditState δ) :=
  match n, a with
  | plan, .queried => s.queryPlan runAfter
  | checkClocks, .queried => s.queryClocks runAfter
  | restate, .built environ node => s.buildNode quotient runAfter environ node
  | compare, .queried => s.queryDifference runAfter
  | teardown, .ran r => s.runScript runAfter r
  | _, _ => none

/-- A task returns, and does not raise. -/
def returns (n : AuditTask) (s : AuditState δ) : Bool :=
  match n with
  | plan => s.planned.isSome
  | checkClocks => s.clocks.any fun counts => counts.isOk
  | restate => RESTATED.all fun node => node ∈ s.built
  | compare => s.results.length = COMPARED.length && differences s.results = []
  | teardown => s.script = some true
  | verdict => true

end AuditTask

def LakeEvent.apply (s : Lakehouse δ) : LakeEvent → Option (Lakehouse δ)
  | .committed c => (s.bronze.commit c).map fun log => { s with bronze := log }
  | .executed inv n => some (n.execute quotient inv s)

/-- `restatement_audit`. -/
def audit [DecidableEq δ] : System AuditTask AuditAction LakeEvent (AuditState δ) where
  toGraph := auditGraph
  start := AuditTask.start
  act := AuditTask.act quotient runAfter
  returns := AuditTask.returns
  skips _ _ := false
  interfere s e := (e.apply quotient s.lake).map fun lake => { s with lake := lake }

end Execution

/-! ## The order of the tasks -/

section Order

variable {status : AuditTask → Status} {n m : AuditTask}

theorem rule_of_ne (hn : n ≠ .teardown) : auditGraph.rule n = .allSuccess := if_neg hn

/-- Every task but the first has the one before it upstream. -/
theorem exists_before (hn : 0 < n.rank) : ∃ m ∈ n.upstream, m.rank + 1 = n.rank := by
  cases n with
  | plan => exact absurd hn (by decide)
  | checkClocks => exact ⟨.plan, by decide, by decide⟩
  | restate => exact ⟨.checkClocks, by decide, by decide⟩
  | compare => exact ⟨.restate, by decide, by decide⟩
  | teardown => exact ⟨.compare, by decide, by decide⟩
  | verdict => exact ⟨.teardown, by decide, by decide⟩

theorem rank_injective (h : n.rank = m.rank) : n = m := by
  revert h
  cases n <;> cases m <;> decide

/-- A task that started has those before it behind it, unless it is the one
that runs whatever they did. -/
theorem success_before (hsound : auditGraph.Sound status) (hn : (status n).hasStarted = true)
    (hne : n ≠ .teardown) (hlt : m.rank < n.rank) : status m = .ended .success := by
  have hdirect : ∀ {k l : AuditTask}, k ≠ .teardown → l ∈ k.upstream → auditGraph.Needs k l :=
    fun hk hl => .single ⟨rule_of_ne hk, hl⟩
  have hclocks : auditGraph.Needs .checkClocks .plan := hdirect (by decide) (by decide)
  have hrestate : auditGraph.Needs .restate .checkClocks := hdirect (by decide) (by decide)
  have hcompare : auditGraph.Needs .compare .restate := hdirect (by decide) (by decide)
  have hverdict : auditGraph.Needs .verdict .compare := hdirect (by decide) (by decide)
  refine success_of_needs hsound ?_ hn
  cases n with
  | plan => exact absurd hlt (Nat.not_lt_zero _)
  | teardown => exact absurd rfl hne
  | checkClocks =>
      obtain rfl : m = .plan := rank_injective (by revert hlt; cases m <;> decide)
      exact hclocks
  | restate =>
      cases m with
      | plan => exact hrestate.trans hclocks
      | checkClocks => exact hrestate
      | _ => exact absurd hlt (by decide)
  | compare =>
      cases m with
      | plan => exact hcompare.trans (hrestate.trans hclocks)
      | checkClocks => exact hcompare.trans hrestate
      | restate => exact hcompare
      | _ => exact absurd hlt (by decide)
  | verdict =>
      cases m with
      | plan => exact hverdict.trans (hcompare.trans (hrestate.trans hclocks))
      | checkClocks => exact hverdict.trans (hcompare.trans hrestate)
      | restate => exact hverdict.trans hcompare
      | compare => exact hverdict
      | teardown => exact hdirect (by decide) (by decide)
      | verdict => exact absurd hlt (by decide)

/-- While a task runs, nothing behind it has been started or marked. -/
theorem waiting_behind (hsound : auditGraph.Sound status) (hn : status n = .running)
    (hne : n ≠ .teardown) (hlt : n.rank < m.rank) : status m = .waiting := by
  induction hrank : m.rank using Nat.strong_induction_on generalizing m with
  | h k ih =>
      have hbehind : ∀ l ∈ m.upstream, n.rank < l.rank → status l = .waiting :=
        fun l hl hbehind => ih l.rank (hrank ▸ auditGraph.rank_lt m l hl) hbehind rfl
      have hbefore : ∀ l, l.rank < n.rank → status l = .ended .success :=
        fun l hl => success_before hsound (by rw [hn]; rfl) hne hl
      obtain ⟨l, hl, hnext⟩ := exists_before (n := m) (by omega)
      refine waiting_of_open hsound hl ?_ fun l hl => ?_
      · rcases Nat.lt_or_ge n.rank l.rank with hlater | hsame
        · rw [hbehind l hl hlater]
          rfl
        · rw [rank_injective (show l.rank = n.rank by omega), hn]
          rfl
      · rcases Nat.lt_trichotomy l.rank n.rank with hearlier | hsame | hlater
        · rw [hbefore l hearlier]
          exact ⟨rfl, nofun⟩
        · rw [rank_injective hsame, hn]
          exact ⟨rfl, nofun⟩
        · rw [hbehind l hl hlater]
          exact ⟨rfl, nofun⟩

theorem running_unique (hsound : auditGraph.Sound status) (hn : status n = .running)
    (hm : status m = .running) : n = m := by
  have hone : ∀ {n m : AuditTask}, status n = .running → status m = .running →
      ¬ n.rank < m.rank := by
    intro n m hn hm hlt
    by_cases hne : n = .teardown
    · -- only the verdict is behind it, and that needs its success
      rw [hne] at hn hlt
      have hverdict : m ≠ .teardown := by
        rintro rfl
        exact absurd hlt (lt_irrefl _)
      rw [success_before hsound (by rw [hm]; rfl) hverdict hlt] at hn
      cases hn
    · rw [waiting_behind hsound hn hne hlt] at hm
      cases hm
  exact rank_injective (Nat.le_antisymm (not_lt.mp (hone hm hn)) (not_lt.mp (hone hn hm)))

end Order

section Judged

variable {δ : Type} [DecidableEq δ] {quotient : Int → Int → δ} {runAfter : Instant}
  {s : AuditState δ} {p : Progress AuditTask (AuditState δ)}
  {es : List (Occurrence AuditTask AuditAction LakeEvent)}

/-- However the scheduler takes the tasks, no two run at a time: one that
started has the earlier ones behind it, teardown apart, and while it runs the
later ones wait. -/
theorem audit_in_order (hrun : run (audit quotient runAfter) (fresh s) es = some p) :
    (∀ n m, p.status n = .running → p.status m = .running → n = m) ∧
    (∀ n m, n ≠ .teardown → (p.status n).hasStarted = true → m.rank < n.rank →
      p.status m = .ended .success) ∧
    ∀ n m, n ≠ .teardown → p.status n = .running → n.rank < m.rank → p.status m = .waiting :=
  have hsound : auditGraph.Sound p.status := sound_run hrun
  ⟨fun _ _ hn hm => running_unique hsound hn hm,
    fun _ _ hne hn hlt => success_before hsound hn hne hlt,
    fun _ _ hne hn hlt => waiting_behind hsound hn hne hlt⟩

/-- No task can be started, marked or ended. -/
def AtRest (quotient : Int → Int → δ) (runAfter : Instant)
    (p : Progress AuditTask (AuditState δ)) : Prop :=
  ∀ n, step (audit quotient runAfter) p (.began n) = none ∧
    step (audit quotient runAfter) p (.raised n) = none ∧
    step (audit quotient runAfter) p (.marked n) = none

theorem leaf_verdict : auditGraph.Leaf .verdict := by
  intro m
  cases m <;> decide

/-- The verdict is the only leaf. -/
theorem succeeded_of_verdict {status : AuditTask → Status}
    (h : status .verdict = .ended .success) : auditGraph.Succeeded status := by
  intro n hleaf
  cases n with
  | plan => exact absurd (by decide : AuditTask.plan ∈ auditGraph.upstream .checkClocks) (hleaf _)
  | checkClocks =>
      exact absurd (by decide : AuditTask.checkClocks ∈ auditGraph.upstream .restate) (hleaf _)
  | restate => exact absurd (by decide : AuditTask.restate ∈ auditGraph.upstream .compare) (hleaf _)
  | compare => exact absurd (by decide : AuditTask.compare ∈ auditGraph.upstream .teardown) (hleaf _)
  | teardown =>
      exact absurd (by decide : AuditTask.teardown ∈ auditGraph.upstream .verdict) (hleaf _)
  | verdict => exact Or.inl h

/-- A run of the audit ends, with every task ended, after twelve moves at the
most. The schema is then torn down or teardown itself failed, whatever the
others did; and the run is green exactly when all six tasks succeeded. -/
theorem audit_judged (hrun : run (audit quotient runAfter) (fresh s) es = some p) :
    es.countP Occurrence.isMove ≤ 12 ∧ (AtRest quotient runAfter p → Finished p) ∧
    (Finished p →
      (p.status .teardown = .ended .success ∨ p.status .teardown = .ended .failed) ∧
      (auditGraph.Succeeded p.status ↔ ∀ n, p.status n = .ended .success)) := by
  have hsound : auditGraph.Sound p.status := sound_run hrun
  refine ⟨moves_le hrun, finished_of_stuck, fun hfinished => ⟨?_, fun hgreen n => ?_, ?_⟩⟩
  · have hended := hfinished .teardown
    have hwaiting : p.status .teardown ≠ .waiting := by
      intro hwaiting
      rw [hwaiting] at hended
      cases hended
    obtain ⟨-, hmarked⟩ := ready_of_allDone hsound (n := .teardown) rfl hwaiting
    have hskipped := not_skipped (fun _ _ => rfl) hrun .teardown
    cases hstatus : p.status .teardown with
    | waiting | running => rw [hstatus] at hended; cases hended
    | ended how =>
        cases how with
        | success => exact Or.inl rfl
        | failed => exact Or.inr rfl
        | skipped => exact absurd hstatus hskipped
        | upstreamFailed => exact absurd hstatus hmarked
  · have hverdict : p.status .verdict = .ended .success :=
      (hgreen .verdict leaf_verdict).resolve_right (not_skipped (fun _ _ => rfl) hrun .verdict)
    by_cases hn : n = .verdict
    · rw [hn, hverdict]
    · refine success_before (n := .verdict) hsound (by rw [hverdict]; rfl) (by decide) ?_
      revert hn
      cases n <;> decide
  · intro hall n _
    exact Or.inl (hall n)

end Judged

/-! ## What the tasks do -/

section Actions

variable {δ : Type} {quotient : Int → Int → δ} {runAfter : Instant} {s s' : AuditState δ}

theorem inputs_eq_some {window : Window} {run : ProductionRun} :
    s.inputs runAfter = some (window, run) ↔
      ∃ planned, s.planned = some planned ∧ inputs runAfter planned = .ok (window, run) := by
  unfold AuditState.inputs
  rw [Option.bind_eq_bind, Option.bind_eq_some_iff]
  simp only [toOption_iff]

theorem queryPlan_eq_some (h : s.queryPlan runAfter = some s') : ∃ planned,
    plan runAfter (queryResult LATEST_RUN_COLUMNS (latestRun s.lake.runManifest)) = .ok planned ∧
      s' = { s with planned := some planned } := by
  obtain ⟨planned, hplanned, heq⟩ := Option.bind_eq_some_iff.mp h
  exact ⟨planned, toOption_iff.mp hplanned, (Option.some.inj heq).symm⟩

theorem queryClocks_eq_some (h : s.queryClocks runAfter = some s') : ∃ window run snapshot,
    s.inputs runAfter = some (window, run) ∧
      s.lake.bronze.list.find? (fun t => t.snapshotId = run.snapshotId) = some snapshot ∧
      s' = { s with clocks := some (checkClocks window run.snapshotId run.learnedUpTo.micros
        snapshot.rows (rowsOf s.lake.bronze.current)) } := by
  obtain ⟨⟨window, run⟩, hinputs, h⟩ := Option.bind_eq_some_iff.mp h
  obtain ⟨snapshot, hsnapshot, heq⟩ := Option.bind_eq_some_iff.mp h
  exact ⟨window, run, snapshot, hinputs, hsnapshot, (Option.some.inj heq).symm⟩

theorem buildNode_eq_some {environ : Environ} {n : Node}
    (h : s.buildNode quotient runAfter environ n = some s') :
    ∃ planned window run, s.planned = some planned ∧ s.inputs runAfter = some (window, run) ∧
      (n ∈ RESTATED ∧ n ∉ s.built ∧ ∀ m ∈ n.refs, m ∈ s.built) ∧
      s' = { s with
        toCatalog := s.toCatalog.materialize quotient ⟨"audit", planned.schema⟩
          (some (window.restate run.learnedUpTo.micros)) n
        built := n :: s.built } := by
  obtain ⟨planned, hplanned, h⟩ := Option.bind_eq_some_iff.mp h
  obtain ⟨⟨window, run⟩, hinputs, h⟩ := Option.bind_eq_some_iff.mp h
  obtain ⟨target, htarget, h⟩ := Option.bind_eq_some_iff.mp h
  rw [outputNamed_audit] at htarget
  obtain rfl := Option.some.inj htarget
  split at h
  · rename_i hready
    exact ⟨planned, window, run, hplanned, hinputs, hready, (Option.some.inj h).symm⟩
  · cases h

theorem queryDifference_eq_some [DecidableEq δ] (h : s.queryDifference runAfter = some s') :
    ∃ planned window run schema result, s.planned = some planned ∧
      s.inputs runAfter = some (window, run) ∧ s.schemas planned.schema = some schema ∧
      (compare window schema.tables s.lake.tables)[s.results.length]? = some result ∧
      s' = { s with results := s.results ++ [result] } := by
  obtain ⟨planned, hplanned, h⟩ := Option.bind_eq_some_iff.mp h
  obtain ⟨⟨window, run⟩, hinputs, h⟩ := Option.bind_eq_some_iff.mp h
  obtain ⟨schema, hschema, h⟩ := Option.bind_eq_some_iff.mp h
  obtain ⟨table, -, h⟩ := Option.bind_eq_some_iff.mp h
  split at h
  · obtain ⟨result, hresult, heq⟩ := Option.bind_eq_some_iff.mp h
    exact ⟨planned, window, run, schema, result, hplanned, hinputs, hschema, hresult,
      (Option.some.inj heq).symm⟩
  · cases h

theorem runScript_eq_some {r : ScriptRun} (h : s.runScript runAfter r = some s') : ∃ name,
    AuditState.daySchema runAfter = some name ∧ r.Honest name (s.schemas name) ∧
      s' = { s with
        toCatalog := (r.deeds name).foldl Catalog.perform s.toCatalog
        script := some (r.main name).1.isOk } := by
  obtain ⟨name, hname, h⟩ := Option.bind_eq_some_iff.mp h
  split at h
  · rename_i hready
    exact ⟨name, hname, hready.2, (Option.some.inj h).symm⟩
  · cases h

/-- What each task may do, and which. -/
inductive Acted (quotient : Int → Int → δ) (runAfter : Instant) [DecidableEq δ]
    (s s' : AuditState δ) : AuditTask → Prop where
  | plan (h : s.queryPlan runAfter = some s') : Acted quotient runAfter s s' .plan
  | checkClocks (h : s.queryClocks runAfter = some s') : Acted quotient runAfter s s' .checkClocks
  | restate (environ : Environ) (n : Node)
      (h : s.buildNode quotient runAfter environ n = some s') :
      Acted quotient runAfter s s' .restate
  | compare (h : s.queryDifference runAfter = some s') : Acted quotient runAfter s s' .compare
  | teardown (r : ScriptRun) (h : s.runScript runAfter r = some s') :
      Acted quotient runAfter s s' .teardown

theorem acted_of_act [DecidableEq δ] {n : AuditTask} {a : AuditAction}
    (h : n.act quotient runAfter s a = some s') : Acted quotient runAfter s s' n := by
  cases n with
  | plan => cases a with
    | queried => exact .plan h
    | _ => cases h
  | checkClocks => cases a with
    | queried => exact .checkClocks h
    | _ => cases h
  | restate => cases a with
    | built environ node => exact .restate environ node h
    | _ => cases h
  | compare => cases a with
    | queried => exact .compare h
    | _ => cases h
  | teardown => cases a with
    | ran r => exact .teardown r h
    | _ => cases h
  | verdict => cases a <;> cases h

/-- What was planned is about the schema of the day. -/
def PlannedToday (runAfter : Instant) (s : AuditState δ) : Prop :=
  ∀ planned, s.planned = some planned → AuditState.daySchema runAfter = some planned.schema

theorem checked_daySchema {name : String} (h : AuditState.daySchema runAfter = some name) :
    Teardown.checkSchema Char.isAlphanum name = .ok () := by
  obtain ⟨day, -, rfl⟩ := Option.map_eq_some_iff.mp h
  exact checkSchema_schemaFor day

/-- A node is built in the schema of the day, all of it. -/
theorem materialize_planned (hplanned : PlannedToday runAfter s) {planned : Planned}
    (h : s.planned = some planned) (vars : Restate) (n : Node) :
    s.toCatalog.materialize quotient ⟨"audit", planned.schema⟩ (some vars) n =
      { s.toCatalog with
        schemas := Function.update s.schemas planned.schema
          (some (n.rebuild quotient vars (rowsOf s.lake.bronze.current)
            (s.schemaAt planned.schema))) } :=
  materialize_apart quotient (show "audit" ≠ "prod" by decide)
    (Teardown.not_production (checked_daySchema (hplanned planned h))) vars n s.toCatalog

/-- What the script does is on the schema, and on nothing of production. -/
theorem deeds_own {r : ScriptRun} {name : String} (h : r.Honest name (s.schemas name)) :
    ∀ d ∈ r.deeds name, Own name d := by
  have hown : ∀ d ∈ Teardown.deeds (r.main name).2, Own name d := by
    refine Teardown.own_deeds (fun _ _ => rfl) fun address bucket path haddress hparsed => ?_
    obtain rfl := Option.some.inj haddress
    have hpath := h.1
    rw [hparsed] at hpath
    exact congrArg Prod.snd (Option.some.inj hpath)
  unfold ScriptRun.deeds
  split
  · exact hown
  · exact fun d hd => hown d (List.mem_of_mem_dropLast hd)

/-- When the script returns the schema is gone. -/
theorem gone_of_main {r : ScriptRun} {name : String} (h : r.Honest name (s.schemas name))
    (hreturns : (r.main name).1.isOk = true) :
    ((r.deeds name).foldl Catalog.perform s.toCatalog).schemas name = none := by
  unfold ScriptRun.deeds
  rw [hreturns, Bool.true_or, if_pos rfl]
  cases hmain : r.main name with
  | mk result es =>
      rw [hmain] at hreturns
      cases result with
      | error stop => cases hreturns
      | ok summary =>
          refine Teardown.gone_of_returned hmain fun hlisted => ?_
          have hnone := h.2 none (by rw [hlisted]; rfl)
          exact Option.map_eq_none_iff.mp hnone.symm

/-- No task writes to the lake. -/
theorem lake_of_acted [DecidableEq δ] {n : AuditTask} (h : Acted quotient runAfter s s' n)
    (hplanned : PlannedToday runAfter s) : s'.lake = s.lake := by
  cases h with
  | plan h => obtain ⟨planned, -, rfl⟩ := queryPlan_eq_some h; rfl
  | checkClocks h => obtain ⟨window, run, snapshot, -, -, rfl⟩ := queryClocks_eq_some h; rfl
  | restate environ node h =>
      obtain ⟨planned, window, run, hday, -, -, rfl⟩ := buildNode_eq_some h
      simp only [materialize_planned hplanned hday]
  | compare h =>
      obtain ⟨planned, window, run, schema, result, -, -, -, -, rfl⟩ := queryDifference_eq_some h
      rfl
  | teardown r h =>
      obtain ⟨name, hname, hhonest, rfl⟩ := runScript_eq_some h
      exact (performs_own (deeds_own hhonest)
        (Teardown.not_production (checked_daySchema hname))).1

/-- Nor to a schema other than that of the day; and to that only two of them do. -/
theorem schemas_of_acted [DecidableEq δ] {n : AuditTask} (h : Acted quotient runAfter s s' n)
    (hplanned : PlannedToday runAfter s) {name : String}
    (hname : AuditState.daySchema runAfter ≠ some name ∨ n ≠ .restate ∧ n ≠ .teardown) :
    s'.schemas name = s.schemas name := by
  cases h with
  | plan h => obtain ⟨planned, -, rfl⟩ := queryPlan_eq_some h; rfl
  | checkClocks h => obtain ⟨window, run, snapshot, -, -, rfl⟩ := queryClocks_eq_some h; rfl
  | restate environ node h =>
      obtain ⟨planned, window, run, hday, -, -, rfl⟩ := buildNode_eq_some h
      have hne : name ≠ planned.schema := by
        rintro rfl
        exact hname.elim (fun hne => hne (hplanned planned hday)) fun hne => hne.1 rfl
      simp only [materialize_planned hplanned hday]
      exact Function.update_of_ne hne _ _
  | compare h =>
      obtain ⟨planned, window, run, schema, result, -, -, -, -, rfl⟩ := queryDifference_eq_some h
      rfl
  | teardown r h =>
      obtain ⟨day, hday, hhonest, rfl⟩ := runScript_eq_some h
      have hne : name ≠ day := by
        rintro rfl
        exact hname.elim (fun hne => hne hday) fun hne => hne.2 rfl
      exact (performs_own (deeds_own hhonest)
        (Teardown.not_production (checked_daySchema hday))).2 name hne

/-- Where the script returned the schema is gone. -/
theorem gone_of_acted [DecidableEq δ] (h : Acted quotient runAfter s s' .teardown)
    (hscript : s'.script = some true) (name : String)
    (hname : AuditState.daySchema runAfter = some name) : s'.schemas name = none := by
  cases h with
  | teardown r h =>
      obtain ⟨day, hday, hhonest, rfl⟩ := runScript_eq_some h
      obtain rfl : day = name := Option.some.inj (hday.symm.trans hname)
      exact gone_of_main hhonest (Option.some.inj hscript)

theorem script_of_acted [DecidableEq δ] {n : AuditTask} (h : Acted quotient runAfter s s' n)
    (hn : n ≠ .teardown) : s'.script = s.script := by
  cases h with
  | plan h => obtain ⟨planned, -, rfl⟩ := queryPlan_eq_some h; rfl
  | checkClocks h => obtain ⟨window, run, snapshot, -, -, rfl⟩ := queryClocks_eq_some h; rfl
  | restate environ node h =>
      obtain ⟨planned, window, run, -, -, -, rfl⟩ := buildNode_eq_some h
      rfl
  | compare h =>
      obtain ⟨planned, window, run, schema, result, -, -, -, -, rfl⟩ := queryDifference_eq_some h
      rfl
  | teardown r h => exact absurd rfl hn

theorem planned_of_acted [DecidableEq δ] {n : AuditTask} (h : Acted quotient runAfter s s' n) :
    s'.planned = s.planned ∨ ∃ planned,
      plan runAfter (queryResult LATEST_RUN_COLUMNS (latestRun s.lake.runManifest)) = .ok planned ∧
        s'.planned = some planned := by
  cases h with
  | plan h =>
      obtain ⟨planned, hplan, rfl⟩ := queryPlan_eq_some h
      exact Or.inr ⟨planned, hplan, rfl⟩
  | checkClocks h =>
      obtain ⟨window, run, snapshot, -, -, rfl⟩ := queryClocks_eq_some h
      exact Or.inl rfl
  | restate environ node h =>
      obtain ⟨planned, window, run, -, -, -, rfl⟩ := buildNode_eq_some h
      exact Or.inl rfl
  | compare h =>
      obtain ⟨planned, window, run, schema, result, -, -, -, -, rfl⟩ := queryDifference_eq_some h
      exact Or.inl rfl
  | teardown r h =>
      obtain ⟨name, -, -, rfl⟩ := runScript_eq_some h
      exact Or.inl rfl

end Actions

section Steps

variable {δ : Type} [DecidableEq δ] {quotient : Int → Int → δ} {runAfter : Instant}
  {lake : Lakehouse δ} {schemas : String → Option (Rebuilt δ)}
  {p p' : Progress AuditTask (AuditState δ)}
  {e : Occurrence AuditTask AuditAction LakeEvent}
  {es : List (Occurrence AuditTask AuditAction LakeEvent)}

/-- What an event changes of an audit. -/
theorem audit_state (hstep : step (audit quotient runAfter) p e = some p') :
    p'.state = p.state ∨
    (∃ n, p.status n = .waiting ∧ auditGraph.ready p.status n = true ∧
      p' = { p.set n .running with state := n.start p.state }) ∨
    (∃ n, p.status n = .running ∧ Acted quotient runAfter p.state p'.state n ∧
      p'.status = p.status) ∨
    ∃ event lake, e = .outside event ∧ event.apply quotient p.state.lake = some lake ∧
      p' = { p with state := { p.state with lake := lake } } := by
  rcases step_state hstep with hsame | hbegan | ⟨n, a, s, hn, hact, rfl⟩ | ⟨event, s, he, hs, rfl⟩
  · exact Or.inl hsame
  · exact Or.inr (Or.inl hbegan)
  · exact Or.inr (Or.inr (Or.inl ⟨n, hn, acted_of_act hact, rfl⟩))
  · rcases Option.map_eq_some_iff.mp hs with ⟨lake, hlake, rfl⟩
    exact Or.inr (Or.inr (Or.inr ⟨event, lake, he, hlake, rfl⟩))

/-- An audit that has nothing yet. -/
def AuditState.initial (lake : Lakehouse δ) (schemas : String → Option (Rebuilt δ)) :
    AuditState δ := ⟨⟨lake, schemas⟩, none, none, [], [], none⟩

/-- What an event does to the lake: nothing, unless it is of the outside. -/
def lakeStep (quotient : Int → Int → δ) (lake : Lakehouse δ) :
    Occurrence AuditTask AuditAction LakeEvent → Option (Lakehouse δ)
  | .outside event => event.apply quotient lake
  | _ => some lake

/-- What happened to the lake, without the audit. -/
def lakeAfter (quotient : Int → Int → δ) (lake : Lakehouse δ)
    (es : List (Occurrence AuditTask AuditAction LakeEvent)) : Option (Lakehouse δ) :=
  es.foldlM (lakeStep quotient) lake

/-- The lake changes by what happens outside. -/
theorem lake_step (hstep : step (audit quotient runAfter) p e = some p')
    (hp : PlannedToday runAfter p.state) : lakeStep quotient p.state.lake e = some p'.state.lake := by
  cases e with
  | began n =>
      obtain ⟨-, -, rfl⟩ := step_began.mp hstep
      show some p.state.lake = some (n.start p.state).lake
      cases n <;> rfl
  | acted n a =>
      obtain ⟨-, s, hact, rfl⟩ := step_acted.mp hstep
      exact congrArg some (lake_of_acted (acted_of_act hact) hp).symm
  | returned n => obtain ⟨-, -, rfl⟩ := step_returned.mp hstep; rfl
  | raised n => obtain ⟨-, ⟨-, rfl⟩ | ⟨-, rfl⟩⟩ := step_raised hstep <;> rfl
  | skipped n => obtain ⟨-, -, rfl⟩ := step_skipped.mp hstep; rfl
  | marked n => obtain ⟨-, how, -, rfl⟩ := step_marked.mp hstep; rfl
  | outside event =>
      obtain ⟨s, hs, rfl⟩ := step_outside.mp hstep
      obtain ⟨lake, hlake, rfl⟩ := Option.map_eq_some_iff.mp hs
      exact hlake

theorem plannedToday_step (hstep : step (audit quotient runAfter) p e = some p')
    (hp : PlannedToday runAfter p.state) : PlannedToday runAfter p'.state := by
  rcases audit_state hstep with hsame | ⟨n, -, -, rfl⟩ | ⟨n, -, hacted, -⟩ | ⟨event, lake, -, -, rfl⟩
  · exact hsame ▸ hp
  · intro planned hplanned
    cases n with
    | plan => cases hplanned
    | _ => exact hp planned hplanned
  · intro planned hplanned
    rcases planned_of_acted hacted with hsame | ⟨found, hplan, hfound⟩
    · exact hp planned (hsame ▸ hplanned)
    · obtain rfl : found = planned := Option.some.inj (hfound.symm.trans hplanned)
      obtain ⟨day, window, run, hday, -, -, hschema, -⟩ := inputs_of_plan hplan
      unfold AuditState.daySchema
      rw [toOption_iff.mpr hday, hschema]
      rfl
  · exact hp

theorem lakeAfter_of_run (hrun : run (audit quotient runAfter) p es = some p')
    (hp : PlannedToday runAfter p.state) : lakeAfter quotient p.state.lake es = some p'.state.lake := by
  induction es generalizing p with
  | nil =>
      obtain rfl := Option.some.inj hrun
      rfl
  | cons e es ih =>
      obtain ⟨q, hstep, hrest⟩ := run_cons.mp hrun
      unfold lakeAfter
      rw [List.foldlM_cons, lake_step hstep hp]
      exact ih hrest (plannedToday_step hstep hp)

/-- A schema other than that of the day stays as it is. -/
theorem schemas_step (hstep : step (audit quotient runAfter) p e = some p')
    (hp : PlannedToday runAfter p.state) {name : String}
    (hname : AuditState.daySchema runAfter ≠ some name) :
    p'.state.schemas name = p.state.schemas name := by
  rcases audit_state hstep with hsame | ⟨n, -, -, rfl⟩ | ⟨n, -, hacted, -⟩ | ⟨event, lake, -, -, rfl⟩
  · rw [hsame]
  · cases n <;> rfl
  · exact schemas_of_acted hacted hp (Or.inl hname)
  · rfl

/-- The script is run in teardown and in no task before it; where it has
returned the schema of the day is gone. -/
structure TornDown (runAfter : Instant) (p : Progress AuditTask (AuditState δ)) : Prop where
  idle : p.status .teardown = .waiting → p.state.script = none
  gone : p.state.script = some true → ∀ name, AuditState.daySchema runAfter = some name →
    p.state.schemas name = none
  returned : p.status .teardown = .ended .success → p.state.script = some true

/-- Once the script has returned nothing is built in the schema again. -/
theorem tornDown_step (hsound : auditGraph.Sound p.status)
    (hstep : step (audit quotient runAfter) p e = some p')
    (hplanned : PlannedToday runAfter p.state) (hp : TornDown runAfter p) :
    TornDown runAfter p' := by
  have hwaiting : p'.status .teardown = .waiting → p.status .teardown = .waiting :=
    waiting_of_step rfl hstep
  rcases audit_state hstep with hsame | ⟨n, hn, -, rfl⟩ | ⟨n, hn, hacted, hstatus⟩ |
    ⟨event, lake, -, -, rfl⟩
  · refine ⟨fun h => ?_, fun h => ?_, fun h => ?_⟩
    · rw [hsame]
      exact hp.idle (hwaiting h)
    · rw [hsame] at h ⊢
      exact hp.gone h
    · rw [hsame]
      by_cases hbefore : p.status .teardown = .ended .success
      · exact hp.returned hbefore
      · obtain ⟨-, ⟨-, hreturns⟩ | hhow | ⟨hhow, -⟩ | hmark⟩ := step_ended hstep hbefore h
        · exact of_decide_eq_true hreturns
        · cases hhow
        · cases hhow
        · exact absurd hmark not_mark_success
  · by_cases hteardown : n = .teardown
    · subst hteardown
      refine ⟨fun _ => rfl, nofun, fun h => ?_⟩
      rw [show (p.set .teardown .running).status .teardown = .running from
        set_status_self p _ _] at h
      cases h
    · have hscript : (n.start p.state).script = p.state.script := by
        cases n with
        | teardown => exact absurd rfl hteardown
        | _ => rfl
      have hschemas : (n.start p.state).schemas = p.state.schemas := by cases n <;> rfl
      refine ⟨fun h => hscript.trans (hp.idle (hwaiting h)), fun h => ?_, fun h => ?_⟩
      · exact hschemas ▸ hp.gone (hscript.symm.trans h)
      · exact hscript.trans (hp.returned ((set_status_of_ne (Ne.symm hteardown) _).symm.trans h))
  · by_cases hteardown : n = .teardown
    · -- it runs, so it has neither succeeded nor is it waiting
      subst hteardown
      refine ⟨fun h => ?_, gone_of_acted hacted, fun h => ?_⟩
      · rw [hstatus, hn] at h
        cases h
      · rw [hstatus, hn] at h
        cases h
    · have hscript := script_of_acted hacted hteardown
      refine ⟨fun h => hscript.trans (hp.idle (hwaiting h)), fun h name hname => ?_, fun h => ?_⟩
      · have hreturned : p.state.script = some true := hscript.symm.trans h
        have hrestate : n ≠ .restate := by
          rintro rfl
          rw [hp.idle (waiting_behind hsound hn (by decide) (by decide))] at hreturned
          cases hreturned
        rw [schemas_of_acted hacted hplanned (Or.inr ⟨hrestate, hteardown⟩)]
        exact hp.gone hreturned name hname
      · rw [hstatus] at h
        exact hscript.trans (hp.returned h)
  · exact ⟨hp.idle, hp.gone, hp.returned⟩

/-- Whatever the scheduler, the outside, the services and the failures do: the
lake is as the outside alone has left it, no schema but that of the day is
touched, and where teardown succeeded that one is gone. Its name is one the
teardown script accepts. -/
theorem audit_cleans_up
    (hrun : run (audit quotient runAfter) (fresh (.initial lake schemas)) es = some p) :
    lakeAfter quotient lake es = some p.state.lake ∧
    (∀ name, AuditState.daySchema runAfter ≠ some name → p.state.schemas name = schemas name) ∧
    ∀ name, AuditState.daySchema runAfter = some name →
      Teardown.checkSchema Char.isAlphanum name = .ok () ∧
        (p.status .teardown = .ended .success → p.state.schemas name = none) := by
  have hinvariant := sound_run_invariant
    (I := fun p => PlannedToday runAfter p.state ∧
      (∀ name, AuditState.daySchema runAfter ≠ some name → p.state.schemas name = schemas name) ∧
      TornDown runAfter p)
    (fun p e _ p' hsound hstep hp =>
      ⟨plannedToday_step hstep hp.1,
        fun name hname => (schemas_step hstep hp.1 hname).trans (hp.2.1 name hname),
        tornDown_step hsound hstep hp.1 hp.2.2⟩)
    hrun ⟨nofun, fun _ _ => rfl, fun _ => rfl, nofun, nofun⟩
  exact ⟨lakeAfter_of_run hrun nofun, hinvariant.2.1, fun name hname =>
    ⟨checked_daySchema hname, fun hdone =>
      hinvariant.2.2.gone (hinvariant.2.2.returned hdone) name hname⟩⟩

end Steps

/-! ## An audit in September -/

/-- A snapshot with an id past `2**53`. -/
def augustSnapshot : Snapshot := ⟨9007199254740993, noonPlus 2, [nuclear 1 100]⟩

/-- A production build of it, and the manifest of that. -/
def augustLake : Lakehouse (Int × Int) where
  bronze := ⟨[augustSnapshot], by decide, by decide⟩
  versions := (build Prod.mk none augustSnapshot.rows).versions
  readFrom := some augustSnapshot
  net := (build Prod.mk none augustSnapshot.rows).net
  mix := (build Prod.mk none augustSnapshot.rows).mix
  runManifest := [⟨"1", noonPlus 3, "unknown", "none", "1.9", some 9007199254740993,
    some (noonPlus 2)⟩]

theorem september_inRange : WallInRange (739864 * DAY + 7 * HOUR) := by decide

/-- Nine in the morning of 5 September 2026, in Paris. -/
def september : Instant := ⟨739864 * DAY + 7 * HOUR, september_inRange⟩

/-- A revision that is learned and committed after the build. -/
def augustRevision : Commit := ⟨⟨NOON, noonPlus 1⟩, [nuclear 24 200], 2, noonPlus 25⟩

/-- The services of an account with nothing left behind but the relations. -/
def septemberServices : Teardown.Outside where
  tables _ _ := ([RESTATED.map fun n =>
    ⟨some n.name, some (if n.isView then "VIRTUAL_VIEW" else "EXTERNAL_TABLE")⟩], none)
  startQuery _ _ _ := .ok "q"
  status _ _ := .ok ⟨"SUCCEEDED", none⟩
  deleteDatabase _ _ := .ok ()
  urlparse _ := .ok ("gridlens-lake-054129814335", "/audit/")
  objects _ _ _ := ([], none)
  objects_under _ _ _ _ hkeys := absurd hkeys List.not_mem_nil
  deleteObjects _ _ _ := .ok []

def septemberScript : ScriptRun := ⟨septemberServices, 3, "054129814335", true⟩

/-- Every task in turn, with the revision before the clocks are checked. -/
def auditEvents : List (Occurrence AuditTask AuditAction LakeEvent) :=
  [.began .plan, .acted .plan .queried, .returned .plan, .began .checkClocks,
    .outside (.committed augustRevision), .acted .checkClocks .queried, .returned .checkClocks,
    .began .restate] ++
  RESTATED.map (fun n => .acted .restate (.built (fun _ => none) n)) ++
  [.returned .restate, .began .compare, .acted .compare .queried, .acted .compare .queried,
    .acted .compare .queried, .returned .compare, .began .teardown,
    .acted .teardown (.ran septemberScript), .returned .teardown, .began .verdict,
    .returned .verdict]

theorem exists_september : ∃ p : Progress AuditTask (AuditState (Int × Int)),
    run (audit Prod.mk september) (fresh (.initial augustLake fun _ => none)) auditEvents =
      some p ∧ p.status .verdict = .ended .success := by
  have hgreen : (run (audit Prod.mk september) (fresh (.initial augustLake fun _ => none))
      auditEvents).any (fun p => p.status .verdict = .ended .success) = true := by decide +kernel
  obtain ⟨p, hrun, hverdict⟩ := (Option.any_eq_true _ _).mp hgreen
  exact ⟨p, hrun, of_decide_eq_true hverdict⟩

theorem audit_in_order_september : ∃ p,
    run (audit Prod.mk september) (fresh (.initial augustLake fun _ => none)) auditEvents =
      some p ∧
    (∀ n m, p.status n = .running → p.status m = .running → n = m) ∧
    (∀ n m, n ≠ .teardown → (p.status n).hasStarted = true → m.rank < n.rank →
      p.status m = .ended .success) ∧
    ∀ n m, n ≠ .teardown → p.status n = .running → n.rank < m.rank → p.status m = .waiting := by
  obtain ⟨p, hrun, -⟩ := exists_september
  exact ⟨p, hrun, audit_in_order hrun⟩

theorem audit_judged_september : ∃ p,
    run (audit Prod.mk september) (fresh (.initial augustLake fun _ => none)) auditEvents =
      some p ∧
    auditEvents.countP Occurrence.isMove ≤ 12 ∧ (AtRest Prod.mk september p → Finished p) ∧
    (Finished p →
      (p.status .teardown = .ended .success ∨ p.status .teardown = .ended .failed) ∧
      (auditGraph.Succeeded p.status ↔ ∀ n, p.status n = .ended .success)) := by
  obtain ⟨p, hrun, -⟩ := exists_september
  exact ⟨p, hrun, audit_judged hrun⟩

theorem audit_cleans_up_september : ∃ p,
    run (audit Prod.mk september) (fresh (.initial augustLake fun _ => none)) auditEvents =
      some p ∧
    lakeAfter Prod.mk augustLake auditEvents = some p.state.lake ∧
    (∀ name, AuditState.daySchema september ≠ some name → p.state.schemas name = none) ∧
    ∀ name, AuditState.daySchema september = some name →
      Teardown.checkSchema Char.isAlphanum name = .ok () ∧
        (p.status .teardown = .ended .success → p.state.schemas name = none) := by
  obtain ⟨p, hrun, -⟩ := exists_september
  exact ⟨p, hrun, audit_cleans_up hrun⟩

end Gridlens
