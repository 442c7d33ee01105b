import Gridlens.AuditRun

/-!
# What the verdict of an audit means

A run compares what it rebuilt from bronze as it stood when `restate` read it
with production as it stands when `compare` reads that. Where production is not
rebuilt meanwhile these are two tables each, fixed for the whole run
(`audit_green`). Ingests that commit meanwhile do not come into it: where
production is what its manifest says, and what is committed was learned later,
neither check ever raises (`audit_no_false_alarm`).
-/

namespace Gridlens

open Sql Tasks

section Verdict

variable {δ : Type} {quotient : Int → Int → δ} {runAfter : Instant}
  {lake lake' : Lakehouse δ} {window window' : Window} {run run' : ProductionRun}

/-- What an audit of this lake is about. -/
def Audits (runAfter : Instant) (lake : Lakehouse δ) (window : Window) (run : ProductionRun) :
    Prop :=
  ∃ planned, plan runAfter (queryResult LATEST_RUN_COLUMNS (latestRun lake.runManifest)) =
    .ok planned ∧ inputs runAfter planned = .ok (window, run)

theorem Audits.unique (h : Audits runAfter lake window run)
    (h' : Audits runAfter lake window' run') : window = window' ∧ run = run' := by
  obtain ⟨planned, hplan, hinputs⟩ := h
  obtain ⟨planned', hplan', hinputs'⟩ := h'
  obtain rfl : planned = planned' := Except.ok.inj (hplan.symm.trans hplan')
  exact Prod.mk.inj (Except.ok.inj (hinputs.symm.trans hinputs'))

theorem Audits.lastMonth (h : Audits runAfter lake window run) :
    ∃ day, Gridlens.lastMonth day = .ok window := by
  obtain ⟨planned, hplan, hinputs⟩ := h
  obtain ⟨day, w, r, -, hwindow, -, -, hread⟩ := inputs_of_plan hplan
  obtain ⟨rfl, -⟩ := Prod.mk.inj (Except.ok.inj (hinputs.symm.trans hread))
  exact ⟨day, hwindow⟩

/-- Bronze as it was at some moment between two states of the lake. -/
def Between (lake lake' : Lakehouse δ) (log : Snapshots) : Prop :=
  lake.bronze.list <+: log.list ∧ log.list <+: lake'.bronze.list

/-- What an audit that reads bronze at this moment builds. -/
abbrev restatedBuild (quotient : Int → Int → δ) (window : Window) (run : ProductionRun)
    (log : Snapshots) : Build δ :=
  build quotient (some (window.restate run.learnedUpTo.micros)) (rowsOf log.current)

/-- The tables that have been built are those of one build. -/
structure Contents (schema : Option (Rebuilt δ)) (built : List Node) (b : Build δ) : Prop where
  versions : .generationVersions ∈ built → ∃ r, schema = some r ∧ r.versions = b.versions
  net : .periodGenerationNet ∈ built → ∃ r, schema = some r ∧ r.net = b.net
  mix : .dailyGenerationMix ∈ built → ∃ r, schema = some r ∧ r.mix = b.mix

/-- Between the start of an audit and a state of it. -/
structure Faithful (quotient : Int → Int → δ) (runAfter : Instant) [DecidableEq δ]
    (lake : Lakehouse δ) (p : Progress AuditTask (AuditState δ)) : Prop where
  production : p.state.lake.tables = lake.tables
  manifest : p.state.lake.runManifest = lake.runManifest
  snapshots : lake.bronze.list <+: p.state.lake.bronze.list
  planned : ∀ planned, p.state.planned = some planned →
    plan runAfter (queryResult LATEST_RUN_COLUMNS (latestRun lake.runManifest)) = .ok planned
  closed : ∀ n ∈ p.state.built, ∀ m ∈ n.refs, m ∈ p.state.built
  restated : p.status .restate = .ended .success → ∀ n ∈ RESTATED, n ∈ p.state.built
  clocks : ∀ r, p.state.clocks = some r → ∃ window run snapshot log,
    Audits runAfter lake window run ∧ snapshot ∈ p.state.lake.bronze.list ∧
      snapshot.snapshotId = run.snapshotId ∧ Between lake p.state.lake log ∧
      r = checkClocks window run.snapshotId run.learnedUpTo.micros snapshot.rows
        (rowsOf log.current)
  checked : p.status .checkClocks = .ended .success → ∃ c, p.state.clocks = some (.ok c)
  idle : (p.status .compare).hasStarted = false → p.state.results = []
  contents : ∃ log, Between lake p.state.lake log ∧ ∀ planned window run,
    plan runAfter (queryResult LATEST_RUN_COLUMNS (latestRun lake.runManifest)) = .ok planned →
    inputs runAfter planned = .ok (window, run) →
    (p.status .teardown = .waiting →
        Contents (p.state.schemas planned.schema) p.state.built
          (restatedBuild quotient window run log)) ∧
      p.state.results <+: compare window (restatedBuild quotient window run log) lake.tables
  compared : p.status .compare = .ended .success →
    p.state.results.length = COMPARED.length ∧ differences p.state.results = []

theorem restatedBuild_mix (w : Window) (r : ProductionRun) (log : Snapshots) :
    (restatedBuild quotient w r log).mix =
      dailyGenerationMix quotient (restatedBuild quotient w r log).net := by
  simp only [restatedBuild, build]

section Rebuild

variable {w : Window} {r : ProductionRun} {log : Snapshots} {schema : Option (Rebuilt δ)}
  {built : List Node} {n : Node}

/-- What is built above the versions was built behind them. -/
theorem versions_of_closed (hclosed : ∀ n ∈ built, ∀ m ∈ n.refs, m ∈ built) :
    (.periodGenerationNet ∈ built → .generationVersions ∈ built) ∧
      (.dailyGenerationMix ∈ built → .periodGenerationNet ∈ built) := by
  refine ⟨fun h => ?_, fun h => hclosed _ h _ List.mem_cons_self⟩
  exact hclosed _ (hclosed _ h .generationCurrent List.mem_cons_self) _ List.mem_cons_self

/-- The versions are those of bronze as it is read. -/
theorem contents_versions (hclosed : ∀ n ∈ built, ∀ m ∈ n.refs, m ∈ built)
    (hnew : .generationVersions ∉ built) :
    Contents (some (Node.rebuild quotient (w.restate r.learnedUpTo.micros) (rowsOf log.current)
        .generationVersions (schema.getD ⟨[], [], [], []⟩))) (.generationVersions :: built)
      (restatedBuild quotient w r log) := by
  obtain ⟨hnet, hmix⟩ := versions_of_closed hclosed
  -- and there is nothing above them yet
  refine ⟨fun _ => ⟨_, rfl, rfl⟩, fun h => ?_, fun h => ?_⟩
  · exact absurd (hnet (by simpa using h)) hnew
  · exact absurd (hnet (hmix (by simpa using h))) hnew

/-- The other tables are made of those in the schema, whatever bronze is by
then. -/
theorem contents_later (h : Contents schema built (restatedBuild quotient w r log))
    (hclosed : ∀ n ∈ built, ∀ m ∈ n.refs, m ∈ built) (hne : n ≠ .generationVersions)
    (hrefs : ∀ m ∈ n.refs, m ∈ built) (hnew : n ∉ built) (vars : Restate) (rows : List Row) :
    Contents (some (n.rebuild quotient vars rows (schema.getD ⟨[], [], [], []⟩))) (n :: built)
      (restatedBuild quotient w r log) := by
  obtain ⟨hnet, hmix⟩ := versions_of_closed hclosed
  cases n with
  | generationVersions => exact absurd rfl hne
  | stgGeneration | generationCurrent | runManifest =>
      refine ⟨fun hbuilt => ?_, fun hbuilt => ?_, fun hbuilt => ?_⟩
      · obtain ⟨found, rfl, hfound⟩ := h.versions (by simpa using hbuilt)
        exact ⟨_, rfl, hfound⟩
      · obtain ⟨found, rfl, hfound⟩ := h.net (by simpa using hbuilt)
        exact ⟨_, rfl, hfound⟩
      · obtain ⟨found, rfl, hfound⟩ := h.mix (by simpa using hbuilt)
        exact ⟨_, rfl, hfound⟩
  | periodGenerationNet =>
      obtain ⟨found, rfl, hfound⟩ :=
        h.versions (hclosed _ (hrefs .generationCurrent List.mem_cons_self) _ List.mem_cons_self)
      refine ⟨fun _ => ⟨_, rfl, hfound⟩, fun _ => ⟨_, rfl, ?_⟩, fun hbuilt => ?_⟩
      · exact congrArg (fun V => periodGenerationNet (generationCurrent V)) hfound
      · exact absurd (hmix (by simpa using hbuilt)) hnew
  | dailyGenerationMix =>
      obtain ⟨found, rfl, hfound⟩ := h.net (hrefs .periodGenerationNet List.mem_cons_self)
      refine ⟨fun hbuilt => ?_, fun _ => ⟨_, rfl, hfound⟩, fun _ => ⟨_, rfl, ?_⟩⟩
      · obtain ⟨other, heq, hother⟩ := h.versions (by simpa using hbuilt)
        obtain rfl := Option.some.inj heq
        exact ⟨_, rfl, hother⟩
      · rw [restatedBuild_mix, ← hfound]
        rfl

/-- Where every table is built, the comparison reads that build. -/
theorem Contents.tables {found : Rebuilt δ} {b : Build δ} (h : Contents schema built b)
    (hbuilt : ∀ n ∈ RESTATED, n ∈ built) (hschema : schema = some found) : found.tables = b := by
  obtain ⟨x, hx, hversions⟩ := h.versions (hbuilt _ (by decide))
  obtain ⟨y, hy, hnet⟩ := h.net (hbuilt _ (by decide))
  obtain ⟨z, hz, hmix⟩ := h.mix (hbuilt _ (by decide))
  obtain rfl := Option.some.inj (hx.symm.trans hschema)
  obtain rfl := Option.some.inj (hy.symm.trans hschema)
  obtain rfl := Option.some.inj (hz.symm.trans hschema)
  unfold Rebuilt.tables
  rw [hversions, hnet, hmix]

end Rebuild

theorem prefix_concat {α : Type} {l m : List α} {x : α} (h : l <+: m) (hx : m[l.length]? = some x) :
    l ++ [x] <+: m := by
  obtain ⟨rest, rfl⟩ := h
  cases rest with
  | nil => simp at hx
  | cons y rest =>
      rw [List.getElem?_append_right (le_refl _), Nat.sub_self] at hx
      obtain rfl := Option.some.inj hx
      exact ⟨rest, by simp⟩

section Step

variable [DecidableEq δ] {p p' : Progress AuditTask (AuditState δ)}
  {e : Occurrence AuditTask AuditAction LakeEvent}
  {es : List (Occurrence AuditTask AuditAction LakeEvent)}

/-- A task comes to an end, or starts: it ends in success where it returns, and
with a status of its own where it had started. -/
theorem Faithful.set (h : Faithful quotient runAfter lake p) {n : AuditTask} {x : Status}
    (hx : x ≠ .waiting) (hreturns : x = .ended .success → n.returns p.state = true)
    (hidle : x.hasStarted = false → (p.status n).hasStarted = false) :
    Faithful quotient runAfter lake (p.set n x) := by
  have hset : ∀ {m : AuditTask} {y : Status}, (p.set n x).status m = y →
      n = m ∧ x = y ∨ p.status m = y := by
    intro m y heq
    by_cases hm : m = n
    · rw [hm, set_status_self] at heq
      exact Or.inl ⟨hm.symm, heq⟩
    · rw [set_status_of_ne hm] at heq
      exact Or.inr heq
  obtain ⟨log, hlog, hcontents⟩ := h.contents
  refine { h with
    restated := fun hdone => ?_
    checked := fun hdone => ?_
    idle := fun hnot => ?_
    contents := ⟨log, hlog, fun planned window run hplan hinputs => ⟨fun hwaiting => ?_,
      (hcontents planned window run hplan hinputs).2⟩⟩
    compared := fun hdone => ?_ }
  · rcases hset hdone with ⟨rfl, hsuccess⟩ | hbefore
    · exact fun m hm => of_decide_eq_true (List.all_eq_true.mp (hreturns hsuccess) m hm)
    · exact h.restated hbefore
  · rcases hset hdone with ⟨rfl, hsuccess⟩ | hbefore
    · obtain ⟨r, hr, hok⟩ := (Option.any_eq_true _ _).mp (hreturns hsuccess)
      cases r with
      | ok c => exact ⟨c, hr⟩
      | error error => cases hok
    · exact h.checked hbefore
  · refine h.idle ?_
    by_cases hn : AuditTask.compare = n
    · rw [hn] at hnot ⊢
      rw [set_status_self] at hnot
      exact hidle hnot
    · rwa [set_status_of_ne hn] at hnot
  · rcases hset hwaiting with ⟨-, heq⟩ | hbefore
    · exact absurd heq hx
    · exact (hcontents planned window run hplan hinputs).1 hbefore
  · rcases hset hdone with ⟨rfl, hsuccess⟩ | hbefore
    · have hboth := hreturns hsuccess
      unfold AuditTask.returns at hboth
      rw [Bool.and_eq_true, decide_eq_true_eq, decide_eq_true_eq] at hboth
      exact hboth
    · exact h.compared hbefore

/-- A task that starts forgets what it had. -/
theorem Faithful.start (h : Faithful quotient runAfter lake p) {n : AuditTask}
    (hn : p.status n = .waiting) :
    Faithful quotient runAfter lake { p with state := n.start p.state } := by
  cases n with
  | plan => exact { h with planned := nofun }
  | checkClocks =>
      refine { h with clocks := nofun, checked := fun hdone => ?_ }
      rw [show p.status .checkClocks = .waiting from hn] at hdone
      cases hdone
  | restate =>
      obtain ⟨log, hlog, hcontents⟩ := h.contents
      refine { h with closed := nofun, restated := fun hdone => ?_, contents := ?_ }
      · rw [show p.status .restate = .waiting from hn] at hdone
        cases hdone
      · exact ⟨log, hlog, fun planned window run hplan hinputs =>
          ⟨fun _ => ⟨nofun, nofun, nofun⟩, (hcontents planned window run hplan hinputs).2⟩⟩
  | compare =>
      obtain ⟨log, hlog, hcontents⟩ := h.contents
      refine { h with idle := fun _ => rfl, contents := ?_, compared := fun hdone => ?_ }
      · exact ⟨log, hlog, fun planned window run hplan hinputs =>
          ⟨(hcontents planned window run hplan hinputs).1, List.nil_prefix⟩⟩
      · rw [show p.status .compare = .waiting from hn] at hdone
        cases hdone
  | teardown => exact { h with }
  | verdict => exact h

theorem Faithful.plannedToday (h : Faithful quotient runAfter lake p) :
    PlannedToday runAfter p.state := by
  intro planned hplanned
  obtain ⟨day, window, run, hday, -, -, hschema, -⟩ := inputs_of_plan (h.planned planned hplanned)
  unfold AuditState.daySchema
  rw [toOption_iff.mpr hday, hschema]
  rfl

/-- What a running task does. -/
theorem Faithful.acted (h : Faithful quotient runAfter lake p)
    (hsound : auditGraph.Sound p.status) {n : AuditTask} {s : AuditState δ}
    (hn : p.status n = .running) (hacted : Acted quotient runAfter p.state s n) :
    Faithful quotient runAfter lake { p with state := s } := by
  obtain ⟨log, hlog, hcontents⟩ := h.contents
  cases hacted with
  | plan hact =>
      obtain ⟨planned, hplan, rfl⟩ := queryPlan_eq_some hact
      refine { h with planned := fun found hfound => ?_ }
      obtain rfl := Option.some.inj hfound
      rw [← h.manifest]
      exact hplan
  | checkClocks hact =>
      obtain ⟨window, run, snapshot, hinputs, hsnapshot, rfl⟩ := queryClocks_eq_some hact
      obtain ⟨planned, hplanned, hread⟩ := inputs_eq_some.mp hinputs
      have hid : snapshot.snapshotId = run.snapshotId := by
        simpa using List.find?_some hsnapshot
      refine { h with clocks := fun r hr => ?_, checked := fun hdone => ?_ }
      · obtain rfl := Option.some.inj hr
        exact ⟨window, run, snapshot, p.state.lake.bronze, ⟨planned, h.planned _ hplanned, hread⟩,
          List.mem_of_find?_eq_some hsnapshot, hid,
          ⟨h.snapshots, List.prefix_refl _⟩, rfl⟩
      · rw [show p.status .checkClocks = .running from hn] at hdone
        cases hdone
  | restate environ node hact =>
      obtain ⟨planned, window, run, hplanned, hinputs, ⟨-, hnew, hrefs⟩, rfl⟩ :=
        buildNode_eq_some hact
      rw [materialize_planned h.plannedToday hplanned]
      obtain ⟨planned', hplanned', hread⟩ := inputs_eq_some.mp hinputs
      obtain rfl := Option.some.inj (hplanned.symm.trans hplanned')
      have hplan := h.planned _ hplanned
      have hwaiting : p.status .teardown = .waiting :=
        waiting_behind hsound hn (by decide) (by decide)
      have hidle : p.state.results = [] := by
        refine h.idle ?_
        rw [waiting_behind hsound hn (by decide) (by decide)]
        rfl
      refine { h with closed := ?_, restated := fun hdone => ?_, contents := ?_ }
      · intro m hm l hl
        rcases List.mem_cons.mp hm with rfl | hm
        · exact List.mem_cons_of_mem _ (hrefs l hl)
        · exact List.mem_cons_of_mem _ (h.closed m hm l hl)
      · rw [show p.status .restate = .running from hn] at hdone
        cases hdone
      · by_cases hnode : node = .generationVersions
        · -- from here on it is bronze of this moment
          subst hnode
          refine ⟨p.state.lake.bronze, ⟨h.snapshots, List.prefix_refl _⟩, ?_⟩
          intro found w r hfound hw
          obtain rfl := Except.ok.inj (hplan.symm.trans hfound)
          obtain ⟨rfl, rfl⟩ := Prod.mk.inj (Except.ok.inj (hread.symm.trans hw))
          refine ⟨fun _ => ?_, by rw [hidle]; exact List.nil_prefix⟩
          simp only [Function.update_self]
          exact contents_versions h.closed hnew
        · refine ⟨log, hlog, fun found w r hfound hw => ?_⟩
          obtain rfl := Except.ok.inj (hplan.symm.trans hfound)
          obtain ⟨hbuilt, hresults⟩ := hcontents planned w r hplan hw
          refine ⟨fun _ => ?_, hresults⟩
          simp only [Function.update_self]
          exact contents_later (hbuilt hwaiting) h.closed hnode hrefs hnew _ _
  | compare hact =>
      obtain ⟨planned, window, run, schema, result, hplanned, hinputs, hschema, hresult, rfl⟩ :=
        queryDifference_eq_some hact
      obtain ⟨planned', hplanned', hread⟩ := inputs_eq_some.mp hinputs
      obtain rfl := Option.some.inj (hplanned.symm.trans hplanned')
      have hplan := h.planned _ hplanned
      have hrestated : p.status .restate = .ended .success :=
        success_before hsound (by rw [hn]; rfl) (by decide) (by decide)
      have hwaiting : p.status .teardown = .waiting :=
        waiting_behind hsound hn (by decide) (by decide)
      obtain ⟨hbuilt, hresults⟩ := hcontents planned window run hplan hread
      have htables := (hbuilt hwaiting).tables (h.restated hrestated) hschema
      refine { h with idle := fun hnot => ?_, contents := ?_, compared := fun hdone => ?_ }
      · rw [show p.status .compare = .running from hn] at hnot
        cases hnot
      · refine ⟨log, hlog, fun found w r hfound hw => ?_⟩
        obtain rfl := Except.ok.inj (hplan.symm.trans hfound)
        obtain ⟨rfl, rfl⟩ := Prod.mk.inj (Except.ok.inj (hread.symm.trans hw))
        refine ⟨hbuilt, prefix_concat hresults ?_⟩
        rw [← hresult, htables, h.production]
      · rw [show p.status .compare = .running from hn] at hdone
        cases hdone
  | teardown r hact =>
      have hacted : Acted quotient runAfter p.state s .teardown := .teardown r hact
      have hlake := lake_of_acted hacted h.plannedToday
      obtain ⟨name, -, -, rfl⟩ := runScript_eq_some hact
      refine { h with
        production := by rw [hlake]; exact h.production
        manifest := by rw [hlake]; exact h.manifest
        snapshots := by rw [hlake]; exact h.snapshots
        clocks := by rw [hlake]; exact h.clocks
        contents := ⟨log, by rw [hlake]; exact hlog, fun planned window run hplan hinputs =>
          ⟨fun hwaiting => ?_, (hcontents planned window run hplan hinputs).2⟩⟩ }
      rw [show p.status .teardown = .waiting from hwaiting] at hn
      cases hn

/-- A commit to bronze. -/
theorem Faithful.committed (h : Faithful quotient runAfter lake p) {c : Commit} {log : Snapshots}
    (hcommit : p.state.lake.bronze.commit c = some log) :
    Faithful quotient runAfter lake
      { p with state := { p.state with lake := { p.state.lake with bronze := log } } } := by
  obtain ⟨snapshot, hlist⟩ := commit_list hcommit
  have hgrown : p.state.lake.bronze.list <+: log.list := ⟨[snapshot], hlist.symm⟩
  obtain ⟨built, hbetween, hcontents⟩ := h.contents
  refine { h with
    snapshots := h.snapshots.trans hgrown
    clocks := fun r hr => ?_
    contents := ⟨built, ⟨hbetween.1, hbetween.2.trans hgrown⟩, hcontents⟩ }
  obtain ⟨window, run, found, read, haudits, hfound, hid, hread, heq⟩ := h.clocks r hr
  exact ⟨window, run, found, read, haudits, hgrown.subset hfound, hid,
    ⟨hread.1, hread.2.trans hgrown⟩, heq⟩

/-- Whatever happens but a production run. -/
theorem faithful_step (hsound : auditGraph.Sound p.status)
    (hstep : step (audit quotient runAfter) p e = some p')
    (he : ∀ inv n, e ≠ .outside (.executed inv n)) (h : Faithful quotient runAfter lake p) :
    Faithful quotient runAfter lake p' := by
  cases e with
  | began n =>
      obtain ⟨hn, -, rfl⟩ := step_began.mp hstep
      exact (h.start hn).set (x := .running) nofun nofun nofun
  | acted n a =>
      obtain ⟨hn, s, hact, rfl⟩ := step_acted.mp hstep
      exact h.acted hsound hn (acted_of_act hact)
  | returned n =>
      obtain ⟨-, hreturns, rfl⟩ := step_returned.mp hstep
      exact h.set nofun (fun _ => hreturns) nofun
  | raised n =>
      -- no task of the audit is tried again
      obtain ⟨-, ⟨htries, -⟩ | ⟨-, rfl⟩⟩ := step_raised hstep
      · exact absurd htries (Nat.not_lt_zero _)
      · exact h.set nofun nofun nofun
  | skipped n =>
      obtain ⟨-, hskips, -⟩ := step_skipped.mp hstep
      cases hskips
  | marked n =>
      obtain ⟨hn, how, hmark, rfl⟩ := step_marked.mp hstep
      refine h.set nofun (fun hsuccess => ?_) (fun _ => by rw [hn]; rfl)
      obtain rfl : how = .success := by simpa using hsuccess
      exact absurd hmark not_mark_success
  | outside event =>
      obtain ⟨s, hs, rfl⟩ := step_outside.mp hstep
      obtain ⟨after, hafter, rfl⟩ := Option.map_eq_some_iff.mp hs
      cases event with
      | executed inv n => exact absurd rfl (he inv n)
      | committed c =>
          obtain ⟨log, hlog, rfl⟩ := Option.map_eq_some_iff.mp hafter
          exact h.committed hlog

variable {schemas : String → Option (Rebuilt δ)}

theorem faithful_initial :
    Faithful quotient runAfter lake (fresh (AuditState.initial lake schemas)) where
  production := rfl
  manifest := rfl
  snapshots := List.prefix_refl _
  planned := nofun
  closed := nofun
  restated := nofun
  clocks := nofun
  checked := nofun
  idle _ := rfl
  contents := ⟨lake.bronze, ⟨List.prefix_refl _, List.prefix_refl _⟩, fun _ _ _ _ _ =>
    ⟨fun _ => ⟨nofun, nofun, nofun⟩, List.nil_prefix⟩⟩
  compared := nofun

theorem faithful_run (hquiet : ∀ inv n, .outside (.executed inv n) ∉ es)
    (hrun : Tasks.run (audit quotient runAfter) (fresh (.initial lake schemas)) es = some p) :
    Faithful quotient runAfter lake p := by
  refine sound_run_invariant (fun p e he p' hsound hstep h => ?_) hrun faithful_initial
  refine faithful_step hsound hstep (fun inv n heq => ?_) h
  rw [heq] at he
  exact hquiet inv n he

/-- A green audit, during which production was not rebuilt: the rows that
`known_at` selects of bronze, as it was when they were counted, are those of
the snapshot production names, and what was rebuilt of bronze, as it was when
that was read, is what production holds; both of the same size and with the
same distinct rows. -/
theorem audit_green (hquiet : ∀ inv n, .outside (.executed inv n) ∉ es)
    (hrun : Tasks.run (audit quotient runAfter) (fresh (.initial lake schemas)) es = some p)
    (hgreen : auditGraph.Succeeded p.status) :
    ∃ window run snapshot counted rebuilt, Audits runAfter lake window run ∧
      (snapshot ∈ p.state.lake.bronze.list ∧ snapshot.snapshotId = run.snapshotId) ∧
      (Between lake p.state.lake counted ∧ Alike (atSnapshot window snapshot.rows)
        (byKnownAt window run.learnedUpTo.micros (rowsOf counted.current))) ∧
      Between lake p.state.lake rebuilt ∧
      Alike (window.confine (restatedBuild quotient window run rebuilt)).versions
        (window.confine lake.tables).versions ∧
      Alike (window.confine (restatedBuild quotient window run rebuilt)).net
        (window.confine lake.tables).net ∧
      Alike (window.confine (restatedBuild quotient window run rebuilt)).mix
        (window.confine lake.tables).mix := by
  have hsound : auditGraph.Sound p.status := sound_run hrun
  have h := faithful_run hquiet hrun
  have hverdict : p.status .verdict = .ended .success :=
    (hgreen .verdict leaf_verdict).resolve_right (not_skipped (fun _ _ => rfl) hrun .verdict)
  have hsuccess : ∀ {m : AuditTask}, m.rank < AuditTask.verdict.rank →
      p.status m = .ended .success :=
    fun hm => success_before hsound (by rw [hverdict]; rfl) (by decide) hm
  obtain ⟨c, hc⟩ := h.checked (hsuccess (by decide))
  obtain ⟨window, run, snapshot, counted, haudits, hmem, hid, hcounted, hok⟩ := h.clocks _ hc
  obtain ⟨hlength, hnone⟩ := h.compared (hsuccess (by decide))
  obtain ⟨rebuilt, hrebuilt, hcontents⟩ := h.contents
  obtain ⟨planned, hplan, hinputs⟩ := haudits
  have hresults := (hcontents planned window run hplan hinputs).2.eq_of_length hlength
  rw [hresults, differences_compare_eq_nil_iff] at hnone
  exact ⟨window, run, snapshot, counted, rebuilt, ⟨planned, hplan, hinputs⟩, ⟨hmem, hid⟩,
    ⟨hcounted, (checkClocks_ok_iff window run.snapshotId run.learnedUpTo.micros _ _).mp
      ⟨c, hok.symm⟩⟩, hrebuilt, hnone⟩

end Step

/-! ## No false alarm -/

/-- Production is what its manifest says: it was built from the snapshot that
is named, whose rows in the window have distinct identities, and `known_at`
selects the rows of the window which that one has. -/
def Truthful (quotient : Int → Int → δ) (lake : Lakehouse δ) (window : Window)
    (run : ProductionRun) : Prop :=
  ∃ snapshot ∈ lake.bronze.list, snapshot.snapshotId = run.snapshotId ∧
    lake.tables = build quotient none snapshot.rows ∧
    Identified (atSnapshot window snapshot.rows) ∧
    (atSnapshot window snapshot.rows).Perm
      (byKnownAt window run.learnedUpTo.micros (rowsOf lake.bronze.current))

section Alarm

variable {S T : List Row}

/-- The part of a build that lies in the window is made of the rows that do. -/
theorem confine_build_perm (quotient : Int → Int → δ) {today : Date} (hw : Gridlens.lastMonth today = .ok window)
    (hid : Identified (atSnapshot window S)) (hsame : (atSnapshot window S).Perm (atSnapshot window T)) :
    (window.confine (build quotient none S)).versions.Perm
        (window.confine (build quotient none T)).versions ∧
      (window.confine (build quotient none S)).net.Perm
        (window.confine (build quotient none T)).net ∧
      (window.confine (build quotient none S)).mix.Perm
        (window.confine (build quotient none T)).mix := by
  rw [confine_versions, confine_versions, confine_net, confine_net, confine_mix, confine_mix,
    build_mix, build_mix, build_net, build_net, build_versions, build_versions]
  have hversions : ((versions S).filter fun v => window.containsTime v.row.validTime).Perm
      ((versions T).filter fun v => window.containsTime v.row.validTime) :=
    ((versions_filter_perm window.containsTime S).symm.trans (versions_congr hid hsame)).trans
      (versions_filter_perm window.containsTime T)
  have hnet : ((periodGenerationNet (generationCurrent (versions S))).filter
        fun r => window.containsTime r.key.validTime).Perm
      ((periodGenerationNet (generationCurrent (versions T))).filter
        fun r => window.containsTime r.key.validTime) := by
    refine (net_filter_perm window.containsTime _).symm.trans ?_
    refine (periodGenerationNet_perm ?_).trans (net_filter_perm window.containsTime _)
    rw [← current_filter, ← current_filter]
    exact hversions.filter _
  refine ⟨hversions, hnet, ?_⟩
  -- the rows of the window are those of its days
  have hdays : ∀ U : List Row, (periodGenerationNet (generationCurrent (versions U))).filter
        (fun r => window.containsTime r.key.validTime) =
      (periodGenerationNet (generationCurrent (versions U))).filter
        fun r => window.containsDay r.key.settlementDay := by
    intro U
    refine List.filter_congr fun r hr => ?_
    rw [settlementDay_of_mem_net hr]
    exact Window.containsTime_eq hw _
  rw [hdays, hdays] at hnet
  exact ((mix_filter_perm quotient window.containsDay _).symm.trans
    (dailyGenerationMix_perm quotient hnet)).trans (mix_filter_perm quotient window.containsDay _)

theorem atSnapshot_byKnownAt (learnedUpTo : Int) (T : List Row) :
    atSnapshot window (byKnownAt window learnedUpTo T) = byKnownAt window learnedUpTo T := by
  unfold atSnapshot byKnownAt
  rw [List.filter_filter]
  refine List.filter_congr fun r _ => ?_
  rw [Bool.and_left_comm, Bool.and_self]

/-- Nothing that is learned after the bound comes into what it selects. -/
theorem byKnownAt_merge {learnedUpTo : Int} {W : MergeWindow} {batch : List Row}
    (hlater : ∀ r ∈ batch, learnedUpTo < r.knownAt) (T : List Row) :
    byKnownAt window learnedUpTo (merge W batch T) = byKnownAt window learnedUpTo T := by
  rw [merge_eq]
  unfold byKnownAt
  rw [List.filter_append]
  refine (congrArg _ (List.filter_eq_nil_iff.mpr fun r hr => ?_)).trans (List.append_nil _)
  have hr' := hlater r (List.mem_filter.mp hr).1
  have hnot : ¬ r.knownAt ≤ learnedUpTo := not_le.mpr hr'
  simp [Stamped.knownAt, hnot]

theorem commit_current {log log' : Snapshots} {c : Commit} (h : log.commit c = some log') :
    ∃ s, log'.list = log.list ++ [s] ∧ s.rows = merge c.window c.batch (rowsOf log.current) := by
  unfold Snapshots.commit Snapshots.push at h
  split at h
  · obtain rfl := Option.some.inj h
    exact ⟨_, rfl, rfl⟩
  · cases h

/-- Whenever bronze is read, the bound selects what it did at the start. -/
def SameSelection (window : Window) (run : ProductionRun) (lake lake' : Lakehouse δ) : Prop :=
  lake.bronze.list <+: lake'.bronze.list ∧ ∀ log, Between lake lake' log →
    byKnownAt window run.learnedUpTo.micros (rowsOf log.current) =
      byKnownAt window run.learnedUpTo.micros (rowsOf lake.bronze.current)

theorem sameSelection_self : SameSelection window run lake lake := by
  refine ⟨List.prefix_refl _, fun log hlog => ?_⟩
  have hlist : log.list = lake.bronze.list :=
    hlog.2.eq_of_length_le hlog.1.length_le
  unfold Snapshots.current
  rw [hlist]

theorem SameSelection.commit (h : SameSelection window run lake lake') {c : Commit}
    {log : Snapshots} (hcommit : lake'.bronze.commit c = some log)
    (hlater : ∀ r ∈ c.batch, run.learnedUpTo.micros < r.knownAt) :
    SameSelection window run lake { lake' with bronze := log } := by
  obtain ⟨s, hlist, hrows⟩ := commit_current hcommit
  refine ⟨h.1.trans ⟨[s], hlist.symm⟩, fun read hread => ?_⟩
  obtain ⟨hfrom, hto⟩ := hread
  simp only [hlist] at hto
  rcases List.prefix_concat_iff.mp hto with hnow | hbefore
  · -- the newest one, on top of the one before
    have hcurrent : read.current = some s := by
      unfold Snapshots.current
      rw [hnow]
      exact List.getLast?_concat
    rw [hcurrent]
    show byKnownAt window _ s.rows = _
    rw [hrows, byKnownAt_merge hlater]
    exact h.2 lake'.bronze ⟨h.1, List.prefix_refl _⟩
  · exact h.2 read ⟨hfrom, hbefore⟩

end Alarm

section Step

variable [DecidableEq δ] {p p' : Progress AuditTask (AuditState δ)}
  {e : Occurrence AuditTask AuditAction LakeEvent}
  {es : List (Occurrence AuditTask AuditAction LakeEvent)}
  {schemas : String → Option (Rebuilt δ)}

theorem sameSelection_run (hquiet : ∀ inv n, .outside (.executed inv n) ∉ es)
    (hlater : ∀ c, .outside (.committed c) ∈ es →
      ∀ r ∈ c.batch, run.learnedUpTo.micros < r.knownAt)
    (hrun : Tasks.run (audit quotient runAfter) (fresh (.initial lake schemas)) es = some p) :
    SameSelection window run lake p.state.lake := by
  refine (run_invariant
    (I := fun p => PlannedToday runAfter p.state ∧ SameSelection window run lake p.state.lake)
    (fun p e he p' hstep h => ⟨plannedToday_step hstep h.1, ?_⟩) hrun
    ⟨nofun, sameSelection_self⟩).2
  obtain ⟨hplanned, h⟩ := h
  have hlake := lake_step hstep hplanned
  cases e with
  | outside event =>
      cases event with
      | executed inv n => exact absurd he (hquiet inv n)
      | committed c =>
          obtain ⟨log, hlog, heq⟩ := Option.map_eq_some_iff.mp hlake
          rw [← heq]
          exact h.commit hlog (hlater c he)
  | _ =>
      rw [← Option.some.inj hlake]
      exact h

/-- Where production is what its manifest says and is not rebuilt, and whatever
is committed during an audit was learned after the bound, no count of that
audit is a reason to fail: neither that of the clocks nor that of any table,
at any moment of any run. -/
theorem audit_no_false_alarm (hquiet : ∀ inv n, .outside (.executed inv n) ∉ es)
    (haudits : Audits runAfter lake window run) (htruthful : Truthful quotient lake window run)
    (hlater : ∀ c, .outside (.committed c) ∈ es →
      ∀ r ∈ c.batch, run.learnedUpTo.micros < r.knownAt)
    (hrun : Tasks.run (audit quotient runAfter) (fresh (.initial lake schemas)) es = some p) :
    (∀ r, p.state.clocks = some r → ∃ c, r = .ok c) ∧
      ∀ result ∈ p.state.results, identical result.2 = true := by
  have h := faithful_run hquiet hrun
  have hselect : SameSelection window run lake p.state.lake :=
    sameSelection_run hquiet hlater hrun
  obtain ⟨-, hselection⟩ := hselect
  obtain ⟨snapshot, hmem, hid, htables, hidentified, hsame⟩ := htruthful
  constructor
  · intro r hr
    obtain ⟨w, found, other, counted, haudits', hother, hid', hcounted, heq⟩ := h.clocks r hr
    obtain ⟨rfl, rfl⟩ := haudits.unique haudits'
    -- a snapshot has an id of its own
    have hsnapshot : other = snapshot :=
      List.inj_on_of_nodup_map p.state.lake.bronze.distinct hother (h.snapshots.subset hmem)
        (hid'.trans hid.symm)
    have hok := (checkClocks_ok_iff window run.snapshotId run.learnedUpTo.micros other.rows
      (rowsOf counted.current)).mpr (by
        rw [hsnapshot, hselection counted hcounted]
        exact Alike.of_perm hsame)
    obtain ⟨c, hc⟩ := hok
    exact ⟨c, heq.trans hc⟩
  · obtain ⟨rebuilt, hrebuilt, hcontents⟩ := h.contents
    obtain ⟨planned, hplan, hinputs⟩ := haudits
    obtain ⟨today, hw⟩ := Audits.lastMonth ⟨planned, hplan, hinputs⟩
    have hresults := (hcontents planned window run hplan hinputs).2
    have hrows : (atSnapshot window snapshot.rows).Perm (atSnapshot window
        (byKnownAt window run.learnedUpTo.micros (rowsOf rebuilt.current))) := by
      rw [atSnapshot_byKnownAt, hselection rebuilt hrebuilt]
      exact hsame
    have hperm := confine_build_perm quotient hw hidentified hrows
    have hnone : differences (compare window (restatedBuild quotient window run rebuilt)
        lake.tables) = [] := by
      rw [differences_compare_eq_nil_iff, restatedBuild, build_restate, htables]
      exact ⟨(Alike.of_perm hperm.1.symm), (Alike.of_perm hperm.2.1.symm),
        (Alike.of_perm hperm.2.2.symm)⟩
    intro result hresult
    exact differences_eq_nil_iff.mp hnone result (hresults.subset hresult)

end Step

end Verdict

/-! ## September's audit -/

theorem auditEvents_quiet : ∀ inv n,
    (.outside (.executed inv n) : Occurrence AuditTask AuditAction LakeEvent) ∉ auditEvents := by
  intro inv n
  simp [auditEvents, RESTATED]

theorem audit_green_september : ∃ p,
    run (audit Prod.mk september) (fresh (.initial augustLake fun _ => none)) auditEvents =
      some p ∧
    ∃ window run snapshot counted rebuilt, Audits september augustLake window run ∧
      (snapshot ∈ p.state.lake.bronze.list ∧ snapshot.snapshotId = run.snapshotId) ∧
      (Between augustLake p.state.lake counted ∧ Alike (atSnapshot window snapshot.rows)
        (byKnownAt window run.learnedUpTo.micros (rowsOf counted.current))) ∧
      Between augustLake p.state.lake rebuilt ∧
      Alike (window.confine (restatedBuild Prod.mk window run rebuilt)).versions
        (window.confine augustLake.tables).versions ∧
      Alike (window.confine (restatedBuild Prod.mk window run rebuilt)).net
        (window.confine augustLake.tables).net ∧
      Alike (window.confine (restatedBuild Prod.mk window run rebuilt)).mix
        (window.confine augustLake.tables).mix := by
  obtain ⟨p, hrun, hverdict⟩ := exists_september
  exact ⟨p, hrun, audit_green auditEvents_quiet hrun (succeeded_of_verdict hverdict)⟩

theorem noonTwo_inRange : WallInRange (noonPlus 2) := by decide

/-- What the manifest names. -/
def augustRun : ProductionRun := ⟨"unknown", 9007199254740993, ⟨noonPlus 2, noonTwo_inRange⟩⟩

theorem audits_august : Audits september augustLake august augustRun :=
  ⟨⟨"gridlens_audit_20260905", "unknown", "9007199254740993", "2026-08-26T14:00:00+00:00"⟩,
    by decide +kernel, by decide +kernel⟩

theorem augustLake_truthful : Truthful Prod.mk augustLake august augustRun :=
  ⟨augustSnapshot, List.mem_singleton_self _, rfl, rfl, by decide +kernel, by decide +kernel⟩

theorem auditEvents_later : ∀ c,
    (.outside (.committed c) : Occurrence AuditTask AuditAction LakeEvent) ∈ auditEvents →
      ∀ r ∈ c.batch, augustRun.learnedUpTo.micros < r.knownAt := by
  intro c hc
  have hone : c = augustRevision := by simpa [auditEvents, RESTATED] using hc
  rw [hone]
  decide

theorem audit_no_false_alarm_september : ∃ p,
    run (audit Prod.mk september) (fresh (.initial augustLake fun _ => none)) auditEvents =
      some p ∧
    (∀ r, p.state.clocks = some r → ∃ c, r = .ok c) ∧
      ∀ result ∈ p.state.results, identical result.2 = true := by
  obtain ⟨p, hrun, -⟩ := exists_september
  exact ⟨p, hrun, audit_no_false_alarm auditEvents_quiet audits_august augustLake_truthful
    auditEvents_later hrun⟩

end Gridlens
