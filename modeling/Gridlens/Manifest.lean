import Mathlib.Data.List.Sort
import Gridlens.Restatement
import Gridlens.Outside
import Gridlens.Effects.Schedule

/-!
# The production build and its manifest

A production `dbt run` executes its nodes in any order that respects `ref()`,
while ingests and backfills commit to bronze. Two nodes read bronze:
`generation_versions`, through the view over it, and `run_manifest`, which asks
the snapshots for the newest. Nothing orders the two, and nothing holds
commits back between them: the manifest is that of the snapshot the versions
were built from exactly when no commit falls in between (`manifest_names_iff`).
-/

namespace Gridlens

open Schedule

/-! ## Bronze as snapshots -/

/-- A snapshot: what names it, when it was committed, the rows of the table. -/
structure Snapshot where
  snapshotId : Int
  committedAt : Int
  rows : List Row

/-- The snapshots of bronze, oldest first. Each has an id of its own and was
committed after the ones before it. -/
structure Snapshots where
  list : List Snapshot
  distinct : (list.map Snapshot.snapshotId).Nodup
  increasing : (list.map Snapshot.committedAt).Pairwise (· < ·)

/-- The one a query reads. -/
def Snapshots.current (log : Snapshots) : Option Snapshot := log.list.getLast?

/-- The rows a snapshot has; a table without one is empty. -/
def rowsOf (snapshot : Option Snapshot) : List Row := (snapshot.map Snapshot.rows).getD []

/-- Another snapshot on top. -/
def Snapshots.push (log : Snapshots) (s : Snapshot) : Option Snapshots :=
  if h : s.snapshotId ∉ log.list.map Snapshot.snapshotId ∧
      ∀ t ∈ log.list.map Snapshot.committedAt, t < s.committedAt then
    some ⟨log.list ++ [s],
      by
        rw [List.map_append, List.nodup_append]
        refine ⟨log.distinct, List.nodup_singleton _, fun i hi j hj hij => ?_⟩
        rw [List.map_singleton, List.mem_singleton] at hj
        exact h.1 (hj ▸ hij ▸ hi),
      by
        rw [List.map_append, List.pairwise_append]
        refine ⟨log.increasing, List.pairwise_singleton _ _, fun t ht u hu => ?_⟩
        rw [List.map_singleton, List.mem_singleton] at hu
        exact hu ▸ h.2 t ht⟩
  else none

/-- A merge by an ingest or a backfill that leaves a snapshot. One that leaves
none is no event here. -/
structure Commit where
  window : MergeWindow
  batch : List Row
  snapshotId : Int
  committedAt : Int

def Snapshots.commit (log : Snapshots) (c : Commit) : Option Snapshots :=
  log.push ⟨c.snapshotId, c.committedAt, merge c.window c.batch (rowsOf log.current)⟩

/-- The rows do not matter: two moments of one history have the same newest
snapshot when as many were committed. -/
theorem getLast?_map_eq_iff {α β : Type} {f : α → β} {l l₁ l₂ : List α} (hl : (l.map f).Nodup)
    (h₁ : l₁ <+: l) (h₂ : l₂ <+: l) :
    l₁.getLast?.map f = l₂.getLast?.map f ↔ l₁.length = l₂.length := by
  have hlast : ∀ {m : List α}, m <+: l → m ≠ [] → m.getLast?.map f = (l.map f)[m.length - 1]? := by
    rintro m ⟨rest, rfl⟩ hm
    have hpos : 0 < m.length := List.length_pos_iff.mpr hm
    rw [List.getLast?_eq_getElem?, List.getElem?_map, List.getElem?_append_left (by omega)]
  constructor
  · intro heq
    rcases eq_or_ne l₁ [] with rfl | hne₁ <;> rcases eq_or_ne l₂ [] with rfl | hne₂
    · rfl
    · exact absurd heq.symm (by simp [hne₂])
    · exact absurd heq (by simp [hne₁])
    · have hpos₁ : 0 < l₁.length := List.length_pos_iff.mpr hne₁
      have hpos₂ : 0 < l₂.length := List.length_pos_iff.mpr hne₂
      have hle : l₁.length ≤ (l.map f).length := by simpa using h₁.length_le
      rw [hlast h₁ hne₁, hlast h₂ hne₂] at heq
      have hindex := (List.getElem?_inj (by omega) hl).mp heq
      omega
  · intro hlen
    rw [(List.prefix_of_prefix_length_le h₁ h₂ hlen.le).eq_of_length hlen]

/-- The first row of the snapshots, newest first, is the last commit. -/
theorem head?_committedAt (log : Snapshots) :
    (log.list.insertionSort fun s t => t.committedAt ≤ s.committedAt).head? = log.current := by
  have hincreasing := log.increasing
  unfold Snapshots.current
  rcases List.eq_nil_or_concat log.list with hnil | ⟨l, s, hl⟩
  · rw [hnil]
    rfl
  · rw [hl, List.concat_eq_append, List.map_append, List.pairwise_append] at hincreasing
    rw [hl, List.concat_eq_append, List.getLast?_concat]
    have hperm := List.perm_insertionSort (fun s t : Snapshot => t.committedAt ≤ s.committedAt)
      (l ++ [s])
    have hsorted := List.pairwise_insertionSort (fun a b : Int => b ≤ a)
      ((l ++ [s]).map Snapshot.committedAt)
    rw [← List.map_insertionSort (fun s t : Snapshot => t.committedAt ≤ s.committedAt)
      (fun a b : Int => b ≤ a) Snapshot.committedAt (l ++ [s]) fun _ _ _ _ => Iff.rfl] at hsorted
    generalize (l ++ [s]).insertionSort (fun s t => t.committedAt ≤ s.committedAt) = sorted at *
    cases sorted with
    | nil => exact absurd hperm.symm.eq_nil (by simp)
    | cons t ts =>
        -- nothing is newer than the first
        have hnewest : s.committedAt ≤ t.committedAt := by
          rcases List.mem_cons.mp (hperm.mem_iff.mpr (by simp : s ∈ l ++ [s])) with rfl | hs
          · exact le_refl _
          · exact List.rel_of_pairwise_cons hsorted (List.mem_map_of_mem hs)
        rcases List.mem_append.mp (hperm.mem_iff.mp List.mem_cons_self) with ht | ht
        · have hbefore := hincreasing.2.2 _ (List.mem_map_of_mem ht) _ (List.mem_map_of_mem
            (List.mem_singleton_self s))
          omega
        · rw [List.mem_singleton.mp ht]
          rfl

theorem max?_committedAt (log : Snapshots) :
    (log.list.map Snapshot.committedAt).max? = log.current.map Snapshot.committedAt := by
  have hincreasing := log.increasing
  unfold Snapshots.current
  rcases List.eq_nil_or_concat log.list with hnil | ⟨l, s, hl⟩
  · rw [hnil]
    rfl
  · rw [hl, List.concat_eq_append, List.map_append, List.pairwise_append] at hincreasing
    rw [hl, List.concat_eq_append, List.getLast?_concat, Option.map_some, List.max?_eq_some_iff, List.map_append]
    refine ⟨by simp, fun t ht => ?_⟩
    rcases List.mem_append.mp ht with hbefore | hnow
    · exact (hincreasing.2.2 t hbefore _ (by simp)).le
    · exact (List.mem_singleton.mp hnow).le

theorem commit_list {log log' : Snapshots} {c : Commit} (h : log.commit c = some log') :
    ∃ s, log'.list = log.list ++ [s] := by
  unfold Snapshots.commit Snapshots.push at h
  split at h
  · obtain rfl := Option.some.inj h
    exact ⟨_, rfl⟩
  · cases h

/-! ## `run_manifest` -/

/-- What dbt renders into the node. -/
structure Invocation where
  invocationId : String
  runStartedAt : Int
  dbtVersion : String
  environ : Environ

structure ManifestRow where
  dbtInvocationId : String
  runStartedAt : Int
  gitSha : String
  factorVersion : String
  dbtVersion : String
  bronzeSnapshotId : Option Int
  bronzeCommittedAt : Option Int

def manifestRow (inv : Invocation) (log : Snapshots) : ManifestRow where
  dbtInvocationId := inv.invocationId
  runStartedAt := inv.runStartedAt
  gitSha := (inv.environ "GRIDLENS_GIT_SHA").getD "unknown"
  factorVersion := (inv.environ "GRIDLENS_FACTOR_VERSION").getD "none"
  dbtVersion := inv.dbtVersion
  -- order by committed_at desc limit 1
  bronzeSnapshotId :=
    (log.list.insertionSort fun s t => t.committedAt ≤ s.committedAt).head?.map Snapshot.snapshotId
  bronzeCommittedAt := (log.list.map Snapshot.committedAt).max?

/-! ## The nodes -/

inductive Node where
  | stgGeneration
  | generationVersions
  | generationCurrent
  | periodGenerationNet
  | dailyGenerationMix
  | runManifest
deriving DecidableEq, Repr

/-- The `ref()`s of a model. `run_manifest` has none. -/
def Node.refs : Node → List Node
  | stgGeneration => []
  | generationVersions => [stgGeneration]
  | generationCurrent => [generationVersions]
  | periodGenerationNet => [generationCurrent]
  | dailyGenerationMix => [periodGenerationNet]
  | runManifest => []

/-- What the nodes read and write. `readFrom` is no column: it is the snapshot
that the build of `generation_versions` read. -/
structure Lakehouse (δ : Type) where
  bronze : Snapshots
  versions : List Version
  readFrom : Option Snapshot
  net : List NetRow
  mix : List (MixRow δ)
  runManifest : List ManifestRow

section Build

variable {δ : Type} (quotient : Int → Int → δ) (inv : Invocation)

/-- A node. The two views are read where the table over them is built. -/
def Node.execute (n : Node) (s : Lakehouse δ) : Lakehouse δ :=
  match n with
  | stgGeneration => s
  | generationVersions =>
      { s with
        versions := Gridlens.generationVersions (Gridlens.stgGeneration none (rowsOf s.bronze.current))
        readFrom := s.bronze.current }
  | generationCurrent => s
  | periodGenerationNet =>
      { s with net := Gridlens.periodGenerationNet (Gridlens.generationCurrent s.versions) }
  | dailyGenerationMix => { s with mix := Gridlens.dailyGenerationMix quotient s.net }
  | runManifest => { s with runManifest := s.runManifest ++ [manifestRow inv s.bronze] }

/-- The nodes of production, and commits to bronze at any time. -/
def production : System Node Commit (Lakehouse δ) where
  refs := Node.refs
  execute := Node.execute quotient inv
  interfere s c := (s.bronze.commit c).map fun log => { s with bronze := log }

/-- A production run from what earlier ones left. -/
def dbtRun (s : Lakehouse δ) (es : List (Occurrence Node Commit)) :
    Option (Progress Node (Lakehouse δ)) :=
  run (production quotient inv) ⟨s, []⟩ es

/-- The manifest row of the run has the snapshot that `generation_versions` was
built from. -/
def NamesSnapshotRead (s : Lakehouse δ) : Prop :=
  ∃ row, s.runManifest.getLast? = some row ∧
    row.bronzeSnapshotId = s.readFrom.map Snapshot.snapshotId ∧
    row.bronzeCommittedAt = s.readFrom.map Snapshot.committedAt

/-- How many snapshots are committed before a node runs. -/
def commitsBefore (n : Node) (es : List (Occurrence Node Commit)) : Nat :=
  (before n es).countP Occurrence.isOutside

variable {quotient inv} {s : Lakehouse δ} {p : Progress Node (Lakehouse δ)}
  {es : List (Occurrence Node Commit)}

theorem interfere_eq_some {s s' : Lakehouse δ} {c : Commit}
    (h : (production quotient inv).interfere s c = some s') :
    ∃ log, s.bronze.commit c = some log ∧ s' = { s with bronze := log } := by
  obtain ⟨log, hlog, rfl⟩ := Option.map_eq_some_iff.mp h
  exact ⟨log, hlog, rfl⟩

/-- No node changes bronze. -/
theorem execute_bronze (n : Node) (s : Lakehouse δ) : (n.execute quotient inv s).bronze = s.bronze := by
  cases n <;> rfl

/-- Snapshots are only added. -/
theorem prefix_snapshots {p p' : Progress Node (Lakehouse δ)}
    (hrun : run (production quotient inv) p es = some p') :
    p.state.bronze.list <+: p'.state.bronze.list := by
  refine run_rel (R := fun s s' => s.bronze.list <+: s'.bronze.list)
    (fun s => List.prefix_refl _) List.IsPrefix.trans (fun n s => ?_) (fun s c s' h => ?_) hrun
  · show s.bronze.list <+: (n.execute quotient inv s).bronze.list
    rw [execute_bronze]
  · obtain ⟨log, hlog, rfl⟩ := interfere_eq_some h
    obtain ⟨snapshot, hlist⟩ := commit_list hlog
    rw [hlist]
    exact List.prefix_append _ _

/-- One for each commit. -/
theorem length_snapshots {p p' : Progress Node (Lakehouse δ)}
    (hrun : run (production quotient inv) p es = some p') :
    p'.state.bronze.list.length =
      p.state.bronze.list.length + es.countP Occurrence.isOutside := by
  refine run_count (g := fun s => s.bronze.list.length) (fun n s => ?_) (fun s c s' h => ?_) hrun
  · show (n.execute quotient inv s).bronze.list.length = s.bronze.list.length
    rw [execute_bronze]
  · obtain ⟨log, hlog, rfl⟩ := interfere_eq_some h
    obtain ⟨snapshot, hlist⟩ := commit_list hlog
    rw [hlist, List.length_append, List.length_singleton]

/-- The tables that have been built are those of one snapshot. -/
structure Built (quotient : Int → Int → δ) (p : Progress Node (Lakehouse δ)) : Prop where
  versions : .generationVersions ∈ p.done →
    p.state.versions = (build quotient none (rowsOf p.state.readFrom)).versions
  net : .periodGenerationNet ∈ p.done →
    p.state.net = (build quotient none (rowsOf p.state.readFrom)).net
  mix : .dailyGenerationMix ∈ p.done →
    p.state.mix = (build quotient none (rowsOf p.state.readFrom)).mix

theorem step_built {p p' : Progress Node (Lakehouse δ)} {e : Occurrence Node Commit}
    (hstep : step (production quotient inv) p e = some p')
    (hclosed : Closed (production quotient inv) p) (hp : Built quotient p) : Built quotient p' := by
  cases e with
  | outside c =>
      obtain ⟨s, hs, rfl⟩ := step_outside.mp hstep
      obtain ⟨log, -, rfl⟩ := interfere_eq_some hs
      exact ⟨hp.versions, hp.net, hp.mix⟩
  | ran n =>
      obtain ⟨hn, hrefs, rfl⟩ := step_ran.mp hstep
      have hversions : .generationCurrent ∈ p.done → .generationVersions ∈ p.done :=
        fun h => hclosed _ h _ List.mem_cons_self
      have hcurrent : .periodGenerationNet ∈ p.done → .generationCurrent ∈ p.done :=
        fun h => hclosed _ h _ List.mem_cons_self
      have hnet : .dailyGenerationMix ∈ p.done → .periodGenerationNet ∈ p.done :=
        fun h => hclosed _ h _ List.mem_cons_self
      cases n with
      | stgGeneration | generationCurrent | runManifest =>
          exact ⟨fun h => hp.versions (by simpa using h), fun h => hp.net (by simpa using h),
            fun h => hp.mix (by simpa using h)⟩
      | generationVersions =>
          -- nothing above it has run yet
          refine ⟨fun _ => rfl, fun h => ?_, fun h => ?_⟩
          · exact absurd (hversions (hcurrent (by simpa using h))) hn
          · exact absurd (hversions (hcurrent (hnet (by simpa using h)))) hn
      | periodGenerationNet =>
          have hbuilt := hp.versions (hversions (hrefs _ List.mem_cons_self))
          refine ⟨fun h => hp.versions (by simpa using h), fun _ => ?_, fun h => ?_⟩
          · exact congrArg (fun V => Gridlens.periodGenerationNet (Gridlens.generationCurrent V)) hbuilt
          · exact absurd (hnet (by simpa using h)) hn
      | dailyGenerationMix =>
          have hbuilt := hp.net (hrefs _ List.mem_cons_self)
          refine ⟨fun h => hp.versions (by simpa using h), fun h => hp.net (by simpa using h),
            fun _ => ?_⟩
          show Gridlens.dailyGenerationMix quotient p.state.net =
            (build quotient none (rowsOf p.state.readFrom)).mix
          rw [build_mix, hbuilt]

theorem built_of_run (hrun : dbtRun quotient inv s es = some p) : Built quotient p := by
  have hstart : Closed (production quotient inv) ⟨s, []⟩ ∧ Built quotient ⟨s, []⟩ :=
    ⟨fun _ h => (nomatch h), ⟨fun h => (nomatch h), fun h => (nomatch h), fun h => (nomatch h)⟩⟩
  refine (run_invariant (S := production quotient inv)
    (I := fun p => Closed (production quotient inv) p ∧ Built quotient p) ?_ hrun hstart).2
  rintro p e p' hstep ⟨hclosed, hbuilt⟩
  have hone : run (production quotient inv) p [e] = some p' := run_cons.mpr ⟨p', hstep, rfl⟩
  exact ⟨closed_of_run hone hclosed, step_built hstep hclosed hbuilt⟩

/-- The snapshot that `generation_versions` was built from is the newest of
those committed before it ran. -/
theorem exists_readFrom (hrun : dbtRun quotient inv s es = some p)
    (hversions : .generationVersions ∈ p.done) : ∃ log : Snapshots,
      log.list <+: p.state.bronze.list ∧ p.state.readFrom = log.current ∧
      log.list.length = s.bronze.list.length + commitsBefore .generationVersions es := by
  have hexecute : ∀ m, m ≠ Node.generationVersions → ∀ s : Lakehouse δ,
      (m.execute quotient inv s).readFrom = s.readFrom := by
    intro m hm s
    cases m with
    | generationVersions => exact absurd rfl hm
    | _ => rfl
  have hinterfere : ∀ s c s', (production quotient inv).interfere s c = some s' →
      s'.readFrom = s.readFrom := by
    intro s c s' h
    obtain ⟨log, -, rfl⟩ := interfere_eq_some h
    rfl
  obtain ⟨q, rest, hbefore, hread, hafter⟩ :=
    read_at hexecute hinterfere hrun hversions List.not_mem_nil
  have hpre := prefix_snapshots hafter
  exact ⟨q.state.bronze, hpre, hread, length_snapshots hbefore⟩

/-- The manifest row of a run has the newest snapshot of those committed before
`run_manifest` ran. -/
theorem exists_manifestRow (hrun : dbtRun quotient inv s es = some p)
    (hmanifest : .runManifest ∈ p.done) : ∃ log : Snapshots,
      log.list <+: p.state.bronze.list ∧
      p.state.runManifest.getLast? = some (manifestRow inv log) ∧
      log.list.length = s.bronze.list.length + commitsBefore .runManifest es := by
  have hexecute : ∀ m, m ≠ Node.runManifest → ∀ s : Lakehouse δ,
      (m.execute quotient inv s).runManifest = s.runManifest := by
    intro m hm s
    cases m with
    | runManifest => exact absurd rfl hm
    | _ => rfl
  have hinterfere : ∀ s c s', (production quotient inv).interfere s c = some s' →
      s'.runManifest = s.runManifest := by
    intro s c s' h
    obtain ⟨log, -, rfl⟩ := interfere_eq_some h
    rfl
  obtain ⟨q, rest, hbefore, hread, hafter⟩ :=
    read_at hexecute hinterfere hrun hmanifest List.not_mem_nil
  have hpre := prefix_snapshots hafter
  refine ⟨q.state.bronze, hpre, ?_, length_snapshots hbefore⟩
  rw [hread]
  exact List.getLast?_concat

/-- Every table of a run is built from one snapshot. The manifest row of the
run has the id and the commit time of that snapshot exactly when as many
commits came before `run_manifest` as before `generation_versions`. -/
theorem manifest_names_iff (hrun : dbtRun quotient inv s es = some p)
    (hversions : .generationVersions ∈ p.done) (hmanifest : .runManifest ∈ p.done) :
    Built quotient p ∧ (NamesSnapshotRead p.state ↔
      commitsBefore .generationVersions es = commitsBefore .runManifest es) := by
  refine ⟨built_of_run hrun, ?_⟩
  obtain ⟨log, hpre, hread, hlength⟩ := exists_readFrom hrun hversions
  obtain ⟨log', hpre', hrow, hlength'⟩ := exists_manifestRow hrun hmanifest
  have hid : (log'.current.map Snapshot.snapshotId = log.current.map Snapshot.snapshotId) ↔
      log'.list.length = log.list.length :=
    getLast?_map_eq_iff p.state.bronze.distinct hpre' hpre
  unfold NamesSnapshotRead
  simp only [hrow, Option.some.injEq, exists_eq_left', manifestRow, head?_committedAt,
    max?_committedAt, hread]
  constructor
  · rintro ⟨hsame, -⟩
    have hequal := hid.mp hsame
    omega
  · intro hcommits
    have hequal : log'.list.length = log.list.length := by omega
    have hlist : log'.list = log.list :=
      (List.prefix_of_prefix_length_le hpre' hpre hequal.le).eq_of_length hequal
    unfold Snapshots.current
    rw [hlist]
    exact ⟨rfl, rfl⟩

end Build

/-! ## A commit between the two reads -/

/-- One snapshot of bronze, and nothing built yet. -/
def firstBuild : Lakehouse (Int × Int) where
  bronze := ⟨[⟨1, noonPlus 20, [nuclear 19 100]⟩], by decide, by decide⟩
  versions := []
  readFrom := none
  net := []
  mix := []
  runManifest := []

/-- The invocation, with nothing in the environment. -/
def morningBuild : Invocation := ⟨"1", noonPlus 24, "1.9", fun _ => none⟩

/-- The re-fetch brings in a revision. -/
def refetched : Commit := ⟨⟨NOON, noonPlus 1⟩, [nuclear 24 200], 2, noonPlus 25⟩

/-- The nodes in one order, with something between the two reads. -/
def nodesAround (between : List (Occurrence Node Commit)) : List (Occurrence Node Commit) :=
  [.ran .stgGeneration, .ran .generationVersions] ++ between ++
    [.ran .runManifest, .ran .generationCurrent, .ran .periodGenerationNet,
      .ran .dailyGenerationMix]

/-- The re-fetch is in bronze before either of the two is read. -/
theorem manifest_names_iff_quiet : ∃ p,
    dbtRun Prod.mk morningBuild firstBuild (.outside refetched :: nodesAround []) = some p ∧
    (Built Prod.mk p ∧ (NamesSnapshotRead p.state ↔
      commitsBefore .generationVersions (.outside refetched :: nodesAround []) =
        commitsBefore .runManifest (.outside refetched :: nodesAround []))) := by
  have hruns : (dbtRun Prod.mk morningBuild firstBuild
      (.outside refetched :: nodesAround [])).any (fun p =>
        decide (.generationVersions ∈ p.done) && decide (.runManifest ∈ p.done)) = true := by
    decide +kernel
  obtain ⟨p, hrun, hdone⟩ := (Option.any_eq_true _ _).mp hruns
  rw [Bool.and_eq_true, decide_eq_true_eq, decide_eq_true_eq] at hdone
  exact ⟨p, hrun, manifest_names_iff hrun hdone.1 hdone.2⟩

/-- Every node has run, gold has the first value, and the manifest says the
second snapshot. -/
theorem manifest_names_other_snapshot : ∃ p,
    dbtRun Prod.mk morningBuild firstBuild (nodesAround [.outside refetched]) = some p ∧
    (∀ n, n ∈ p.done) ∧ ¬ NamesSnapshotRead p.state := by
  refine ⟨_, rfl, fun n => by cases n <;> decide, ?_⟩
  rintro ⟨row, hrow, hid, -⟩
  obtain rfl := Option.some.inj hrow
  exact absurd hid (by decide)

end Gridlens
