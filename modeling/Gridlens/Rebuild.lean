import Gridlens.IngestRetry

/-!
# Rebuilding bronze from the raw bucket

The daily ingest keeps the document it fetched before it parses it. Passing the
kept documents through the parser, the gate and the merge again should give
bronze back. It gives back what the ingest loaded. A backfill, and with it the
morning re-fetch, merges without keeping the document, so what it inserts has
nothing behind it (`rebuild_iff`).
-/

namespace Gridlens

open Effects
open Effects.Program (lift ask)

/-! ## What the runs leave in the bucket -/

/-- A raw document, with the window and the `known_at` of the run that wrote it. -/
structure Kept where
  window : MergeWindow
  knownAt : DateTime
  body : Bytes

/-- The writing of a raw document, whether or not it succeeds. -/
def Effect.writesRaw : Effect → Bool
  | .put _ (.raw ..) _ => true
  | _ => false

/-- The raw documents that are there after the effects of a run. The last
request that was answered with a document is the one they come from. Every
object is written once, under a key of its own. -/
def keptFrom (k : FetchResult → Py DateTime) : Option (MergeWindow × FetchResult) → Trace → List Kept
  | _, [] => []
  | _, .fetched _ start stop (.ok fetched) :: es =>
      keptFrom k (some (⟨start.micros, stop.micros⟩, fetched)) es
  | some (W, fetched), .put _ (.raw _ _ _ _ body) outcome :: es =>
      (match outcome.stored, k fetched with
        | true, .ok knownAt => [⟨W, knownAt, body⟩]
        | _, _ => []) ++ keptFrom k (some (W, fetched)) es
  | asked, _ :: es => keptFrom k asked es

/-- The raw documents a call leaves. -/
def Call.kept (o : Outside) (h : Trace) (c : Call) : List Kept :=
  keptFrom (c.knownAt o (h ++ [.began])) none (c.run o (h ++ [.began])).2

/-- The trace of the runs, and what they left in the raw bucket, in run order. -/
structure Lake where
  trace : Trace
  raw : List Kept

def Lake.after (o : Outside) (lake : Lake) (c : Call) : Lake :=
  ⟨c.after o lake.trace, lake.raw ++ c.kept o lake.trace⟩

def lakeOf (o : Outside) (calls : List Call) : Lake := calls.foldl (Lake.after o) ⟨[], []⟩

/-! ## Passing them again -/

/-- The rows of a document, parsed and gated again. -/
def Kept.rows (o : Outside) (kept : Kept) : List Row := answerRows o kept.knownAt (some kept.body)

/-- The merge of a document. One that does not parse has no rows. -/
def Kept.replay (o : Outside) (T : List Row) (kept : Kept) : List Row :=
  merge kept.window (kept.rows o) T

/-- The raw documents passed into an empty table. -/
def rebuild (o : Outside) (raw : List Kept) : List Row := raw.foldl (Kept.replay o) []

theorem rebuild_append (o : Outside) (raw raw' : List Kept) :
    rebuild o (raw ++ raw') = raw'.foldl (Kept.replay o) (rebuild o raw) := List.foldl_append

theorem lakeOf_concat (o : Outside) (calls : List Call) (c : Call) :
    lakeOf o (calls ++ [c]) = (lakeOf o calls).after o c := by
  simp [lakeOf]

theorem lakeOf_trace (o : Outside) (calls : List Call) : (lakeOf o calls).trace = runAll o calls := by
  induction calls using List.reverseRecOn with
  | nil => rfl
  | append_singleton calls c ih =>
      rw [lakeOf_concat, runAll_concat]
      exact congrArg (fun h => c.after o h) ih

/-! ## Calls that insert nothing -/

/-- Every row lies in the window and is held or unchanged: nothing to insert. -/
abbrev Known (W : MergeWindow) (S T : List Row) : Prop :=
  ∀ row ∈ S, W.contains row.validTime = true ∧ Settled T row

/-- The effect is no merge that takes effect, or its batch is known. -/
def InsertsNothing (database : String) (s : Store) : Effect → Prop
  | .merged database' _ batchId W outcome =>
      database' = database ∧ outcome.committed = true → Known W (s.batch batchId) s.bronze
  | _ => True

theorem step_bronze_eq_iff {database : String} {s : Store} {e : Effect} :
    (s.step database e).bronze = s.bronze ↔ InsertsNothing database s e := by
  rw [Store.step_bronze]
  cases e with
  | merged database' workgroup batchId W outcome =>
      simp only [InsertsNothing]
      split
      · rename_i hcommit
        rw [merge_eq_self_iff]
        exact ⟨fun h _ => h, fun h => h hcommit⟩
      · rename_i hcommit
        exact ⟨fun _ h => absurd h hcommit, fun _ => rfl⟩
  | _ => exact ⟨fun _ => trivial, fun _ => rfl⟩

/-- No row is ever removed, so bronze is what it was when no effect inserts. -/
theorem after_bronze_eq_iff {database : String} {s : Store} {es : Trace} :
    (s.after database es).bronze = s.bronze ↔
      ∀ pre e, pre ++ [e] <+: es → InsertsNothing database (s.after database pre) e := by
  have hgrow : ∀ pre, pre <+: es → (s.after database es).bronze = s.bronze →
      (s.after database pre).bronze = s.bronze := by
    rintro pre ⟨post, rfl⟩ hsame
    refine ((prefix_after database s pre).eq_of_length_le ?_).symm
    rw [← hsame, after_append]
    exact (prefix_after database _ post).length_le
  have hsteps := @forall_prefix_iff _ _ (Store.step database) (fun s' => s'.bronze = s.bronze)
    (InsertsNothing database) s rfl (fun s' e hs' => by rw [← step_bronze_eq_iff, hs']) es
  exact ⟨fun hsame => hsteps.mp fun pre hpre => hgrow pre hpre hsame,
    fun hall => hsteps.mpr hall es (List.prefix_refl es)⟩

/-! ## Which calls leave a document -/

section Leaves

/-- The effect writes no raw document. -/
abbrev NotRaw (e : Effect) : Prop := e.writesRaw = false

theorem keptFrom_notRaw {k : FetchResult → Py DateTime} {es : Trace} (hes : ∀ e ∈ es, NotRaw e)
    (asked : Option (MergeWindow × FetchResult)) : keptFrom k asked es = [] := by
  fun_induction keptFrom k asked es with
  | case1 => rfl
  | case2 _ _ _ _ _ _ ih => exact ih fun e he => hes e (List.mem_cons_of_mem _ he)
  | case3 => exact absurd (hes _ List.mem_cons_self) (by simp [NotRaw, Effect.writesRaw])
  | case4 _ _ _ _ _ ih => exact ih fun e he => hes e (List.mem_cons_of_mem _ he)

theorem leaves_gate {P : Effect → Prop} {body : Bytes} {knownAt : DateTime} :
    Leaves P (gate body knownAt) :=
  leaves_bind leaves_ask fun _ => leaves_lift

theorem leaves_targetDay {P : Effect → Prop} {environ : Environ} {event : Event} :
    Leaves P (targetDay environ event) := by
  unfold targetDay
  split
  · exact leaves_bind leaves_ask fun _ => leaves_lift
  · exact leaves_bind leaves_lift fun _ => leaves_bind leaves_ask fun _ =>
      leaves_bind leaves_lift fun _ => leaves_bind leaves_lift fun _ => leaves_bind leaves_ask fun _ =>
      leaves_bind leaves_lift fun _ => leaves_bind leaves_ask fun _ => leaves_lift

theorem leaves_entsoeToken {P : Effect → Prop} {environ : Environ} :
    Leaves P (entsoeToken environ) := by
  refine leaves_bind leaves_lift fun _ => leaves_bind leaves_ask fun _ =>
    leaves_bind leaves_lift fun _ => ?_
  split
  · exact leaves_lift
  · exact leaves_pure

theorem leaves_actualGenerationPerType {code : String} {start stop : Instant} :
    Leaves NotRaw (actualGenerationPerType code start stop) := by
  refine leaves_bind (leaves_act.mpr fun _ _ => rfl) fun answer => ?_
  split
  · exact leaves_pure
  · split
    · exact leaves_pure
    · exact leaves_lift

theorem leaves_stagingWrite {bucket : String} {records : List GenerationRecord} :
    Leaves NotRaw (stagingWrite bucket records) := by
  unfold stagingWrite
  split
  · exact leaves_pure
  · exact leaves_bind leaves_ask fun _ => leaves_bind (leaves_act.mpr fun _ _ => rfl) fun _ =>
      leaves_pure

theorem leaves_quarantineWrite {bucket : String} {violations : List Violation} {seenAt : Instant} :
    Leaves NotRaw (quarantineWrite bucket violations seenAt) := by
  unfold quarantineWrite
  split
  · exact leaves_pure
  · exact leaves_bind leaves_ask fun _ => leaves_bind (leaves_act.mpr fun _ _ => rfl) fun _ =>
      leaves_pure

theorem leaves_mergeBatch {database workgroup batchId : String} {start stop : Instant} :
    Leaves NotRaw (mergeBatch database workgroup batchId start stop) := by
  refine leaves_bind leaves_lift fun _ => leaves_bind (leaves_act.mpr fun _ _ => rfl) fun _ => ?_
  split
  · exact leaves_pure
  · exact leaves_lift

theorem leaves_backfillDay (args : BackfillArgs) (s : BackfillState) (day : Date) :
    Leaves NotRaw (backfillDay args s day) := by
  refine leaves_bind leaves_lift fun _ => leaves_bind leaves_actualGenerationPerType fun found => ?_
  split
  · exact leaves_pure
  · refine leaves_bind leaves_gate fun _ => leaves_bind leaves_stagingWrite fun ⟨_, _⟩ => ?_
    show Leaves NotRaw (if _ = 0 then _ else _)
    split
    · exact leaves_pure
    · exact leaves_bind leaves_mergeBatch fun _ => leaves_pure

/-- A backfill keeps no raw document. -/
theorem leaves_backfill (args : BackfillArgs) : Leaves NotRaw (backfill args) :=
  leaves_bind leaves_lift fun _ =>
    leaves_bind (leaves_foldlM (leaves_backfillDay args) _ _) fun _ => leaves_pure

theorem leaves_refetch (environ : Environ) (event : Event) :
    Leaves NotRaw (refetch environ event) := by
  refine leaves_bind leaves_lift fun _ => leaves_bind leaves_ask fun _ =>
    leaves_bind leaves_lift fun _ => leaves_bind leaves_ask fun _ => leaves_bind leaves_ask fun _ =>
    leaves_bind leaves_lift fun _ => leaves_bind leaves_ask fun _ => leaves_bind leaves_lift fun _ =>
    leaves_bind leaves_entsoeToken fun _ => ?_
  exact leaves_bind leaves_lift fun _ => leaves_bind leaves_lift fun _ =>
    leaves_bind leaves_lift fun _ => leaves_bind leaves_lift fun _ => leaves_backfill _

theorem leaves_servePoll (d : Delivery) : Leaves NotRaw (servePoll d) := by
  intro o h e he
  obtain ⟨report, -, rfl⟩ := List.mem_map.mp he
  rfl

theorem leaves_produce (d : Delivery) (message : Message) : Leaves NotRaw (produce d message) :=
  leaves_act.mpr fun _ _ => rfl

theorem leaves_pollDay (args : PollArgs) (s : PollState) (day : Date) :
    Leaves NotRaw (pollDay args s day) := by
  refine leaves_bind leaves_lift fun _ => leaves_bind leaves_actualGenerationPerType fun found => ?_
  split
  · exact leaves_pure
  · refine leaves_bind leaves_gate fun _ => leaves_bind (leaves_foldlM ?_ _ _) fun _ =>
      leaves_bind (leaves_foldlM (fun d violation => leaves_produce d _) _ _) fun _ => leaves_pure
    exact fun d record => leaves_bind leaves_ask fun _ => leaves_bind leaves_lift fun _ =>
      leaves_bind (leaves_produce _ _) fun _ => leaves_servePoll _

theorem leaves_pollOnce (args : PollArgs) : Leaves NotRaw (pollOnce args) := by
  refine leaves_bind leaves_lift fun _ => leaves_bind (leaves_foldlM (leaves_pollDay args) _ _)
    fun _ => leaves_bind (leaves_bind (leaves_servePoll _) fun _ => leaves_bind leaves_ask fun _ =>
    leaves_pure) fun ⟨_, _⟩ => ?_
  show Leaves NotRaw (if _ then _ else _)
  split
  · exact leaves_lift
  · exact leaves_pure

end Leaves

/-! ## What an ingest does -/

/-- The effects merge these rows or nothing. -/
def MergesAtMost (database : String) (W : MergeWindow) (rows : List Row) (es : Trace) : Prop :=
  ∀ s : Store, (s.after database es).bronze =
    if es.any (Effect.commits database) then merge W rows s.bronze else s.bronze

section Ingest

variable {o : Outside} {h : Trace} {environ : Environ} {event : Event} {database : String}
  {W : MergeWindow} {rows : List Row} {es es' : Trace} {asked : List (Instant × Instant)}

theorem Quiet.mergesAtMost (hes : Quiet database es asked) : MergesAtMost database W rows es := by
  intro s
  rw [hes.commits]
  exact hes.bronze s

theorem MergesAtMost.after_quiet (hes' : MergesAtMost database W rows es')
    (hes : Quiet database es asked) : MergesAtMost database W rows (es ++ es') := by
  intro s
  rw [after_append, hes' _, hes.bronze, List.any_append, hes.commits, Bool.false_or]

theorem mergesAtMost_staged {batchId : String} (hes : Quiet database es asked)
    (hbatch : ∀ s : Store, (s.after database es).batch batchId = rows)
    (hmerged : ∀ s : Store, (s.after database es').bronze =
      if es'.any (Effect.commits database) then merge W (s.batch batchId) s.bronze
      else s.bronze) : MergesAtMost database W rows (es ++ es') := by
  intro s
  rw [after_append, hmerged, hbatch, hes.bronze, List.any_append, hes.commits, Bool.false_or]

/-- The documents that the effects leave are none, or one whose rows are what
the effects merge at most. -/
def Archives (o : Outside) (database : String) (kept : List Kept) (es : Trace) : Prop :=
  kept = [] ∨ ∃ entry, kept = [entry] ∧ MergesAtMost database entry.window (entry.rows o) es

/-- The handler from a document it has kept on. -/
def ingestKept (environ : Environ) (zone : BiddingZone) (day : Date) (start stop : Instant)
    (fetched : FetchResult) (knownAt : Instant) (rawId : UUID) (rawBucket : String) :
    Job IngestSummary := do
  let result ← gate fetched.body knownAt.toDateTime
  let quarantineBucket ← lift (env environ "GRIDLENS_QUARANTINE_BUCKET" none)
  let quarantined ← quarantineWrite quarantineBucket result.violations knownAt
  let (batchId, staged) ← stagingWrite rawBucket result.records
  let scanned ←
    if staged = 0 then pure 0
    else do
      let database ← lift (env environ "GRIDLENS_BRONZE_DATABASE" (some "gridlens_bronze"))
      let workgroup ← lift (env environ "GRIDLENS_ATHENA_WORKGROUP" (some "gridlens"))
      mergeBatch database workgroup batchId start stop
  return .done zone day knownAt rawId fetched.body.length result.accepted quarantined
    result.gaps.length batchId staged scanned

theorem ingestFetched_eq (environ : Environ) (event : Event) (zone : BiddingZone) (day : Date)
    (start stop : Instant) (fetched : FetchResult) :
    ingestFetched environ event zone day start stop fetched = (do
      let knownAt ← lift (← ask fun o _ => parseKnownAt o.readers event.knownAt fetched.fetchedAt)
      let rawId ← uuid4
      let rawBucket ← lift (env environ "GRIDLENS_RAW_BUCKET" none)
      putObject rawBucket (.raw zone day (knownAt.micros / SECOND) rawId fetched.body)
      ingestKept environ zone day start stop fetched knownAt rawId rawBucket) := rfl

section Kept

variable {zone : BiddingZone} {day : Date} {start stop : Instant} {fetched : FetchResult}
  {knownAt : Instant} {rawId : UUID} {rawBucket : String}

theorem leaves_ingestKept :
    Leaves NotRaw (ingestKept environ zone day start stop fetched knownAt rawId rawBucket) := by
  refine leaves_bind leaves_gate fun _ => leaves_bind leaves_lift fun _ =>
    leaves_bind leaves_quarantineWrite fun _ => leaves_bind leaves_stagingWrite fun _ => ?_
  split
  split
  · exact leaves_bind leaves_pure fun _ => leaves_pure
  · exact leaves_bind leaves_lift fun _ => leaves_bind leaves_lift fun _ =>
      leaves_bind leaves_mergeBatch fun _ => leaves_pure

/-- From a kept document on, its rows are merged or nothing is. -/
theorem ends_ingestKept (database : String) :
    Ends o (ingestKept environ zone day start stop fetched knownAt rawId rawBucket) (fun _ es =>
      MergesAtMost database ⟨start.micros, stop.micros⟩
        (answerRows o knownAt.toDateTime (some fetched.body)) es) h := by
  unfold ingestKept
  rw [ends_bind, ends_gate]
  cases hgate : o.gate fetched.body knownAt.toDateTime with
  | error error => exact (quiet_nil database).mergesAtMost
  | ok result =>
      have hrows : answerRows o knownAt.toDateTime (some fetched.body) =
          result.records.map stagedRow := by
        simp only [answerRows, hgate]
      rw [hrows]
      simp only [List.nil_append, List.append_nil]
      refine ends_bind_silent leaves_lift (fun _ => (quiet_nil database).mergesAtMost) fun _ => ?_
      rw [ends_bind]
      refine (ends_quarantineWrite database).mono fun r es₁ hrefused => ?_
      cases r with
      | error error => exact hrefused.mergesAtMost
      | ok quarantined =>
          simp only
          rw [ends_bind]
          refine (ends_stagingWrite database).mono fun r es₂ hstaged => ?_
          obtain ⟨hstaged, hbatch⟩ := hstaged
          have hnothing : MergesAtMost database ⟨start.micros, stop.micros⟩
              (result.records.map stagedRow) (es₁ ++ es₂) :=
            hstaged.mergesAtMost.after_quiet hrefused
          cases r with
          | error error => exact hnothing
          | ok batch =>
              obtain ⟨batchId, staged⟩ := batch
              obtain ⟨-, hbatch⟩ := hbatch
              simp only
              split
              · rw [ends_bind, ends_pure]
                simp only [ends_pure, List.append_nil]
                exact hnothing
              · rename_i hsome
                refine ends_bind_silent leaves_lift (fun _ => by rwa [List.append_nil])
                  fun target => ends_bind_silent leaves_lift (fun _ => by rwa [List.append_nil])
                  fun workgroup => ?_
                rw [ends_bind]
                refine (ends_mergeBatch database).mono fun r es₃ hmerged => ?_
                have hall : MergesAtMost database ⟨start.micros, stop.micros⟩
                    (result.records.map stagedRow) (es₁ ++ (es₂ ++ es₃)) :=
                  (mergesAtMost_staged hstaged (hbatch hsome) hmerged.2.1).after_quiet hrefused
                cases r with
                | error error => exact hall
                | ok scanned =>
                    simp only [ends_pure, List.append_nil]
                    exact hall

/-- The document is kept before anything of it is merged. -/
theorem ends_ingestFetched {k : FetchResult → Py DateTime} (database : String)
    (hk : k fetched =
      (parseKnownAt o.readers event.knownAt fetched.fetchedAt).map Instant.toDateTime) :
    Ends o (ingestFetched environ event zone day start stop fetched) (fun _ es =>
      Archives o database (keptFrom k (some (⟨start.micros, stop.micros⟩, fetched)) es) es) h := by
  rw [ingestFetched_eq, ends_bind, ends_ask]
  simp only
  rw [ends_bind, ends_lift]
  cases hknown : parseKnownAt o.readers event.knownAt fetched.fetchedAt with
  | error error => exact Or.inl rfl
  | ok knownAt =>
      have hkept : k fetched = .ok knownAt.toDateTime := by
        rw [hk, hknown]
        rfl
      simp only [List.nil_append, List.append_nil]
      refine ends_bind_silent leaves_ask (fun _ => Or.inl rfl) fun rawId =>
        ends_bind_silent leaves_lift (fun _ => Or.inl rfl) fun rawBucket => ?_
      rw [ends_bind, putObject, ends_act]
      generalize o.putObject h rawBucket (.raw zone day (knownAt.micros / SECOND) rawId fetched.body)
        = outcome
      have hput : Quiet database
          [.put rawBucket (.raw zone day (knownAt.micros / SECOND) rawId fetched.body) outcome] [] :=
        ⟨rfl, rfl⟩
      cases outcome with
      | raised error done =>
          -- the request may have arrived all the same
          cases done with
          | false => exact Or.inl (by simp [keptFrom, Outcome.stored])
          | true =>
              refine Or.inr ⟨⟨⟨start.micros, stop.micros⟩, knownAt.toDateTime, fetched.body⟩, ?_,
                hput.mergesAtMost⟩
              simp [keptFrom, Outcome.stored, hkept]
      | answered _ =>
          simp only [Outcome.result]
          refine ((ends_ingestKept database).leaves leaves_ingestKept).mono fun r es hes => ?_
          obtain ⟨hmerges, hraw⟩ := hes
          refine Or.inr ⟨⟨⟨start.micros, stop.micros⟩, knownAt.toDateTime, fetched.body⟩, ?_,
            hmerges.after_quiet hput⟩
          simp [keptFrom, Outcome.stored, hkept, keptFrom_notRaw hraw]

end Kept

theorem keptFrom_fetched {k : FetchResult → Py DateTime} {code : String} {start stop : Instant}
    {fetched : FetchResult} (es : Trace) :
    keptFrom k none ([.fetched code start stop (.ok fetched)] ++ es) =
      keptFrom k (some (⟨start.micros, stop.micros⟩, fetched)) es := rfl

/-- An ingest keeps no document and merges nothing, or keeps the one whose rows
it merges at most. -/
theorem ends_ingest {k : FetchResult → Py DateTime} (database : String)
    (hk : ∀ fetched, k fetched =
      (parseKnownAt o.readers event.knownAt fetched.fetchedAt).map Instant.toDateTime) :
    Ends o (ingest environ event) (fun _ es => Archives o database (keptFrom k none es) es) h := by
  unfold ingest
  refine ends_bind_silent leaves_lift (fun _ => Or.inl rfl) fun zone =>
    ends_bind_silent leaves_lift (fun _ => Or.inl rfl) fun zoneTzName =>
    ends_bind_silent leaves_ask (fun _ => Or.inl rfl) fun zoneTz =>
    ends_bind_silent leaves_lift (fun _ => Or.inl rfl) fun zoneTz =>
    ends_bind_silent leaves_targetDay (fun _ => Or.inl rfl) fun day =>
    ends_bind_silent leaves_lift (fun _ => Or.inl rfl) fun bounds => ?_
  refine ends_bind_silent leaves_entsoeToken (fun _ => Or.inl rfl) fun _ => ?_
  rw [ends_bind]
  refine ((ends_actualGenerationPerType database).leaves leaves_actualGenerationPerType).mono
    fun r es hfetch => ?_
  obtain ⟨⟨hes, hquiet, hfound⟩, hraw⟩ := hfetch
  cases r with
  | error error => exact Or.inl (keptFrom_notRaw hraw none)
  | ok found =>
      cases found with
      | none =>
          simp only [ends_pure, List.append_nil]
          exact Or.inl (keptFrom_notRaw hraw none)
      | some fetched =>
          refine (ends_ingestFetched database (hk fetched)).mono fun r es' hes' => ?_
          rw [hes, hfound]
          rw [hes] at hquiet
          rw [keptFrom_fetched]
          obtain hnone | ⟨entry, hentry, hmerges⟩ := hes'
          · exact Or.inl hnone
          · refine Or.inr ⟨entry, hentry, ?_⟩
            rw [← hfound]
            exact hmerges.after_quiet hquiet

end Ingest

/-! ## Whole runs -/

section Runs

variable {o : Outside} {database : String} {h : Trace} {c : Call}

/-- What a call does that leaves the bucket able to give bronze back. -/
structure Call.Rebuildable (o : Outside) (database : String) (h : Trace) (c : Call) : Prop where
  /-- A call that leaves no document inserts nothing. -/
  unkept : c.kept o h = [] → ∀ pre e, pre ++ [e] <+: (c.run o (h ++ [.began])).2 →
    InsertsNothing database (store database (h ++ [.began] ++ pre)) e
  /-- One that leaves a document merges it, unless its rows are known. -/
  kept : ∀ entry ∈ c.kept o h, (c.run o (h ++ [.began])).2.any (Effect.commits database) = true ∨
    Known entry.window (entry.rows o) (bronze database h)

theorem archives_call (o : Outside) (database : String) (h : Trace) (c : Call) :
    Archives o database (c.kept o h) (c.run o (h ++ [.began])).2 := by
  have hnone : Leaves NotRaw c.run → Archives o database (c.kept o h)
      (c.run o (h ++ [.began])).2 := fun hc => Or.inl (keptFrom_notRaw (hc o _) none)
  cases c with
  | ingest environ event =>
      have hingest : Ends o (Call.ingest environ event).run (fun _ es => Archives o database
          (keptFrom ((Call.ingest environ event).knownAt o (h ++ [.began])) none es) es)
          (h ++ [.began]) := by
        rw [Call.run, ends_bind]
        refine (ends_ingest database fun _ => rfl).mono fun r es hes => ?_
        cases r with
        | error error => exact hes
        | ok _ =>
            simp only [ends_pure, List.append_nil]
            exact hes
      exact hingest
  | backfill args => exact hnone (leaves_bind (leaves_backfill args) fun _ => leaves_pure)
  | refetch environ event =>
      exact hnone (leaves_bind (leaves_refetch environ event) fun _ => leaves_pure)
  | poll args => exact hnone (leaves_bind (leaves_pollOnce args) fun _ => leaves_pure)

theorem store_append (database : String) (h es : Trace) :
    store database (h ++ es) = (store database h).after database es := List.foldl_append

theorem bronze_after (c : Call) : bronze database (c.after o h) =
    ((store database h).after database (c.run o (h ++ [.began])).2).bronze := by
  rw [bronze, Call.after, store_append, store_concat]
  rfl

theorem perm_iff_eq_of_extends {α : Type} {l l' : List α} (h : l <+: l') : l.Perm l' ↔ l = l' :=
  ⟨fun hperm => h.eq_of_length hperm.length_eq, fun heq => heq ▸ List.Perm.refl l⟩

/-- One call on top of a table that can be rebuilt. -/
theorem rebuild_call_iff {raw : List Kept} (hraw : rebuild o raw = bronze database h) (c : Call) :
    ((rebuild o (raw ++ c.kept o h)).Perm (bronze database (c.after o h)) ↔
      rebuild o (raw ++ c.kept o h) = bronze database (c.after o h)) ∧
    (rebuild o (raw ++ c.kept o h) = bronze database (c.after o h) ↔
      c.Rebuildable o database h) := by
  rw [bronze_after, rebuild_append, hraw]
  have hbefore : bronze database h = (store database h).bronze := rfl
  rcases archives_call o database h c with hnone | ⟨entry, hentry, hmerges⟩
  · rw [hnone, List.foldl_nil, hbefore]
    refine ⟨perm_iff_eq_of_extends (prefix_after database _ _), ?_⟩
    rw [eq_comm, after_bronze_eq_iff]
    constructor
    · intro hall
      refine ⟨fun _ pre e hpre => ?_, fun entry he => ?_⟩
      · rw [store_append, store_concat]
        exact hall pre e hpre
      · rw [hnone] at he
        cases he
    · intro hc pre e hpre
      have hstep := hc.unkept hnone pre e hpre
      rwa [store_append, store_concat] at hstep
  · have hgrow : (store database h).bronze <+:
        merge entry.window (entry.rows o) (store database h).bronze :=
      Sql.prefix_mergeInsert _ _ _ _
    rw [hentry, hmerges, List.foldl_cons, List.foldl_nil, Kept.replay, hbefore]
    split
    · rename_i hcommits
      refine ⟨iff_of_true (List.Perm.refl _) rfl, iff_of_true rfl ⟨fun hnil => ?_, fun _ _ => ?_⟩⟩
      · rw [hentry] at hnil
        cases hnil
      · exact Or.inl hcommits
    · rename_i hcommits
      rw [List.perm_comm, eq_comm, perm_iff_eq_of_extends hgrow, eq_comm, merge_eq_self_iff]
      refine ⟨Iff.rfl, fun hknown => ⟨fun hnil => ?_, fun e he => ?_⟩, fun hc => ?_⟩
      · rw [hentry] at hnil
        cases hnil
      · rw [hentry] at he
        rw [List.mem_singleton.mp he]
        exact Or.inr hknown
      · exact (hc.kept entry (by rw [hentry]; exact List.mem_cons_self)).resolve_left hcommits

end Runs

/-- What the daily ingest loads comes back. -/
example : rebuild (smallOutside ["100"]) (lakeOf (smallOutside ["100"]) [smallIngest]).raw =
    bronze "gridlens_bronze" (runAll (smallOutside ["100"]) [smallIngest]) := by decide +kernel

end Gridlens
