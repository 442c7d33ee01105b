import Gridlens.Producer

/-!
# Calls of the entry points, in sequence

A run of the system is a sequence of calls, whatever each returns or raises:
the outside sees the effects of all of them, one trace. `merges_gated` ties
the bronze table to the documents: every merge any call sends is, over the
settlement day it fetched, of the rows the gate made of that document.
-/

namespace Gridlens

open Effects

/-- A call of an entry point. -/
inductive Call where
  | ingest (environ : Environ) (event : Event)
  | backfill (args : BackfillArgs)
  | refetch (environ : Environ) (event : Event)
  | poll (args : PollArgs)

def Call.run : Call → Job Unit
  | .ingest environ event => do let _ ← Gridlens.ingest environ event
  | .backfill args => do let _ ← Gridlens.backfill args
  | .refetch environ event => do let _ ← Gridlens.refetch environ event
  | .poll args => do let _ ← pollOnce args

/-- The trace after one more call. -/
def Call.after (o : Outside) (h : Trace) (c : Call) : Trace :=
  h ++ [.began] ++ (c.run o (h ++ [.began])).2

/-- The trace of a sequence of calls. -/
def runAll (o : Outside) (calls : List Call) : Trace := calls.foldl (Call.after o) []

theorem runAll_concat (o : Outside) (calls : List Call) (c : Call) :
    runAll o (calls ++ [c]) = c.after o (runAll o calls) := by
  simp [runAll]

theorem runAll_mono {o : Outside} {before calls : List Call} (hpre : before <+: calls) :
    runAll o before <+: runAll o calls := by
  rcases hpre with ⟨rest, rfl⟩
  induction rest using List.reverseRecOn with
  | nil => rw [List.append_nil]
  | append_singleton rest c ih =>
      rw [← List.append_assoc, runAll_concat, Call.after, List.append_assoc]
      exact ih.trans (List.prefix_append _ _)

/-! ## What a merge carries -/

/-- When a document that the call fetches becomes known. -/
def Call.knownAt (o : Outside) (h : Trace) : Call → FetchResult → Py DateTime
  | .ingest _ event, fetched =>
      (parseKnownAt o.readers event.knownAt fetched.fetchedAt).map Instant.toDateTime
  | .backfill args, _ => .ok args.knownAt
  | .refetch _ event, _ => (parseKnownAt o.readers event.knownAt (o.now h)).map Instant.toDateTime
  | .poll _, fetched => .ok fetched.fetchedAt.toSecond.toDateTime

/-- A merge sent after `h` carries the gated rows of a document fetched for
the settlement day of its window. -/
def Gated (o : Outside) (h : Trace) : Effect → Prop
  | .merged _ _ batchId W _ => ∃ day zone start stop code fetched knownAt result,
      settlementDay day zone = .ok (start, stop) ∧ W = ⟨start.micros, stop.micros⟩ ∧
        .fetched code start stop (.ok fetched) ∈ h ∧
          o.gate fetched.body knownAt = .ok result ∧
            ∀ database, (store database h).batch batchId = result.records.map stagedRow
  | _ => True

/-- And within one call, that document as known when the call says. A fetch has
the answer of the outside. -/
def GatedAs (o : Outside) (k : FetchResult → Py DateTime) (h : Trace) : Effect → Prop
  | .fetched code start stop answer => answer = o.fetch h code start stop
  | .merged _ _ batchId W _ => ∃ day zone start stop code fetched knownAt result,
      settlementDay day zone = .ok (start, stop) ∧ W = ⟨start.micros, stop.micros⟩ ∧
        .fetched code start stop (.ok fetched) ∈ h ∧ k fetched = .ok knownAt ∧
          o.gate fetched.body knownAt = .ok result ∧
            ∀ database, (store database h).batch batchId = result.records.map stagedRow
  | _ => True

theorem GatedAs.gated {o : Outside} {k : FetchResult → Py DateTime} {h : Trace} {e : Effect}
    (he : GatedAs o k h e) : Gated o h e := by
  cases e with
  | merged database workgroup batchId W outcome =>
      rcases he with ⟨day, zone, start, stop, code, fetched, knownAt, result, hday, hW, hf, -, hrest⟩
      exact ⟨day, zone, start, stop, code, fetched, knownAt, result, hday, hW, hf, hrest⟩
  | _ => trivial

section Merges

variable {o : Outside} {k : FetchResult → Py DateTime} {h : Trace}

theorem wp_gate {R : Trace → Effect → Prop} {body : Bytes} {knownAt : DateTime}
    {Q : GateResult → Trace → Prop}
    (hQ : ∀ result, o.gate body knownAt = .ok result → Q result h) :
    Wp o R (gate body knownAt) Q h := by
  simp only [gate, wp_bind, wp_ask, wp_lift]
  exact hQ

/-- A staged batch can be read back under its id. -/
theorem wp_stagingWrite {bucket : String} {records : List GenerationRecord}
    {Q : String × Nat → Trace → Prop}
    (hQ : ∀ batchId n h', h <+: h' → (n ≠ 0 → ∀ database,
      (store database h').batch batchId = records.map stagedRow) → Q (batchId, n) h') :
    Wp o (GatedAs o k) (stagingWrite bucket records) Q h := by
  unfold stagingWrite
  split
  · rw [wp_pure]
    exact hQ "" 0 h (List.prefix_refl h) fun hn => absurd rfl hn
  · simp only [uuid4, putObject, wp_bind, wp_ask, wp_act, wp_pure, Outcome.result_eq_ok]
    refine ⟨trivial, fun _ hput => hQ _ _ _ (List.prefix_append h _) fun _ database => ?_⟩
    rw [store_concat, hput]
    simp [Store.step, Outcome.stored, Store.batch]

theorem wp_mergeBatch {database workgroup batchId : String} {start stop : Instant}
    (hG : ∀ outcome, GatedAs o k h
      (.merged database workgroup batchId ⟨start.micros, stop.micros⟩ outcome)) :
    Wp o (GatedAs o k) (mergeBatch database workgroup batchId start stop) (fun _ _ => True) h := by
  simp only [mergeBatch, executeMerge, wp_bind, wp_act, wp_lift]
  refine fun _ _ => ⟨hG _, fun execution _ => ?_⟩
  split <;> simp

theorem wp_quarantineWrite {bucket : String} {violations : List Violation} {seenAt : Instant}
    {Q : Nat → Trace → Prop} (hQ : ∀ n h', h <+: h' → Q n h') :
    Wp o (GatedAs o k) (quarantineWrite bucket violations seenAt) Q h := by
  unfold quarantineWrite
  split
  · rw [wp_pure]
    exact hQ 0 h (List.prefix_refl h)
  · simp only [uuid4, putObject, wp_bind, wp_ask, wp_act, wp_pure]
    exact ⟨trivial, fun _ _ => hQ _ _ (List.prefix_append h _)⟩

theorem wp_actualGenerationPerType {code : String} {start stop : Instant}
    {Q : Option FetchResult → Trace → Prop} (hnone : ∀ h', Q none h')
    (hsome : ∀ fetched h', .fetched code start stop (.ok fetched) ∈ h' → Q (some fetched) h') :
    Wp o (GatedAs o k) (actualGenerationPerType code start stop) Q h := by
  simp only [actualGenerationPerType, fetch, wp_bind, wp_act]
  refine ⟨rfl, fun answer hanswer => ?_⟩
  cases hanswer
  split
  · rename_i fetched hok
    rw [wp_pure]
    exact hsome fetched _ (by simp [hok])
  · split
    · rw [wp_pure]
      exact hnone _
    · simp

/-- Staging the gated rows of a fetched document and merging them. -/
theorem gated_of_staged {day : Date} {zoneTz : ZoneInfo} {code : String} {start stop : Instant}
    {fetched : FetchResult} {knownAt : DateTime} {result : GateResult}
    {database workgroup batchId : String} {h' : Trace}
    (hday : settlementDay day zoneTz = .ok (start, stop))
    (hfetched : .fetched code start stop (.ok fetched) ∈ h) (hknown : k fetched = .ok knownAt)
    (hgate : o.gate fetched.body knownAt = .ok result) (hpre : h <+: h')
    (hbatch : ∀ database, (store database h').batch batchId = result.records.map stagedRow)
    (outcome : Outcome Execution) :
    GatedAs o k h' (.merged database workgroup batchId ⟨start.micros, stop.micros⟩ outcome) :=
  ⟨day, zoneTz, start, stop, code, fetched, knownAt, result, hday, rfl, hpre.subset hfetched,
    hknown, hgate, hbatch⟩

theorem wp_ingestFetched {environ : Environ} {event : Event} {zone : BiddingZone} {day : Date}
    {zoneTz : ZoneInfo} {code : String} {start stop : Instant} {fetched : FetchResult}
    (hk : k fetched =
      (parseKnownAt o.readers event.knownAt fetched.fetchedAt).map Instant.toDateTime)
    (hday : settlementDay day zoneTz = .ok (start, stop))
    (hfetched : .fetched code start stop (.ok fetched) ∈ h) :
    Wp o (GatedAs o k) (ingestFetched environ event zone day start stop fetched)
      (fun _ _ => True) h := by
  simp only [ingestFetched, wp_bind, wp_act, wp_lift, wp_ask, uuid4, putObject]
  refine fun knownAt hparse rawBucket _ => ⟨trivial, fun _ _ => wp_gate fun result hgate => ?_⟩
  have hknown : k fetched = .ok knownAt.toDateTime := by
    rw [hk, hparse]
    rfl
  simp only [wp_bind, wp_lift]
  refine fun _ _ => wp_quarantineWrite fun _ h₁ hpre₁ => ?_
  rw [wp_bind]
  refine wp_stagingWrite fun batchId n h₂ hpre₂ hbatch => ?_
  split
  · simp
  · rename_i hn
    simp only [wp_bind, wp_lift]
    refine fun database _ workgroup _ => (wp_mergeBatch fun outcome => ?_).mono (by simp)
    have hpre : h <+: h₂ := (List.prefix_append h _).trans (hpre₁.trans hpre₂)
    exact gated_of_staged hday hfetched hknown hgate hpre (hbatch hn) outcome

theorem wp_entsoeToken {R : Trace → Effect → Prop} {environ : Environ} {Q : Unit → Trace → Prop}
    (hQ : ∀ h', Q () h') : Wp o R (entsoeToken environ) Q h := by
  simp only [entsoeToken, wp_bind, wp_lift, wp_ask]
  intro _ _ _ _
  split
  · simp only [wp_lift]
    exact fun _ _ => hQ _
  · rw [wp_pure]
    exact hQ _

theorem wp_targetDay {R : Trace → Effect → Prop} {environ : Environ} {event : Event}
    {Q : Date → Trace → Prop} (hQ : ∀ day h', Q day h') : Wp o R (targetDay environ event) Q h := by
  unfold targetDay
  split
  · simp only [wp_bind, wp_ask, wp_lift]
    exact fun _ _ => hQ _ _
  · simp only [datetimeNow, wp_bind, wp_lift, wp_ask]
    exact fun _ _ _ _ _ _ _ _ _ _ => hQ _ _

theorem wp_ingest (environ : Environ) (event : Event)
    (hk : ∀ fetched, k fetched =
      (parseKnownAt o.readers event.knownAt fetched.fetchedAt).map Instant.toDateTime) :
    Wp o (GatedAs o k) (ingest environ event) (fun _ _ => True) h := by
  simp only [ingest, wp_bind, wp_lift, wp_ask]
  refine fun zone _ zoneName _ zoneTz _ => wp_targetDay fun day h₁ => ?_
  simp only [wp_bind, wp_lift]
  refine fun bounds hday => wp_entsoeToken fun h₂ => ?_
  rw [wp_bind]
  refine wp_actualGenerationPerType (fun _ => ?_) fun fetched h₃ hf => ?_
  · simp
  · exact wp_ingestFetched (hk fetched) hday hf

theorem wp_backfillDay (args : BackfillArgs) (s : BackfillState) (day : Date)
    (hk : ∀ fetched, k fetched = .ok args.knownAt) :
    Wp o (GatedAs o k) (backfillDay args s day) (fun _ _ => True) h := by
  simp only [backfillDay, wp_bind, wp_lift]
  refine fun bounds hday => wp_actualGenerationPerType (fun _ => ?_) fun fetched h₁ hf => ?_
  · simp
  · simp only [wp_bind]
    refine wp_gate fun result hgate => ?_
    rw [wp_bind]
    refine wp_stagingWrite fun batchId n h₂ hpre hbatch => ?_
    split
    · simp
    · rename_i hn
      simp only [wp_bind]
      refine (wp_mergeBatch fun outcome => ?_).mono (by simp)
      exact gated_of_staged hday hf (hk fetched) hgate hpre (hbatch hn) outcome

theorem wp_backfill (args : BackfillArgs) (hk : ∀ fetched, k fetched = .ok args.knownAt) :
    Wp o (GatedAs o k) (backfill args) (fun _ _ => True) h := by
  have hloop : ∀ s, Wp o (GatedAs o k) ((days args.start args.stop).foldlM (backfillDay args) s)
      (fun _ _ => True) h :=
    fun _ => wp_foldlM (fun s day _ _ => wp_backfillDay args s day hk) _ trivial
  simp only [backfill, wp_bind, wp_lift]
  exact fun _ _ => (hloop _).mono (by simp)

theorem wp_refetch (environ : Environ) (event : Event)
    (hk : ∀ fetched, k fetched =
      (parseKnownAt o.readers event.knownAt (o.now h)).map Instant.toDateTime) :
    Wp o (GatedAs o k) (refetch environ event) (fun _ _ => True) h := by
  simp only [refetch, datetimeNow, wp_bind, wp_lift, wp_ask]
  refine fun _ _ _ _ knownAt hparse _ _ => wp_entsoeToken fun h₁ => ?_
  have hknown : ∀ fetched, k fetched = .ok knownAt.toDateTime := by
    intro fetched
    rw [hk, hparse]
    rfl
  simp only [wp_bind, wp_lift]
  exact fun _ _ _ _ _ _ _ _ => wp_backfill _ hknown

theorem wp_servePoll {d : Delivery} {Q : Delivery → Trace → Prop} (hQ : ∀ d h', Q d h') :
    Wp o (GatedAs o k) (servePoll d) Q h := by
  refine ⟨along_of_forall_mem fun e he _ => ?_, fun d' _ => hQ d' _⟩
  rcases List.mem_map.mp he with ⟨report, -, rfl⟩
  trivial

theorem wp_pollDay (args : PollArgs) (s : PollState) (day : Date) :
    Wp o (GatedAs o k) (pollDay args s day) (fun _ _ => True) h := by
  simp only [pollDay, wp_bind, wp_lift]
  refine fun bounds _ => wp_actualGenerationPerType (fun _ => ?_) fun fetched h₁ _ => ?_
  · simp
  · -- records and refusals become messages, never a merge
    have hpublish : ∀ records d h', Wp o (GatedAs o k) (List.foldlM (publish args) d records)
        (fun _ _ => True) h' := by
      refine fun records d h' => wp_foldlM (fun d record h' _ => ?_) records trivial
      simp only [publish, produce, wp_bind, wp_ask, wp_lift, wp_act]
      exact fun _ _ => ⟨trivial, fun _ _ => wp_servePoll fun _ _ => trivial⟩
    have hrefuse : ∀ (seenAt : Instant) violations d h',
        Wp o (GatedAs o k) (List.foldlM (fun d violation => produce d (.refusal seenAt violation)) d
          violations) (fun _ _ => True) h' := by
      refine fun seenAt violations d h' => wp_foldlM (fun d violation h' _ => ?_) violations trivial
      simp only [produce, wp_act]
      exact ⟨trivial, fun _ _ => trivial⟩
    simp only [wp_bind]
    refine wp_gate fun result _ => ?_
    simp only [wp_bind]
    refine (hpublish _ _ _).mono fun d h₂ _ => ?_
    rw [wp_bind]
    exact (hrefuse _ _ _ _).mono fun _ _ _ => wp_pure.mpr trivial

theorem wp_pollOnce (args : PollArgs) :
    Wp o (GatedAs o k) (pollOnce args) (fun _ _ => True) h := by
  have hloop : ∀ days s h', Wp o (GatedAs o k) (List.foldlM (pollDay args) s days)
      (fun _ _ => True) h' :=
    fun days _ _ => wp_foldlM (fun s day _ _ => wp_pollDay args s day) days trivial
  simp only [pollOnce, flush, wp_bind, wp_lift]
  refine fun _ _ => (hloop _ _ _).mono fun s h₁ _ => ?_
  rw [wp_bind, wp_bind]
  refine wp_servePoll fun d h₂ => ?_
  simp only [wp_bind, wp_ask, wp_pure]
  split <;> simp

theorem wp_run (c : Call) : Wp o (GatedAs o (c.knownAt o h)) c.run (fun _ _ => True) h := by
  cases c with
  | ingest environ event =>
      simp only [Call.run, wp_bind]
      exact (wp_ingest environ event fun _ => rfl).mono (by simp)
  | backfill args =>
      simp only [Call.run, wp_bind]
      exact (wp_backfill args fun _ => rfl).mono (by simp)
  | refetch environ event =>
      simp only [Call.run, wp_bind]
      exact (wp_refetch environ event fun _ => rfl).mono (by simp)
  | poll args =>
      simp only [Call.run, wp_bind]
      exact (wp_pollOnce args).mono (by simp)

/-- What every call keeps, a sequence of calls keeps. -/
theorem along_runAll {R : Trace → Effect → Prop} (hbegan : ∀ h, R h .began)
    (hrun : ∀ (c : Call) h, Along R h (c.run o h).2) (calls : List Call) :
    Along R [] (runAll o calls) := by
  induction calls using List.reverseRecOn with
  | nil => trivial
  | append_singleton calls c ih =>
      -- the calls before, the mark, the call itself
      rw [runAll_concat, Call.after, along_append, along_append]
      exact ⟨⟨ih, along_singleton.mpr (hbegan _)⟩, hrun c _⟩

/-- Every merge of a run carries the gated rows of a document fetched for the
settlement day of its window. -/
theorem merges_gated (o : Outside) (calls : List Call) :
    Along (Gated o) [] (runAll o calls) :=
  along_runAll (fun _ => trivial) (fun c _ => (wp_run c).1.mono fun _ _ => GatedAs.gated) calls

end Merges

/-! ## A small outside

Every write succeeds, every message is acknowledged, and entso-e answers each
request with one document: a quarter hour of French nuclear generation, in a
series for each of the quantities. -/

/-- An element with text and no children. -/
def leaf (tag text : String) : Element := .mk tag (some text) []

def seriesElement (quantity : String) : Element :=
  .mk "TimeSeries" none
    [leaf "inBiddingZone_Domain.mRID" "10YFR-RTE------C", leaf "quantity_Measure_Unit.name" "MAW",
      .mk "MktPSRType" none [leaf "psrType" "B14"],
      .mk "Period" none
        [.mk "timeInterval" none [leaf "start" "2026-08-26T12:00Z", leaf "end" "2026-08-26T12:15Z"],
          leaf "resolution" "PT15M",
          .mk "Point" none [leaf "position" "1", leaf "quantity" quantity]]]

def documentElement (quantities : List String) : Element :=
  .mk "GL_MarketDocument" none
    ([leaf "mRID" "d1", leaf "revisionNumber" "1", leaf "createdDateTime" "2026-08-27T05:00:00Z"] ++
      quantities.map seriesElement)

def seriesText (quantity : String) : String :=
  "<TimeSeries><inBiddingZone_Domain.mRID>10YFR-RTE------C</inBiddingZone_Domain.mRID>" ++
  "<quantity_Measure_Unit.name>MAW</quantity_Measure_Unit.name>" ++
  "<MktPSRType><psrType>B14</psrType></MktPSRType><Period><timeInterval>" ++
  "<start>2026-08-26T12:00Z</start><end>2026-08-26T12:15Z</end></timeInterval>" ++
  "<resolution>PT15M</resolution><Point><position>1</position>" ++
  "<quantity>" ++ quantity ++ "</quantity></Point></Period></TimeSeries>"

/-- The document as it is sent. -/
def documentText (quantities : List String) : String :=
  "<GL_MarketDocument><mRID>d1</mRID><revisionNumber>1</revisionNumber>" ++
  "<createdDateTime>2026-08-27T05:00:00Z</createdDateTime>" ++
  String.join (quantities.map seriesText) ++ "</GL_MarketDocument>"

/-- `NOON`, and so many quarter hours. -/
def noonQuarters (quarters : Nat) (h : quarters < 96) : Instant :=
  ⟨NOON + quarters * (15 * MINUTE), by
    have hnoon : NOON = 63923428800000000 := rfl
    have hquarter : 15 * MINUTE = 900000000 := rfl
    have hend : (MAX_ORDINAL + 1) * DAY = 315537984000000000 := rfl
    rw [WallInRange, hend, DAY_eq, hnoon, hquarter]
    omega⟩

/-- The readings of the texts above. -/
def smallReaders : Readers where
  int text := if text = "1" then .ok 1 else raise .ValueError [.repr text]
  decimal text :=
    if text = "100" then .ok (.finite false 100 0)
    else if text = "200" then .ok (.finite false 200 0)
    else if text = "-100" then .ok (.finite true 100 0)
    else raise .InvalidOperation [.repr text]
  datetime text :=
    if text = "2026-08-26T12:00Z" then .ok (noonQuarters 0 (by decide)).toDateTime
    else if text = "2026-08-26T12:15Z" then .ok (noonQuarters 1 (by decide)).toDateTime
    else if text = "2026-08-27T05:00:00Z" then .ok (noonQuarters 68 (by decide)).toDateTime
    else raise .ValueError [.repr text]
  date text :=
    if text = "2026-08-26" then .ok ⟨739854, by decide⟩ else raise .ValueError [.repr text]

/-- 06:00 UTC on 27 August 2026. -/
abbrev morning : Instant := noonQuarters 72 (by decide)

def smallOutside (quantities : List String) : Outside where
  readers := smallReaders
  fromstring _ := .ok (documentElement quantities)
  zoneInfo _ := .ok PARIS
  now _ := morning
  uuid4 h := Fin.ofNat _ h.length
  token _ _ := .ok "token"
  fetch _ _ _ _ :=
    .ok ⟨(documentText quantities).toList.map fun c => UInt8.ofNat c.toNat, morning, 200⟩
  putObject _ _ _ := .answered ()
  execute _ _ _ := .answered ⟨true, none, 0⟩
  encode _ _ := .ok ([], [])
  produce _ _ := .ok ()
  report _ _ := some none

/-- The settings of the deployment. -/
def smallEnviron : Environ := fun name =>
  if name = "GRIDLENS_RAW_BUCKET" then some "gridlens-raw"
  else if name = "GRIDLENS_QUARANTINE_BUCKET" then some "gridlens-quarantine"
  else none

/-- An ingest call without a payload: yesterday, as known now. -/
def smallIngest : Call := .ingest smallEnviron fun _ => none

/-- A backfill of that day. -/
def smallBackfill : Call := .backfill {
  start := ⟨739854, by decide⟩
  stop := ⟨739854, by decide⟩
  knownAt := morning.toDateTime
  zone := .FR
  zoneTz := PARIS
  stagingBucket := "gridlens-raw"
  database := "gridlens_bronze"
  workgroup := "gridlens" }

end Gridlens
