import Gridlens.Calls

/-!
# Refused rows, kept or lost

The gate returns the rows it refuses; each caller decides what becomes of
them. This module keeps count over one call: the rows refused of the documents
it fetched, the rows it put into the quarantine bucket, and the rows it sent
to the quarantine topic and saw acknowledged.

The ingest puts all its refusals into one object before it merges. A poll
sends each as a message and serves delivery callbacks as it goes; when it
returns, the queue is empty and no callback of its own carried an error, so
every refusal is on the topic (`Accounted`). A backfill never looks at them.
`refusals_written_iff` puts the three together.
-/

namespace Gridlens

open Effects

/-! ## What is refused, and what is written -/

/-- The rows refused of a fetched document, given when it became known. -/
def refusals (o : Outside) (knownAt : FetchResult → Py DateTime) : Effect → List Violation
  | .fetched _ _ _ (.ok fetched) =>
      match knownAt fetched >>= o.gate fetched.body with
      | .ok result => result.violations
      | .error _ => []
  | _ => []

/-- The refused rows an effect leaves in the quarantine bucket. -/
def stored : Effect → List Violation
  | .put _ (.quarantine _ _ _ violations) outcome => if outcome.stored then violations else []
  | _ => []

/-- The refused row an effect hands to the producer, with its ticket. -/
def sent : Effect → List (Nat × Violation)
  | .produced ticket (.refusal _ violation) (.ok _) => [(ticket, violation)]
  | _ => []

/-- The broker has the message. -/
def acknowledges (ticket : Nat) : Effect → Bool
  | .served ticket' none => ticket' = ticket
  | _ => false

/-- The refused rows a quarantine sink has: those in the bucket, and those on
the topic. -/
def written (es : Trace) : List Violation :=
  es.flatMap stored ++ ((es.flatMap sent).filter fun m => es.any (acknowledges m.1)).map Prod.snd

/-! ## Keeping count -/

/-- What the effects stored, sent and refused. -/
structure Tally (o : Outside) (knownAt : FetchResult → Py DateTime) (es : Trace)
    (kept posted refused : List Violation) : Prop where
  stored_eq : es.flatMap stored = kept
  sent_eq : (es.flatMap sent).map Prod.snd = posted
  refused_eq : es.flatMap (refusals o knownAt) = refused

section Tally

variable {o : Outside} {k : FetchResult → Py DateTime} {h es es' : Trace}
  {a b c a' b' c' : List Violation}

theorem Tally.nil : Tally o k [] [] [] [] := ⟨rfl, rfl, rfl⟩

theorem Tally.append (hes : Tally o k es a b c) (hes' : Tally o k es' a' b' c') :
    Tally o k (es ++ es') (a ++ a') (b ++ b') (c ++ c') := by
  refine ⟨?_, ?_, ?_⟩
  · rw [List.flatMap_append, hes.stored_eq, hes'.stored_eq]
  · rw [List.flatMap_append, List.map_append, hes.sent_eq, hes'.sent_eq]
  · rw [List.flatMap_append, hes.refused_eq, hes'.refused_eq]

theorem tally_singleton (e : Effect) :
    Tally o k [e] (stored e) ((sent e).map Prod.snd) (refusals o k e) := by
  constructor <;> simp

theorem post_gate {body : Bytes} {knownAt : DateTime} :
    Post o (gate body knownAt) (fun result es => o.gate body knownAt = .ok result ∧ es = []) h := by
  simp [gate]

theorem post_stagingWrite (k : FetchResult → Py DateTime) {bucket : String} {records : List GenerationRecord} :
    Post o (stagingWrite bucket records) (fun _ es => Tally o k es [] [] []) h := by
  unfold stagingWrite
  split
  · rw [post_pure]
    exact Tally.nil
  · simp only [uuid4, putObject, post_bind, post_ask, post_act, post_pure]
    exact fun _ _ => tally_singleton _

theorem post_mergeBatch (k : FetchResult → Py DateTime) {database workgroup batchId : String} {start stop : Instant} :
    Post o (mergeBatch database workgroup batchId start stop)
      (fun _ es => Tally o k es [] [] []) h := by
  simp only [mergeBatch, executeMerge, post_bind, post_lift, post_act]
  intro _ _ execution _
  split
  · rw [post_pure]
    exact tally_singleton _
  · rw [post_lift]
    exact fun _ _ => tally_singleton _

/-- The whole batch of refused rows goes into one object; no rows, no object. -/
theorem post_quarantineWrite (k : FetchResult → Py DateTime) {bucket : String} {violations : List Violation} {seenAt : Instant} :
    Post o (quarantineWrite bucket violations seenAt)
      (fun _ es => Tally o k es violations [] []) h := by
  unfold quarantineWrite
  split
  · rename_i hnone
    rw [post_pure, hnone]
    exact Tally.nil
  · simp only [uuid4, putObject, post_bind, post_ask, post_act, post_pure, Outcome.result_eq_ok]
    intro _ hput
    rw [hput]
    exact tally_singleton _

theorem post_actualGenerationPerType {code : String} {start stop : Instant} :
    Post o (actualGenerationPerType code start stop) (fun r es =>
      (r = none ∧ ∃ error, es = [.fetched code start stop (.error error)]) ∨
        ∃ fetched, r = some fetched ∧ es = [.fetched code start stop (.ok fetched)]) h := by
  simp only [actualGenerationPerType, fetch, post_bind, post_act]
  intro answer hanswer
  cases hanswer
  split
  · rename_i fetched hok
    rw [post_pure, hok]
    exact Or.inr ⟨fetched, rfl, rfl⟩
  · rename_i error herror
    split
    · rw [post_pure, herror]
      exact Or.inl ⟨rfl, error, rfl⟩
    · simp

theorem post_entsoeToken {environ : Environ} :
    Post o (entsoeToken environ) (fun _ es => es = []) h := by
  simp only [entsoeToken, post_bind, post_lift, post_ask]
  intro _ _ _ _
  split <;> simp

theorem post_targetDay {environ : Environ} {event : Event} :
    Post o (targetDay environ event) (fun _ es => es = []) h := by
  unfold targetDay
  split <;> simp [datetimeNow]

/-- The fetch of a document, and what became of its refused rows after it. -/
theorem Tally.fetched {code : String} {start stop : Instant} {fetched : FetchResult}
    {knownAt : DateTime} {result : GateResult} (hk : k fetched = .ok knownAt)
    (hgate : o.gate fetched.body knownAt = .ok result) (hes : Tally o k es a b []) :
    Tally o k ([.fetched code start stop (.ok fetched)] ++ es) a b result.violations := by
  have hone : refusals o k (.fetched code start stop (.ok fetched)) = result.violations := by
    show (match k fetched >>= o.gate fetched.body with
      | .ok result => result.violations
      | .error _ => []) = _
    rw [hk]
    show (match o.gate fetched.body knownAt with
      | .ok result => result.violations
      | .error _ => []) = _
    rw [hgate]
  have hfetch := tally_singleton (o := o) (k := k) (.fetched code start stop (.ok fetched))
  rw [hone] at hfetch
  have hall := hfetch.append hes
  rw [List.append_nil] at hall
  exact hall

end Tally

/-! ## `ingest_entsoe.handler` -/

section Ingest

variable {o : Outside} {h : Trace}

theorem post_ingestFetched {k : FetchResult → Py DateTime} {environ : Environ} {event : Event}
    {zone : BiddingZone} {day : Date} {start stop : Instant} {fetched : FetchResult}
    (hk : k fetched = (parseKnownAt o.readers event.knownAt fetched.fetchedAt).map
      Instant.toDateTime) :
    Post o (ingestFetched environ event zone day start stop fetched) (fun _ es =>
      ∃ knownAt result, k fetched = .ok knownAt ∧ o.gate fetched.body knownAt = .ok result ∧
        Tally o k es result.violations [] []) h := by
  simp only [ingestFetched, uuid4, putObject, post_bind, post_lift, post_ask, post_act,
    List.append_nil, List.nil_append]
  intro knownAt hknown rawBucket _ _ _
  refine post_gate.mono fun result es hresult => ?_
  rcases hresult with ⟨hgate, rfl⟩
  intro _ _
  refine (post_quarantineWrite k).mono fun n es₁ hkept => ?_
  refine (post_stagingWrite k).mono fun batch es₂ hstaged => ?_
  -- the merge, where anything was staged, keeps and sends nothing
  refine Post.mono (Q := fun _ es₃ => Tally o k es₃ [] [] []) ?_ fun _ es₃ hmerged => ?_
  · split
    · simpa using Tally.nil
    · simp only [post_bind, post_lift, post_pure, List.append_nil, List.nil_append]
      exact fun _ _ _ _ => post_mergeBatch k
  · refine ⟨knownAt.toDateTime, result, ?_, hgate, ?_⟩
    · rw [hk, hknown]
      rfl
    · have hput := tally_singleton (o := o) (k := k) (.put rawBucket
        (.raw zone day (knownAt.micros / SECOND) (o.uuid4 h) fetched.body) (o.putObject h rawBucket
          (.raw zone day (knownAt.micros / SECOND) (o.uuid4 h) fetched.body)))
      simpa [stored, sent, refusals] using hput.append (hkept.append (hstaged.append hmerged))

/-- The handler writes exactly the rows it refused. -/
theorem post_ingest {k : FetchResult → Py DateTime} (environ : Environ) (event : Event)
    (hk : ∀ fetched, k fetched = (parseKnownAt o.readers event.knownAt fetched.fetchedAt).map
      Instant.toDateTime) :
    Post o (ingest environ event) (fun _ es => ∃ v, Tally o k es v [] v) h := by
  simp only [ingest, post_bind, post_lift, post_ask, List.append_nil, List.nil_append]
  intro zone _ zoneName _ zoneTz _
  refine post_targetDay.mono fun day es hes bounds _ => ?_
  rw [hes]
  refine post_entsoeToken.mono fun _ es hes => ?_
  rw [hes]
  refine post_actualGenerationPerType.mono fun r es₁ hfetch => ?_
  -- a window without data refuses nothing
  rcases hfetch with ⟨rfl, error, rfl⟩ | ⟨fetched, rfl, rfl⟩
  · simpa using ⟨[], tally_singleton _⟩
  · refine (post_ingestFetched (hk fetched)).mono fun _ es₂ hrest => ?_
    rcases hrest with ⟨knownAt, result, hknown, hgate, htally⟩
    exact ⟨result.violations, by simpa using Tally.fetched hknown hgate htally⟩

end Ingest

/-! ## `backfill` -/

section Backfill

variable {o : Outside} {h : Trace} {k : FetchResult → Py DateTime}

/-- A day of a backfill writes no refused row, whatever it refused. -/
theorem post_backfillDay {args : BackfillArgs} (s : BackfillState) (day : Date)
    (hk : ∀ fetched, k fetched = .ok args.knownAt) :
    Post o (backfillDay args s day) (fun _ es => ∃ v, Tally o k es [] [] v) h := by
  simp only [backfillDay, post_bind, post_lift, List.nil_append]
  intro bounds _
  refine post_actualGenerationPerType.mono fun r es₁ hfetch => ?_
  rcases hfetch with ⟨rfl, error, rfl⟩ | ⟨fetched, rfl, rfl⟩
  · simpa using ⟨[], tally_singleton _⟩
  · simp only [post_bind]
    refine post_gate.mono fun result es hresult => ?_
    rcases hresult with ⟨hgate, rfl⟩
    refine (post_stagingWrite k).mono fun batch es₂ hstaged => ?_
    split
    · rw [post_pure]
      exact ⟨result.violations, by simpa using Tally.fetched (hk fetched) hgate hstaged⟩
    · simp only [post_bind, post_pure]
      refine (post_mergeBatch k).mono fun _ es₃ hmerged => ?_
      have hrest := hstaged.append hmerged
      exact ⟨result.violations, by simpa using Tally.fetched (hk fetched) hgate hrest⟩

theorem post_backfill (args : BackfillArgs) (hk : ∀ fetched, k fetched = .ok args.knownAt) :
    Post o (backfill args) (fun _ es => ∃ v, Tally o k es [] [] v) h := by
  simp only [backfill, post_bind, post_lift, post_pure, List.append_nil, List.nil_append]
  intro _ _
  refine post_foldlM (I := fun _ _ es => ∃ v, Tally o k es [] [] v)
    (fun done day s es hdone => ?_) _ ⟨[], Tally.nil⟩
  rcases hdone with ⟨v, hv⟩
  refine (post_backfillDay s day hk).mono fun _ es' hday => ?_
  rcases hday with ⟨v', hv'⟩
  exact ⟨v ++ v', hv.append hv'⟩

theorem post_refetch (environ : Environ) (event : Event)
    (hk : ∀ fetched, k fetched = (parseKnownAt o.readers event.knownAt (o.now h)).map
      Instant.toDateTime) :
    Post o (refetch environ event) (fun _ es => ∃ v, Tally o k es [] [] v) h := by
  simp only [refetch, datetimeNow, post_bind, post_lift, post_ask, List.append_nil, List.nil_append]
  intro _ _ _ _ knownAt hknown bounds _
  refine post_entsoeToken.mono fun _ es hes => ?_
  rw [hes]
  intro _ _ _ _ _ _ _ _
  have hk' : ∀ fetched, k fetched = .ok knownAt.toDateTime := by
    intro fetched
    rw [hk, hknown]
    rfl
  refine (post_backfill _ hk').mono fun _ es' hback => ?_
  simpa using hback

end Backfill

/-! ## `poll_once` -/

section Poll

variable {o : Outside} {h es : Trace} {k : FetchResult → Py DateTime} {d : Delivery}

/-- After `es`, what the call handed over is its own, and each of its messages
waits in the queue, or has been acknowledged, or a failure is on record. -/
structure Accounted (h es : Trace) (d : Delivery) : Prop where
  own : ∀ m ∈ es.flatMap sent, m.1 ∈ d.tickets
  settled : ∀ ticket ∈ d.tickets, ticket ∈ queueOf (h ++ es) ∨
    es.any (acknowledges ticket) = true ∨ d.failures ≠ []

/-- Handing a message over: it waits in the queue. -/
theorem post_produce {message : Message} (hes : Accounted h es d) :
    Post o (produce d message) (fun d' es' => Accounted h (es ++ es') d' ∧
      ∃ ticket, es' = [.produced ticket message (.ok ())]) (h ++ es) := by
  simp only [produce, post_act]
  intro d' hd'
  cases hproduce : o.produce (h ++ es) message with
  | error e =>
      rw [hproduce] at hd'
      cases hd'
  | ok u =>
      rw [hproduce] at hd'
      cases hd'
      refine ⟨⟨fun m hm => ?_, fun ticket hticket => ?_⟩, _, rfl⟩
      · -- only this message is new
        rw [List.flatMap_append, List.mem_append] at hm
        rw [List.mem_append]
        rcases hm with hm | hm
        · exact Or.inl (hes.own m hm)
        · refine Or.inr ?_
          cases message with
          | observation record key value => simp [sent] at hm
          | refusal seenAt violation =>
              simp only [sent, List.flatMap_cons, List.flatMap_nil, List.append_nil,
                List.mem_singleton] at hm
              rw [hm]
              exact List.mem_singleton_self _
      · rw [← List.append_assoc, queueOf_concat, List.any_append]
        simp only [queueStep, List.mem_append] at hticket ⊢
        rcases hticket with hold | hnew
        · rcases hes.settled ticket hold with hqueue | hack | hfail
          · exact Or.inl (Or.inl hqueue)
          · exact Or.inr (Or.inl (by simp [hack]))
          · exact Or.inr (Or.inr hfail)
        · exact Or.inl (Or.inr hnew)

/-- Serving callbacks takes exactly the reported messages off the queue. -/
theorem mem_queueOf_served {reports : List (Nat × Option String)} {ticket : Nat} :
    ticket ∈ queueOf (h ++ reports.map fun report => .served report.1 report.2) ↔
      ticket ∈ queueOf h ∧ ∀ report ∈ reports, report.1 ≠ ticket := by
  induction reports generalizing h with
  | nil => simp
  | cons report reports ih =>
      rw [List.map_cons, List.append_cons, ih, queueOf_concat]
      simp only [queueStep, List.mem_filter, decide_eq_true_eq, List.forall_mem_cons, ne_eq]
      constructor
      · intro ⟨⟨hqueue, hne⟩, hrest⟩
        exact ⟨hqueue, fun heq => hne heq.symm, hrest⟩
      · intro ⟨hqueue, hne, hrest⟩
        exact ⟨⟨hqueue, fun heq => hne heq.symm⟩, hrest⟩

/-- Callbacks: each message answered for is acknowledged, or its error is on
record. -/
theorem post_servePoll (k : FetchResult → Py DateTime) (hes : Accounted h es d) :
    Post o (servePoll d) (fun d' es' => Accounted h (es ++ es') d' ∧ Tally o k es' [] [] []) (h ++ es) := by
  intro d' es' hret
  cases hret
  have hquiet : ∀ f : Effect → List Violation, (∀ t e, f (.served t e) = []) →
      ((reports o (h ++ es)).map fun r => Effect.served r.1 r.2).flatMap f = [] := by
    intro f hf
    rw [List.flatMap_eq_nil_iff]
    intro e he
    rcases List.mem_map.mp he with ⟨r, -, rfl⟩
    exact hf _ _
  have hsent : ((reports o (h ++ es)).map fun r => Effect.served r.1 r.2).flatMap sent = [] := by
    rw [List.flatMap_eq_nil_iff]
    intro e he
    rcases List.mem_map.mp he with ⟨r, -, rfl⟩
    rfl
  refine ⟨⟨fun m hm => ?_, fun ticket hticket => ?_⟩, hquiet stored fun _ _ => rfl, by rw [hsent]; rfl,
    hquiet _ fun _ _ => rfl⟩
  · rw [List.flatMap_append, hsent, List.append_nil] at hm
    exact hes.own m hm
  · rcases hes.settled ticket hticket with hqueue | hack | hfail
    · cases hreport : o.report (h ++ es) ticket with
      | none =>
          -- the broker has not answered for it: it waits on
          refine Or.inl ?_
          rw [← List.append_assoc, mem_queueOf_served]
          refine ⟨hqueue, fun r hr heq => ?_⟩
          rcases List.mem_filterMap.mp hr with ⟨t, -, ht⟩
          rcases Option.map_eq_some_iff.mp ht with ⟨error, herror, rfl⟩
          have hticket : t = ticket := heq
          rw [hticket, hreport] at herror
          cases herror
      | some error =>
          -- its callback is served now
          have hmem : (ticket, error) ∈ reports o (h ++ es) :=
            List.mem_filterMap.mpr ⟨ticket, hqueue, by rw [hreport]; rfl⟩
          cases error with
          | none =>
              refine Or.inr (Or.inl ?_)
              rw [List.any_append, Bool.or_eq_true]
              refine Or.inr (List.any_eq_true.mpr ⟨_, List.mem_map_of_mem hmem, ?_⟩)
              simp [acknowledges]
          | some error =>
              refine Or.inr (Or.inr (List.append_ne_nil_of_right_ne_nil _ fun hnil => ?_))
              have hnone := List.flatMap_eq_nil_iff.mp hnil _ hmem
              simp [Delivery.delivered, hticket] at hnone
    · exact Or.inr (Or.inl (by rw [List.any_append, hack, Bool.true_or]))
    · exact Or.inr (Or.inr (List.append_ne_nil_of_left_ne_nil hfail _))

/-- A fetch leaves the producer alone. -/
theorem Accounted.fetched {code : String} {start stop : Instant} {answer : Py FetchResult}
    (hes : Accounted h es d) : Accounted h (es ++ [.fetched code start stop answer]) d := by
  refine ⟨fun m hm => ?_, fun ticket hticket => ?_⟩
  · rw [List.flatMap_append] at hm
    exact hes.own m (by simpa [sent] using hm)
  · rw [← List.append_assoc, queueOf_concat, List.any_append]
    simpa [queueStep, acknowledges] using hes.settled ticket hticket

theorem post_publish (k : FetchResult → Py DateTime) {args : PollArgs}
    {record : GenerationRecord} (hes : Accounted h es d) :
    Post o (publish args d record) (fun d' es' => Accounted h (es ++ es') d' ∧
      Tally o k es' [] [] []) (h ++ es) := by
  simp only [publish, post_bind, post_ask, post_lift, List.append_nil, List.nil_append]
  intro _ _
  refine (post_produce hes).mono fun d₁ es₁ hproduced => ?_
  rcases hproduced with ⟨hes₁, ticket, rfl⟩
  rw [List.append_assoc]
  refine (post_servePoll k hes₁).mono fun d₂ es₂ hserved => ?_
  rw [List.append_assoc] at hserved
  exact ⟨hserved.1, (tally_singleton _).append hserved.2⟩

theorem post_publishAll (k : FetchResult → Py DateTime) {args : PollArgs}
    (records : List GenerationRecord) (hes : Accounted h es d) :
    Post o (records.foldlM (publish args) d) (fun d' es' => Accounted h (es ++ es') d' ∧
      Tally o k es' [] [] []) (h ++ es) := by
  refine post_foldlM (I := fun _ d' es' => Accounted h (es ++ es') d' ∧ Tally o k es' [] [] [])
    (fun _ record d₁ es₁ hdone => ?_) records ⟨by rwa [List.append_nil], Tally.nil⟩
  rw [List.append_assoc]
  refine (post_publish k hdone.1).mono fun d₂ es₂ hpublished => ?_
  rw [List.append_assoc] at hpublished
  exact ⟨hpublished.1, hdone.2.append hpublished.2⟩

theorem post_refuseAll (k : FetchResult → Py DateTime) {seenAt : Instant}
    (violations : List Violation) (hes : Accounted h es d) :
    Post o (violations.foldlM (fun d violation => produce d (.refusal seenAt violation)) d)
      (fun d' es' => Accounted h (es ++ es') d' ∧ Tally o k es' [] violations []) (h ++ es) := by
  refine post_foldlM (I := fun done d' es' => Accounted h (es ++ es') d' ∧ Tally o k es' [] done [])
    (fun done violation d₁ es₁ hdone => ?_) violations ⟨by rwa [List.append_nil], Tally.nil⟩
  rw [List.append_assoc]
  refine (post_produce hdone.1).mono fun d₂ es₂ hproduced => ?_
  rcases hproduced with ⟨haccounted, ticket, rfl⟩
  rw [List.append_assoc] at haccounted
  exact ⟨haccounted, hdone.2.append (tally_singleton _)⟩

/-- A day of a poll sends exactly the rows it refused. -/
theorem post_pollDay {args : PollArgs} {s : PollState} (day : Date)
    (hk : ∀ fetched, k fetched = .ok fetched.fetchedAt.toSecond.toDateTime)
    (hes : Accounted h es s.delivery) :
    Post o (pollDay args s day) (fun s' es' => Accounted h (es ++ es') s'.delivery ∧
      ∃ v, Tally o k es' [] v v) (h ++ es) := by
  simp only [pollDay, post_bind, post_lift, List.append_nil, List.nil_append]
  intro bounds _
  refine post_actualGenerationPerType.mono fun r es₁ hfetch => ?_
  rcases hfetch with ⟨rfl, error, rfl⟩ | ⟨fetched, rfl, rfl⟩
  · simp only [post_pure, List.append_nil]
    exact ⟨hes.fetched, [], tally_singleton _⟩
  · simp only [post_bind, post_pure]
    refine post_gate.mono fun result es₂ hresult => ?_
    rcases hresult with ⟨hgate, rfl⟩
    rw [List.append_nil, List.append_assoc]
    refine (post_publishAll k result.records hes.fetched).mono fun d₁ es₃ hrecords => ?_
    rw [List.append_assoc h]
    refine (post_refuseAll k result.violations hrecords.1).mono fun d₂ es₄ hrefused => ?_
    have hrest := hrecords.2.append hrefused.2
    exact ⟨by simpa using hrefused.1, result.violations,
      by simpa using Tally.fetched (hk fetched) hgate hrest⟩

/-- A poll sends exactly the rows it refused, and returns only when all of
them are acknowledged. -/
theorem post_pollOnce (args : PollArgs)
    (hk : ∀ fetched, k fetched = .ok fetched.fetchedAt.toSecond.toDateTime) :
    Post o (pollOnce args) (fun _ es => (∃ v, Tally o k es [] v v) ∧
      ∀ m ∈ es.flatMap sent, es.any (acknowledges m.1) = true) h := by
  simp only [pollOnce, flush, post_bind, post_lift, List.append_nil, List.nil_append]
  intro days _
  have hstart : Accounted h [] ⟨[], []⟩ :=
    ⟨fun _ hm => absurd hm List.not_mem_nil, fun _ hticket => absurd hticket List.not_mem_nil⟩
  refine (post_foldlM (I := fun _ s es => Accounted h es s.delivery ∧ ∃ v, Tally o k es [] v v)
    (fun _ day s es hdone => ?_) days ⟨hstart, [], Tally.nil⟩).mono fun s es hdays => ?_
  · rcases hdone with ⟨haccounted, v, hv⟩
    refine (post_pollDay day hk haccounted).mono fun s' es' hday => ?_
    rcases hday with ⟨haccounted', v', hv'⟩
    exact ⟨haccounted', v ++ v', hv.append hv'⟩
  · rcases hdays with ⟨haccounted, v, hv⟩
    refine (post_servePoll k haccounted).mono fun d es' hserved => ?_
    simp only [post_ask, post_pure, List.append_nil]
    split
    · simp
    · rename_i hunsent
      rw [post_pure, List.append_nil]
      refine ⟨⟨v, by simpa using hv.append hserved.2⟩, fun m hm => ?_⟩
      have hnone := not_or.mp hunsent
      rcases hserved.1.settled m.1 (hserved.1.own m hm) with hqueue | hack | hfail
      · -- the flush returned zero: nothing waits
        rw [← List.append_assoc, List.eq_nil_of_length_eq_zero (not_not.mp hnone.1)] at hqueue
        cases hqueue
      · exact hack
      · exact absurd hfail hnone.2

end Poll

/-! ## Which calls keep what they refuse -/

/-- The call goes through `backfill`. -/
def Call.backfills : Call → Bool
  | .backfill _ => true
  | .refetch _ _ => true
  | _ => false

/-- The rows refused of the documents a call fetched. -/
def Call.refused (o : Outside) (h : Trace) (c : Call) (es : Trace) : List Violation :=
  es.flatMap (refusals o (c.knownAt o h))

theorem written_of_sent {o : Outside} {k : FetchResult → Py DateTime} {es : Trace}
    {v : List Violation} (hes : Tally o k es [] v v)
    (hack : ∀ m ∈ es.flatMap sent, es.any (acknowledges m.1) = true) : written es = v := by
  rw [written, hes.stored_eq, List.nil_append, List.filter_eq_self.mpr hack, hes.sent_eq]

theorem written_of_stored {o : Outside} {k : FetchResult → Py DateTime} {es : Trace}
    {v w : List Violation} (hes : Tally o k es v [] w) : written es = v := by
  rw [written, hes.stored_eq, List.map_eq_nil_iff.mp hes.sent_eq, List.filter_nil, List.map_nil,
    List.append_nil]

/-- An ingest and a poll write what they refuse; a backfill writes nothing. -/
theorem post_run (o : Outside) (h : Trace) (c : Call) :
    Post o c.run (fun _ es => written es = if c.backfills then [] else c.refused o h es) h := by
  cases c with
  | ingest environ event =>
      simp only [Call.run, post_bind, post_pure, List.append_nil]
      refine (post_ingest environ event fun _ => rfl).mono fun _ es hes => ?_
      rcases hes with ⟨v, hv⟩
      exact (written_of_stored hv).trans hv.refused_eq.symm
  | backfill args =>
      simp only [Call.run, post_bind, post_pure, List.append_nil]
      refine (post_backfill (k := fun _ => .ok args.knownAt) args fun _ => rfl).mono
        fun _ es hes => ?_
      rcases hes with ⟨v, hv⟩
      exact written_of_stored hv
  | refetch environ event =>
      simp only [Call.run, post_bind, post_pure, List.append_nil]
      refine (post_refetch environ event fun _ => rfl).mono fun _ es hes => ?_
      rcases hes with ⟨v, hv⟩
      exact written_of_stored hv
  | poll args =>
      -- everything sent was acknowledged
      simp only [Call.run, post_bind, post_pure, List.append_nil]
      refine (post_pollOnce args fun _ => rfl).mono fun _ es hes => ?_
      rcases hes with ⟨⟨v, hv⟩, hack⟩
      exact (written_of_sent hv hack).trans hv.refused_eq.symm

/-- A call that returns has written every row it refused, as often as it
refused it, if and only if it is no backfill or refused nothing. -/
theorem refusals_written_iff {o : Outside} {h es : Trace} {c : Call}
    (hret : Returns c.run o h () es) :
    (c.refused o h es).Subperm (written es) ↔ (c.backfills = true → c.refused o h es = []) := by
  have hwritten : written es = if c.backfills then [] else c.refused o h es := post_run o h c () es hret
  cases hc : c.backfills with
  | false =>
      rw [hc] at hwritten
      rw [hwritten]
      exact ⟨fun _ hb => absurd hb Bool.false_ne_true, fun _ => List.Subperm.refl _⟩
  | true =>
      rw [hc] at hwritten
      rw [hwritten]
      constructor
      · intro hsub _
        exact List.subperm_nil.mp hsub
      · intro hnone
        rw [hnone rfl]
        exact List.Subperm.refl []

/-- A negative quantity, as the daily ingest meets it. -/
theorem refusals_written_iff_ingest :
    (smallIngest.refused (smallOutside ["-100"]) [] (smallIngest.run (smallOutside ["-100"]) []).2).Subperm
      (written (smallIngest.run (smallOutside ["-100"]) []).2) :=
  (refusals_written_iff (Prod.ext (by decide +kernel) rfl)).mpr fun hb => absurd hb Bool.false_ne_true

/-- The same document, as a backfill of the day meets it: the call returns,
and the row is nowhere. -/
theorem backfill_drops_refusal : ∃ es,
    Returns smallBackfill.run (smallOutside ["-100"]) [] () es ∧
      ¬ (smallBackfill.refused (smallOutside ["-100"]) [] es).Subperm (written es) :=
  ⟨_, Prod.ext (by decide +kernel) rfl, by decide +kernel⟩

end Gridlens
