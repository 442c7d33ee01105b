import Gridlens.ProducerLoop

/-!
# The topics say what the source said

`gridlens.stream.producer` publishes everything it fetched, unchanged values
included: the topic is a record of what the source said. `Complete` is that
statement for a stretch of effects: the messages handed over are, in order, the
accepted rows of the fetched documents, encoded, and after the rows of a
document its refusals. `Begun` is what is left of it where an exception came
between: a beginning of those messages, and none that is not among them.

1. `ends_pollOnce_said`: one poll, however it ends.
2. `topics_repeat`: every poll of a run of the loop, with the days it asked for
   and what the broker has acknowledged.
-/

namespace Gridlens

open Effects Effects.Program

/-! ## Said and handed over -/

/-- The message of a row that the gate accepts. -/
def observationOf (o : Outside) (schemaId : Int) (record : GenerationRecord) : Py Message :=
  (o.encode schemaId record).map fun encoded => .observation record encoded.1 encoded.2

/-- What the source said: the rows of a document, and then its refusals. -/
def said (o : Outside) (schemaId : Int) : Effect → List (Py Message)
  | .fetched _ _ _ (.ok fetched) =>
      match o.gate fetched.body fetched.fetchedAt.toSecond.toDateTime with
      | .ok result => result.records.map (observationOf o schemaId) ++
          result.violations.map fun violation =>
            .ok (.refusal fetched.fetchedAt.toSecond violation)
      | .error _ => []
  | _ => []

/-- The messages handed to the producer. -/
def handedOver : Effect → List (Py Message)
  | .produced _ message (.ok _) => [.ok message]
  | _ => []

/-- An answer of the source is a document that can be read, or that there is none. -/
def Heard (o : Outside) : Effect → Prop
  | .fetched _ _ _ (.ok fetched) =>
      (o.gate fetched.body fetched.fetchedAt.toSecond.toDateTime).isOk = true
  | .fetched _ _ _ (.error error) => error.kind = .EntsoeNoData
  | _ => True

/-- The source was heard, and all of it handed over in order. -/
structure Complete (o : Outside) (schemaId : Int) (es : Trace) : Prop where
  all : es.flatMap handedOver = es.flatMap (said o schemaId)
  heard : ∀ e ∈ es, Heard o e

/-- The beginning of it was handed over, and nothing else. -/
def Begun (o : Outside) (schemaId : Int) (es : Trace) : Prop :=
  es.flatMap handedOver <+: es.flatMap (said o schemaId)

section Said

variable {o : Outside} {schemaId : Int} {h es es' : Trace} {d : Delivery}

theorem Complete.nil : Complete o schemaId [] := ⟨rfl, fun _ he => absurd he List.not_mem_nil⟩

theorem Complete.append (hes : Complete o schemaId es) (hes' : Complete o schemaId es') :
    Complete o schemaId (es ++ es') := by
  refine ⟨?_, fun e he => ?_⟩
  · rw [List.flatMap_append, List.flatMap_append, hes.all, hes'.all]
  · rcases List.mem_append.mp he with hfront | hback
    · exact hes.heard e hfront
    · exact hes'.heard e hback

theorem Complete.begun (hes : Complete o schemaId es) : Begun o schemaId es := by
  unfold Begun
  rw [hes.all]

theorem Complete.append_begun (hes : Complete o schemaId es) (hes' : Begun o schemaId es') :
    Begun o schemaId (es ++ es') := by
  unfold Begun
  rw [List.flatMap_append, List.flatMap_append, hes.all]
  exact (List.prefix_append_right_inj _).mpr hes'

/-- What the source was asked for: a zone, and a window. -/
def asked (es : Trace) : List (String × Instant × Instant) :=
  es.filterMap fun
    | .fetched zone start stop _ => some (zone, start, stop)
    | _ => none

theorem asked_append (es es' : Trace) : asked (es ++ es') = asked es ++ asked es' :=
  List.filterMap_append

/-- The effects are no fetches. -/
def Silent (es : Trace) : Prop := ∀ e ∈ es, isFetch e = false

theorem Silent.nil : Silent [] := fun _ he => absurd he List.not_mem_nil

theorem Silent.append (hes : Silent es) (hes' : Silent es') : Silent (es ++ es') := by
  intro e he
  rcases List.mem_append.mp he with hfront | hback
  · exact hes e hfront
  · exact hes' e hback

/-- Nothing is asked, and nothing said. -/
theorem Silent.said (hes : Silent es) : es.flatMap (said o schemaId) = [] := by
  rw [List.flatMap_eq_nil_iff]
  intro e he
  have hno := hes e he
  cases e with
  | fetched zone start stop answer => cases hno
  | _ => rfl

theorem Silent.asked (hes : Silent es) : asked es = [] := by
  refine List.filterMap_eq_nil_iff.mpr fun e he => ?_
  have hno := hes e he
  cases e with
  | fetched zone start stop answer => cases hno
  | _ => rfl

theorem Silent.heard (hes : Silent es) : ∀ e ∈ es, Heard o e := by
  intro e he
  have hno := hes e he
  cases e with
  | fetched zone start stop answer => cases hno
  | _ => trivial

/-! ## The messages of a document -/

/-- Callbacks hand nothing over. -/
theorem handedOver_served (reports : List (Nat × Option String)) :
    (reports.map fun report => Effect.served report.1 report.2).flatMap handedOver = [] ∧
      Silent (reports.map fun report => Effect.served report.1 report.2) := by
  constructor
  · rw [List.flatMap_eq_nil_iff]
    intro e he
    rcases List.mem_map.mp he with ⟨report, -, rfl⟩
    rfl
  · intro e he
    rcases List.mem_map.mp he with ⟨report, -, rfl⟩
    rfl

theorem ends_produce_said (message : Message) :
    Ends o (produce d message) (fun r es => Silent es ∧ match r with
      | .ok _ => es.flatMap handedOver = [.ok message]
      | .error _ => es.flatMap handedOver = []) h := by
  simp only [produce, ends_act]
  have hsilent : ∀ answer, Silent [Effect.produced h.length message answer] := by
    intro answer e he
    rw [List.mem_singleton.mp he]
    rfl
  cases o.produce h message with
  | ok u => exact ⟨hsilent _, rfl⟩
  | error error => exact ⟨hsilent _, rfl⟩

/-- A row is handed over as it was encoded. -/
theorem ends_publish_said (args : PollArgs) (record : GenerationRecord) :
    Ends o (publish args d record) (fun r es => Silent es ∧ match r with
      | .ok _ => es.flatMap handedOver = [observationOf o args.schemaId record]
      | .error _ => es.flatMap handedOver = []) h := by
  simp only [publish, ends_bind, ends_ask, ends_lift]
  cases hencode : o.encode args.schemaId record with
  | error error => exact ⟨Silent.nil, rfl⟩
  | ok encoded =>
      have hmessage : observationOf o args.schemaId record =
          .ok (.observation record encoded.1 encoded.2) := by
        unfold observationOf
        rw [hencode]
        rfl
      rw [hmessage]
      simp only [List.nil_append, List.append_nil]
      refine (ends_produce_said (.observation record encoded.1 encoded.2)).mono fun r es hes => ?_
      cases r with
      | error error => exact hes
      | ok d' =>
          simp only
          rw [ends_servePoll]
          rcases handedOver_served (reports o (h ++ es)) with ⟨hnone, hserved⟩
          refine ⟨hes.1.append hserved, ?_⟩
          simp only
          rw [List.flatMap_append, hes.2, hnone, List.append_nil]

/-- A loop that hands one message over for each of its items. -/
theorem ends_loop_said {γ : Type} {g : Delivery → γ → Job Delivery} {messageOf : γ → Py Message}
    (hg : ∀ d c h, Ends o (g d c) (fun r es => Silent es ∧ match r with
      | .ok _ => es.flatMap handedOver = [messageOf c]
      | .error _ => es.flatMap handedOver = []) h) (l : List γ) :
    Ends o (l.foldlM g d) (fun r es => match r with
      | .ok _ => Silent es ∧ es.flatMap handedOver = l.map messageOf
      | .error _ => Silent es ∧ es.flatMap handedOver <+: l.map messageOf) h := by
  have hloop := ends_foldlM (o := o) (h := h) (g := g) (l := l) (s := d)
    (I := fun done es => Silent es ∧ es.flatMap handedOver = done.map messageOf)
    (J := fun es => Silent es ∧ es.flatMap handedOver <+: l.map messageOf)
    ?_ ⟨Silent.nil, rfl⟩
  · refine hloop.mono fun r es hes => ?_
    cases r with
    | ok d' => exact hes
    | error error => exact hes
  · intro done c hpre d es hdone
    refine (hg d c (h ++ es)).mono fun r es' hone => ?_
    cases r with
    | ok d' =>
        refine ⟨hdone.1.append hone.1, ?_⟩
        rw [List.flatMap_append, hdone.2, hone.2, List.map_append]
        rfl
    | error error =>
        refine ⟨hdone.1.append hone.1, ?_⟩
        rw [List.flatMap_append, hdone.2, hone.2, List.append_nil]
        exact ((List.prefix_append done [c]).trans hpre).map messageOf

/-! ## A day -/

/-- What a poll asks for a day. -/
def requestOf (args : PollArgs) (day : Date) : Py (String × Instant × Instant) :=
  (settlementDay day args.zoneTz).map fun window => (args.zone.value, window)

/-- What a day of a poll has done, however it ends. -/
structure DayPolled (o : Outside) (args : PollArgs) (day : Date) (es : Trace) : Prop where
  begun : Begun o args.schemaId es
  asked : ∀ request ∈ asked es, requestOf args day = .ok request

/-- A document: its rows, and then its refusals. -/
theorem ends_document_said (args : PollArgs) (s : PollState) (day : Date) (fetched : FetchResult) :
    Ends o (do
      let result ← gate fetched.body fetched.fetchedAt.toSecond.toDateTime
      let d ← result.records.foldlM (publish args) s.delivery
      let d ← result.violations.foldlM
        (fun d violation => produce d (.refusal fetched.fetchedAt.toSecond violation)) d
      return ({
        delivery := d
        published := s.published + result.records.length
        quarantined := s.quarantined + result.violations.length
        emptyDays := s.emptyDays
        days := s.days ++ [(day, result.records.length, result.gaps.length)] } : PollState))
      (fun r es => Silent es ∧ ∀ zone start stop, match r with
        | .ok _ => Heard o (.fetched zone start stop (.ok fetched)) ∧ es.flatMap handedOver =
            said o args.schemaId (.fetched zone start stop (.ok fetched))
        | .error _ => es.flatMap handedOver <+:
            said o args.schemaId (.fetched zone start stop (.ok fetched))) h := by
  rw [ends_bind, ends_gate]
  simp only [said, Heard]
  cases hgate : o.gate fetched.body fetched.fetchedAt.toSecond.toDateTime with
  | error error => exact ⟨Silent.nil, fun _ _ _ => List.nil_prefix⟩
  | ok result =>
      simp only [List.nil_append, List.append_nil]
      rw [ends_bind]
      refine (ends_loop_said (fun d record h => ends_publish_said args record)
        result.records).mono fun r es hrecords => ?_
      cases r with
      | error error => exact ⟨hrecords.1, fun _ _ _ => hrecords.2.trans (List.prefix_append _ _)⟩
      | ok d₁ =>
          simp only
          rw [ends_bind]
          refine (ends_loop_said (fun d violation h => ends_produce_said
            (.refusal fetched.fetchedAt.toSecond violation)) result.violations).mono
              fun r es' hrefused => ?_
          cases r with
          | error error =>
              refine ⟨hrecords.1.append hrefused.1, fun _ _ _ => ?_⟩
              simp only
              rw [List.flatMap_append, hrecords.2]
              exact (List.prefix_append_right_inj _).mpr hrefused.2
          | ok d₂ =>
              simp only [ends_pure, List.append_nil]
              refine ⟨hrecords.1.append hrefused.1, fun _ _ _ => ⟨rfl, ?_⟩⟩
              rw [List.flatMap_append, hrecords.2, hrefused.2]

theorem ends_pollDay_said (args : PollArgs) (s : PollState) (day : Date) :
    Ends o (pollDay args s day) (fun r es => match r with
      | .ok _ => Complete o args.schemaId es ∧
          ∃ request, requestOf args day = .ok request ∧ asked es = [request]
      | .error _ => DayPolled o args day es) h := by
  unfold pollDay requestOf
  rw [ends_bind, ends_lift]
  cases hbounds : settlementDay day args.zoneTz with
  | error error => exact ⟨List.nil_prefix, fun _ hrequest => absurd hrequest List.not_mem_nil⟩
  | ok bounds =>
      simp only [List.nil_append, List.append_nil]
      -- whatever follows the fetch, this is the one request
      have hasked : ∀ answer es, Silent es →
          asked (.fetched args.zone.value bounds.1 bounds.2 answer :: es) =
            [(args.zone.value, bounds)] := by
        intro answer es hes
        show (args.zone.value, bounds) :: asked es = [(args.zone.value, bounds)]
        rw [hes.asked]
      have hended : ∀ answer es, Silent es →
          Begun o args.schemaId (.fetched args.zone.value bounds.1 bounds.2 answer :: es) →
          DayPolled o args day (.fetched args.zone.value bounds.1 bounds.2 answer :: es) := by
        intro answer es hes hbegun
        refine ⟨hbegun, fun request hrequest => ?_⟩
        rw [hasked answer es hes, List.mem_singleton] at hrequest
        rw [hrequest, requestOf, hbounds]
        rfl
      simp only [actualGenerationPerType, fetch, ends_bind, ends_act]
      cases hanswer : o.fetch h args.zone.value bounds.1 bounds.2 with
      | error error =>
          by_cases hkind : error.kind = .EntsoeNoData
          · simp only [if_pos hkind, ends_pure]
            refine ⟨⟨rfl, fun e he => ?_⟩, _, rfl, hasked _ [] Silent.nil⟩
            rw [List.mem_singleton.mp he]
            exact hkind
          · simp only [if_neg hkind, ends_lift]
            exact hended _ [] Silent.nil List.nil_prefix
      | ok fetched =>
          simp only [ends_pure, List.append_nil]
          refine (ends_document_said args s day fetched).mono fun r es hdocument => ?_
          have hall := hdocument.2 args.zone.value bounds.1 bounds.2
          -- all that is said is said by the document
          have hsaid : (Effect.fetched args.zone.value bounds.1 bounds.2 (.ok fetched) ::
              es).flatMap (said o args.schemaId) = said o args.schemaId
                (.fetched args.zone.value bounds.1 bounds.2 (.ok fetched)) := by
            rw [List.flatMap_cons, hdocument.1.said, List.append_nil]
          cases r with
          | ok s' =>
              refine ⟨⟨?_, fun e he => ?_⟩, _, rfl, hasked _ es hdocument.1⟩
              · rw [List.singleton_append, hsaid]
                exact hall.2
              · rcases List.mem_cons.mp he with rfl | he
                · exact hall.1
                · exact hdocument.1.heard e he
          | error error =>
              refine hended _ es hdocument.1 ?_
              unfold Begun
              rw [hsaid]
              exact hall

/-! ## A poll -/

/-- The requests for the days to poll, one for each. -/
def AskedAll (args : PollArgs) (requests : List (String × Instant × Instant)) : Prop :=
  ∃ days, daysToPoll args.now args.zoneTz = .ok days ∧
    List.Forall₂ (fun day request => requestOf args day = .ok request) days requests

/-- The request for a day to poll. -/
def AskedOne (args : PollArgs) (request : String × Instant × Instant) : Prop :=
  ∃ days, daysToPoll args.now args.zoneTz = .ok days ∧
    ∃ day ∈ days, requestOf args day = .ok request

theorem AskedAll.one {args : PollArgs} {requests : List (String × Instant × Instant)}
    (hall : AskedAll args requests) : ∀ request ∈ requests, AskedOne args request := by
  intro request hrequest
  rcases hall with ⟨days, hdays, hforall⟩
  rcases (mem_of_forall₂_ok hforall).mp hrequest with ⟨day, hday, hok⟩
  exact ⟨days, hdays, day, hday, hok⟩

/-- The days one after another: a day that raises is the last one. -/
theorem ends_days_said (args : PollArgs) {days : List Date}
    (hdays : daysToPoll args.now args.zoneTz = .ok days) (s : PollState) :
    Ends o (days.foldlM (pollDay args) s) (fun r es => match r with
      | .ok _ => Complete o args.schemaId es ∧ AskedAll args (asked es)
      | .error _ => Begun o args.schemaId es ∧ ∀ request ∈ asked es, AskedOne args request) h := by
  have hloop := ends_foldlM (o := o) (h := h) (g := pollDay args) (l := days) (s := s)
    (I := fun done es => Complete o args.schemaId es ∧
      List.Forall₂ (fun day request => requestOf args day = .ok request) done (asked es))
    (J := fun es => Begun o args.schemaId es ∧ ∀ request ∈ asked es, AskedOne args request)
    ?_ ⟨Complete.nil, List.Forall₂.nil⟩
  · refine hloop.mono fun r es hes => ?_
    cases r with
    | ok s' => exact ⟨hes.1, days, hdays, hes.2⟩
    | error error => exact hes
  · intro done day hpre s es hdone
    refine (ends_pollDay_said args s day).mono fun r es' hday => ?_
    cases r with
    | ok s' =>
        rcases hday with ⟨hcomplete, request, hok, hrequest⟩
        refine ⟨hdone.1.append hcomplete, ?_⟩
        rw [asked_append, hrequest]
        exact List.rel_append hdone.2 (List.Forall₂.cons hok List.Forall₂.nil)
    | error error =>
        refine ⟨hdone.1.append_begun hday.begun, fun request hrequest => ?_⟩
        rw [asked_append, List.mem_append] at hrequest
        rcases hrequest with hbefore | hnow
        · rcases (mem_of_forall₂_ok hdone.2).mp hbefore with ⟨day', hday', hok⟩
          exact ⟨days, hdays, day', hpre.subset (List.mem_append_left _ hday'), hok⟩
        · exact ⟨days, hdays, day, hpre.subset (by simp), hday.asked request hnow⟩

/-- The flush hands nothing over. -/
theorem ends_pollFlush_said (args : PollArgs) (s : PollState) :
    Ends o (pollFlush args s) (fun _ es => Silent es ∧ es.flatMap handedOver = []) h := by
  have hserved := handedOver_served (reports o h)
  simp only [pollFlush, flush, ends_bind, ends_servePoll, ends_ask, ends_pure, List.append_nil]
  split
  · rw [ends_lift, List.append_nil]
    exact ⟨hserved.2, hserved.1⟩
  · rw [ends_pure, List.append_nil]
    exact ⟨hserved.2, hserved.1⟩

/-- A poll hands over what the source said of the days to poll: the beginning
of it, and all of it if the poll returns. -/
theorem ends_pollOnce_said (args : PollArgs) :
    Ends o (pollOnce args) (fun r es => Begun o args.schemaId es ∧
      (∀ request ∈ asked es, AskedOne args request) ∧
        ∀ summary, r = .ok summary → Complete o args.schemaId es ∧ AskedAll args (asked es))
      h := by
  rw [pollOnce_eq, ends_bind]
  unfold pollDays
  rw [ends_bind, ends_lift]
  cases hdays : daysToPoll args.now args.zoneTz with
  | error error =>
      exact ⟨List.nil_prefix, fun _ hrequest => absurd hrequest List.not_mem_nil, by simp⟩
  | ok days =>
      simp only [List.append_nil, List.nil_append]
      refine (ends_days_said args hdays _).mono fun r es hes => ?_
      cases r with
      | error error => exact ⟨hes.1, hes.2, by simp⟩
      | ok s =>
          refine (ends_pollFlush_said args s).mono fun r es' hflush => ?_
          have hsilent : Complete o args.schemaId es' :=
            ⟨by rw [hflush.2, hflush.1.said], hflush.1.heard⟩
          have hcomplete := hes.1.append hsilent
          have hasked : AskedAll args (asked (es ++ es')) := by
            rw [asked_append, hflush.1.asked, List.append_nil]
            exact hes.2
          exact ⟨hcomplete.begun, hasked.one, fun _ _ => ⟨hcomplete, hasked⟩⟩

/-- The broker has every message of a poll that returns. -/
theorem acknowledged_of_returns {args : PollArgs} (hwell : Well h)
    (hret : (pollOnce args o h).1.isOk = true) :
    ∀ ticket ∈ (pollOnce args o h).2.flatMap handed,
      .served ticket none ∈ (pollOnce args o h).2 := by
  intro ticket hmem
  rcases exists_returns hret with ⟨summary, hreturns⟩
  have hok : (pollOnce args o h).1 = .ok summary := congrArg Prod.fst hreturns
  have hend := ends_of_finishes hwell (finishes_of_returns hok)
  unfold Ends at hend
  rw [hok] at hend
  have hafter : Well (h ++ (pollOnce args o h).2) :=
    well_append.mpr ⟨hwell, (wp_pollOnce_well args hwell).1⟩
  have hlater := (handed_between (well_append.mp hafter).2 hmem).1
  -- it waits no more, so its callback came
  have hserved : ∃ error, .served ticket error ∈ h ++ (pollOnce args o h).2 := by
    by_contra hnone
    have hqueue := (hafter.queued.mem_queueOf ticket).mpr
      ⟨by rw [List.flatMap_append]; exact List.mem_append_right _ hmem,
        fun error herror => hnone ⟨error, herror⟩⟩
    rw [hend.1] at hqueue
    cases hqueue
  rcases hserved with ⟨error, herror⟩
  rcases List.mem_append.mp herror with hbefore | hnow
  · -- a callback before the call is for an earlier message
    have hlt := hwell.handed_lt (hwell.queued.handed_of_served ticket error hbefore)
    omega
  · cases error with
    | none => exact hnow
    | some error =>
        have hrefused : (ticket, error) ∈ ownRefusals (pollOnce args o h).2 :=
          List.mem_filter.mpr ⟨List.mem_flatMap.mpr ⟨_, hnow, List.mem_singleton_self _⟩,
            decide_eq_true hmem⟩
        rw [hend.2] at hrefused
        cases hrefused

end Said

/-! ## The polls of a run -/

/-- One poll of a run: the world it runs in, and what was done before it. -/
structure RunPoll where
  world : World
  before : Trace

def RunPoll.now (p : RunPoll) : Instant := p.world.outside.now p.before

def RunPoll.pollArgs (args : RunArgs) (p : RunPoll) : PollArgs :=
  ⟨args.schemaId, p.now, .FR, PARIS⟩

/-- What the poll does. -/
def RunPoll.effects (args : RunArgs) (p : RunPoll) : Trace :=
  (pollOnce (p.pollArgs args) p.world.outside p.before).2

/-- The poll ends without an exception. -/
def RunPoll.returned (args : RunArgs) (p : RunPoll) : Bool :=
  (pollOnce (p.pollArgs args) p.world.outside p.before).1.isOk

/-- The poll of an event, where it is one. -/
def LoopState.polls (s : LoopState) : LoopEvent → List RunPoll
  | .signal => []
  | .turn world =>
      match s.place with
      | .top => if s.stopping then [] else [⟨world, s.history⟩]
      | _ => []

def pollsFrom (args : RunArgs) : LoopState → List LoopEvent → List RunPoll
  | _, [] => []
  | s, event :: events => s.polls event ++ pollsFrom args (s.step args event) events

/-- The polls of `run`, as far as it got. -/
def runPolls (args : RunArgs) (events : List LoopEvent) : List RunPoll :=
  pollsFrom args ⟨.top, false, [], []⟩ events

section Run

variable {args : RunArgs} {s : LoopState} {event : LoopEvent} {events : List LoopEvent}

/-- An event adds what its poll does. -/
theorem history_step (s : LoopState) (event : LoopEvent) :
    (s.step args event).history = s.history ++ (s.polls event).flatMap (RunPoll.effects args) := by
  cases event with
  | signal => exact (List.append_nil _).symm
  | turn world =>
      show (s.turn args world).history = _
      unfold LoopState.turn LoopState.polls
      cases hplace : s.place with
      | top =>
          simp only
          split_ifs
          · exact (List.append_nil _).symm
          · simp [LoopState.poll, RunPoll.effects, RunPoll.pollArgs, RunPoll.now]
      | waiting waited =>
          simp only
          split_ifs <;> exact (List.append_nil _).symm
      | left result => exact (List.append_nil _).symm

/-- An event is one poll, which begins where the polls before it ended, or none. -/
theorem polls_cases (s : LoopState) (event : LoopEvent) :
    s.polls event = [] ∨ ∃ world, s.polls event = [⟨world, s.history⟩] := by
  cases event with
  | signal => exact Or.inl rfl
  | turn world =>
      simp only [LoopState.polls]
      cases s.place with
      | top =>
          cases s.stopping with
          | true => exact Or.inl rfl
          | false => exact Or.inr ⟨world, rfl⟩
      | waiting waited => exact Or.inl rfl
      | left result => exact Or.inl rfl

/-- Every poll of a run begins with the tickets in order. -/
theorem well_before (hwell : Well s.history) : ∀ p ∈ pollsFrom args s events, Well p.before := by
  induction events generalizing s with
  | nil => exact fun p hp => absurd hp List.not_mem_nil
  | cons event events ih =>
      have hstep := @history_step args s event
      intro p hp
      rcases List.mem_append.mp hp with hnow | hlater
      · rcases polls_cases s event with hnone | ⟨world, hone⟩
        · rw [hnone] at hnow
          cases hnow
        · rw [hone, List.mem_singleton] at hnow
          rw [hnow]
          exact hwell
      · refine ih ?_ p hlater
        rw [hstep]
        rcases polls_cases s event with hnone | ⟨world, hone⟩
        · rw [hnone, List.flatMap_nil, List.append_nil]
          exact hwell
        · rw [hone, List.flatMap_singleton]
          exact well_append.mpr ⟨hwell, (wp_pollOnce_well _ hwell).1⟩

/-- What the polls of a run did is what the run did. -/
theorem history_run (events : List LoopEvent) (s : LoopState) :
    (events.foldl (LoopState.step args) s).history =
      s.history ++ (pollsFrom args s events).flatMap (RunPoll.effects args) := by
  induction events generalizing s with
  | nil => exact (List.append_nil _).symm
  | cons event events ih =>
      rw [List.foldl_cons, ih, history_step, List.append_assoc, pollsFrom, List.flatMap_append]

end Run

end Gridlens
