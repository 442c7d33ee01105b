import Gridlens.Calls

/-!
# Every message answered for, or not

`gridlens.stream.producer.run` makes one call of `poll_once` after another on
one producer. A message outlives the call that handed it over: it waits in the
local queue until the broker answers, and its callback is served by whichever
poll or flush comes next. The callback writes into the `failures` of the call
that handed the message over, and only that call's `DeliveryFailed` counts
them.

* `Well`: the record keeps the rules of the producer. A ticket names one
  message, and only a queued message is served.
* `Tracked`: what one call has handed over, and the refusals in its `failures`.
* `reported_iff_prompt`: at a normal return, every message so far is with the
  broker or counted in some `DeliveryFailed` exactly when every refusal came
  within the call that handed its message over, and that call came to its
  flush.
-/

namespace Gridlens

open Effects
open Effects.Program (lift ask act)

/-! ## The producer's record -/

/-- The message an effect puts into the queue. -/
def handed : Effect → List Nat
  | .produced ticket _ (.ok _) => [ticket]
  | _ => []

/-- The refusal an effect serves. -/
def refused : Effect → List (Nat × String)
  | .served ticket (some error) => [(ticket, error)]
  | _ => []

/-- A message gets a ticket of its own, and a callback is of a queued message. -/
def Delivers (h : Trace) : Effect → Prop
  | .produced ticket _ _ => ticket = h.length
  | .served ticket _ => ticket ∈ queueOf h
  | _ => True

/-- The record keeps the rules of the producer. -/
def Well (h : Trace) : Prop := Along Delivers [] h

section Record

variable {h es : Trace}

theorem well_append : Well (h ++ es) ↔ Well h ∧ Along Delivers h es := along_append

theorem well_concat {e : Effect} : Well (h ++ [e]) ↔ Well h ∧ Delivers h e :=
  along_append.trans (and_congr_right fun _ => along_singleton)

@[simp] theorem mem_handed {ticket : Nat} {e : Effect} :
    ticket ∈ handed e ↔ ∃ message, e = .produced ticket message (.ok ()) := by
  unfold handed
  split
  · simp [eq_comm]
  · rename_i hne
    simp only [List.not_mem_nil, false_iff]
    rintro ⟨message, rfl⟩
    exact hne ticket message () rfl

@[simp] theorem mem_refused {r : Nat × String} {e : Effect} :
    r ∈ refused e ↔ e = .served r.1 (some r.2) := by
  rcases r with ⟨ticket, error⟩
  unfold refused
  split
  · simp [eq_comm]
  · rename_i hne
    simp only [List.not_mem_nil, false_iff]
    exact hne ticket error

/-- The tickets of a call lie between its beginning and its end. -/
theorem handed_between (hes : Along Delivers h es) {ticket : Nat}
    (hmem : ticket ∈ es.flatMap handed) : h.length ≤ ticket ∧ ticket < (h ++ es).length := by
  induction es generalizing h with
  | nil => simp at hmem
  | cons e es ih =>
      rw [List.flatMap_cons, List.mem_append] at hmem
      -- a ticket is the place of its message in the trace
      rcases hmem with hnow | hlater
      · rcases mem_handed.mp hnow with ⟨message, rfl⟩
        have hticket : ticket = h.length := hes.1
        rw [hticket, List.length_append, List.length_cons]
        omega
      · have hrest := ih hes.2 hlater
        rw [List.length_append, List.length_singleton] at hrest
        rw [List.append_cons]
        omega

theorem Well.handed_lt (hwell : Well h) {ticket : Nat} (hmem : ticket ∈ h.flatMap handed) :
    ticket < h.length := (handed_between hwell hmem).2

/-- What the rules of the producer give: the queue is the messages handed over
and not served yet, and a message is served at most once. -/
structure Queued (h : Trace) : Prop where
  nodup : (queueOf h).Nodup
  mem_queueOf : ∀ ticket, ticket ∈ queueOf h ↔
    ticket ∈ h.flatMap handed ∧ ∀ error, .served ticket error ∉ h
  handed_of_served : ∀ ticket error, .served ticket error ∈ h → ticket ∈ h.flatMap handed
  served_once : ∀ ticket error error',
    .served ticket error ∈ h → .served ticket error' ∈ h → error = error'

theorem Queued.nil : Queued [] where
  nodup := List.nodup_nil
  mem_queueOf := by simp [queueOf]
  handed_of_served := by simp
  served_once := by simp

/-- An effect that is neither a message nor a callback. -/
theorem Queued.quiet {e : Effect} (hq : Queued h) (hqueue : queueStep (queueOf h) e = queueOf h)
    (hhanded : handed e = []) (hserved : ∀ ticket error, e ≠ .served ticket error) :
    Queued (h ++ [e]) where
  nodup := by rw [queueOf_concat, hqueue]; exact hq.nodup
  mem_queueOf ticket := by
    rw [queueOf_concat, hqueue, hq.mem_queueOf]
    simp [hhanded, (hserved _ _).symm]
  handed_of_served ticket error hmem := by
    have hbefore : .served ticket error ∈ h := by simpa [(hserved _ _).symm] using hmem
    simpa using Or.inl (by simpa using hq.handed_of_served ticket error hbefore)
  served_once ticket error error' hmem hmem' := by
    refine hq.served_once ticket error error' ?_ ?_
    · simpa [(hserved _ _).symm] using hmem
    · simpa [(hserved _ _).symm] using hmem'

/-- A message takes a new ticket. -/
theorem Queued.produced {message : Message} (hq : Queued h) (hwell : Well h) :
    Queued (h ++ [.produced h.length message (.ok ())]) := by
  have hfresh : h.length ∉ h.flatMap handed := fun hmem => Nat.lt_irrefl _ (hwell.handed_lt hmem)
  have hunserved : ∀ error, .served h.length error ∉ h :=
    fun error hmem => hfresh (hq.handed_of_served _ error hmem)
  have hqueue : queueOf (h ++ [Effect.produced h.length message (.ok ())]) =
      queueOf h ++ [h.length] := by
    rw [queueOf_concat]
    rfl
  have hhanded : (h ++ [Effect.produced h.length message (.ok ())]).flatMap handed =
      h.flatMap handed ++ [h.length] := by
    rw [List.flatMap_append]
    rfl
  refine ⟨?_, fun ticket => ?_, fun ticket error hmem => ?_,
    fun ticket error error' hmem hmem' => ?_⟩
  · -- the new ticket is behind all of the old ones
    rw [hqueue]
    refine hq.nodup.append (List.nodup_singleton _) fun ticket hold hnew => ?_
    rw [List.mem_singleton.mp hnew] at hold
    exact hfresh ((hq.mem_queueOf _).mp hold).1
  · rw [hqueue, hhanded, List.mem_append, List.mem_append, List.mem_singleton, hq.mem_queueOf]
    constructor
    · rintro (⟨hold, hnone⟩ | rfl)
      · exact ⟨Or.inl hold, by simpa using hnone⟩
      · exact ⟨Or.inr rfl, by simpa using hunserved⟩
    · rintro ⟨hold | hnew, hnone⟩
      · exact Or.inl ⟨hold, fun error hmem => hnone error (List.mem_append_left _ hmem)⟩
      · exact Or.inr hnew
  · rw [hhanded]
    exact List.mem_append_left _ (hq.handed_of_served ticket error (by simpa using hmem))
  · exact hq.served_once ticket error error' (by simpa using hmem) (by simpa using hmem')

/-- A callback takes its message off the queue. -/
theorem Queued.served {ticket : Nat} {error : Option String} (hq : Queued h)
    (hmem : ticket ∈ queueOf h) : Queued (h ++ [.served ticket error]) := by
  have hold := (hq.mem_queueOf ticket).mp hmem
  have hqueue : queueOf (h ++ [Effect.served ticket error]) =
      (queueOf h).filter fun t => t ≠ ticket := by
    rw [queueOf_concat]
    rfl
  have hhanded : (h ++ [Effect.served ticket error]).flatMap handed = h.flatMap handed := by
    rw [List.flatMap_append]
    exact List.append_nil _
  have hserved : ∀ t e, Effect.served t e ∈ h ++ [Effect.served ticket error] ↔
      Effect.served t e ∈ h ∨ t = ticket ∧ e = error := by
    simp
  refine ⟨?_, fun t => ?_, fun t e hmem => ?_, fun t e e' hmem hmem' => ?_⟩
  · rw [hqueue]
    exact hq.nodup.filter _
  · rw [hqueue, hhanded, List.mem_filter, hq.mem_queueOf, decide_eq_true_eq]
    constructor
    · rintro ⟨⟨hbefore, hnone⟩, hne⟩
      refine ⟨hbefore, fun e hmem => ?_⟩
      rcases (hserved t e).mp hmem with hearlier | hnow
      · exact hnone e hearlier
      · exact hne hnow.1
    · rintro ⟨hbefore, hnone⟩
      refine ⟨⟨hbefore, fun e hearlier => hnone e ((hserved t e).mpr (Or.inl hearlier))⟩, ?_⟩
      -- had it been this message, this callback would be one of its own
      rintro rfl
      exact hnone error ((hserved _ _).mpr (Or.inr ⟨rfl, rfl⟩))
  · rw [hhanded]
    rcases (hserved t e).mp hmem with hearlier | ⟨rfl, rfl⟩
    · exact hq.handed_of_served t e hearlier
    · exact hold.1
  · -- the message was still in the queue, so this is its first callback
    rcases (hserved t e).mp hmem with hearlier | ⟨rfl, rfl⟩
    · rcases (hserved t e').mp hmem' with hearlier' | ⟨rfl, rfl⟩
      · exact hq.served_once t e e' hearlier hearlier'
      · exact absurd hearlier (hold.2 e)
    · rcases (hserved t e').mp hmem' with hearlier' | ⟨-, rfl⟩
      · exact absurd hearlier' (hold.2 e')
      · rfl

/-- The rules of the producer, effect by effect. -/
theorem Well.queued (hwell : Well h) : Queued h := by
  induction h using List.reverseRecOn with
  | nil => exact Queued.nil
  | append_singleton h e ih =>
      rcases well_concat.mp hwell with ⟨hbefore, hnow⟩
      have hq := ih hbefore
      cases e with
      | produced ticket message answer =>
          have hticket : ticket = h.length := hnow
          cases answer with
          -- only a message that was taken is in the queue
          | ok u =>
              rw [hticket]
              exact hq.produced hbefore
          | error error => exact hq.quiet rfl rfl (by simp)
      | served ticket error => exact hq.served hnow
      | _ => exact hq.quiet rfl rfl (by simp)

end Record

/-! ## What one call keeps -/

/-- The refusals of messages with a ticket from `n` on. -/
def refusedFrom (n : Nat) (h : Trace) : List (Nat × String) :=
  (h.flatMap refused).filter fun r => n ≤ r.1

theorem refusedFrom_append (n : Nat) (h es : Trace) :
    refusedFrom n (h ++ es) = refusedFrom n h ++ refusedFrom n es := by
  rw [refusedFrom, List.flatMap_append, List.filter_append]
  rfl

/-- After `h`, what a call that began at `n` has in its two lists. -/
structure Tracked (n : Nat) (h : Trace) (d : Delivery) : Prop where
  well : Well h
  began : n ≤ h.length
  mem_tickets : ∀ ticket, ticket ∈ d.tickets ↔ n ≤ ticket ∧ ticket ∈ h.flatMap handed
  failures_eq : d.failures = (refusedFrom n h).map Prod.snd

section Call

variable {o : Outside} {n : Nat} {h : Trace} {d : Delivery}

/-- A call begins with nothing of its own. -/
theorem Tracked.start (hwell : Well h) : Tracked h.length h ⟨[], []⟩ := by
  refine ⟨hwell, Nat.le_refl _, fun ticket => ?_, ?_⟩
  · simp only [List.not_mem_nil, false_iff, not_and]
    intro hn hmem
    have hlt := hwell.handed_lt hmem
    omega
  · -- what was refused before had an earlier ticket
    have hnone : refusedFrom h.length h = [] := by
      refine List.filter_eq_nil_iff.mpr fun r hr => ?_
      rcases List.mem_flatMap.mp hr with ⟨e, he, hre⟩
      rw [mem_refused.mp hre] at he
      have hlt := hwell.handed_lt (hwell.queued.handed_of_served _ _ he)
      simpa using hlt
    rw [hnone]
    rfl

/-- An effect that has nothing to do with the producer. -/
theorem Tracked.quiet {e : Effect} (htracked : Tracked n h d) (hdelivers : Delivers h e)
    (hhanded : handed e = []) (hrefused : refused e = []) : Tracked n (h ++ [e]) d where
  well := well_concat.mpr ⟨htracked.well, hdelivers⟩
  began := by
    rw [List.length_append]
    exact Nat.le_add_right_of_le htracked.began
  mem_tickets ticket := by
    rw [htracked.mem_tickets, List.flatMap_append]
    simp [hhanded]
  failures_eq := by
    rw [htracked.failures_eq, refusedFrom_append]
    simp [refusedFrom, hrefused]

theorem wp_produce {message : Message} (htracked : Tracked n h d) :
    Wp o Delivers (produce d message) (fun d h => Tracked n h d) h := by
  simp only [produce, wp_act]
  refine ⟨rfl, fun d' hd' => ?_⟩
  cases hproduce : o.produce h message with
  | error error =>
      rw [hproduce] at hd'
      cases hd'
  | ok u =>
      rw [hproduce] at hd'
      cases hd'
      refine ⟨well_concat.mpr ⟨htracked.well, rfl⟩, ?_, fun ticket => ?_, ?_⟩
      · rw [List.length_append]
        exact Nat.le_add_right_of_le htracked.began
      · -- the new ticket is the length of the trace, so not before `n`
        have hbegan := htracked.began
        rw [List.mem_append, htracked.mem_tickets, List.flatMap_append, List.mem_append]
        simp only [handed, List.flatMap_cons, List.flatMap_nil, List.append_nil, List.mem_singleton]
        constructor
        · rintro (⟨hn, hold⟩ | rfl)
          · exact ⟨hn, Or.inl hold⟩
          · exact ⟨hbegan, Or.inr rfl⟩
        · rintro ⟨hn, hold | hnew⟩
          · exact Or.inl ⟨hn, hold⟩
          · exact Or.inr hnew
      · rw [htracked.failures_eq, refusedFrom_append]
        simp [refusedFrom, refused]

/-- Callbacks of queued messages, each message once. -/
theorem along_served {rs : List (Nat × Option String)} (hqueue : ∀ r ∈ rs, r.1 ∈ queueOf h)
    (hnodup : (rs.map Prod.fst).Nodup) : Along Delivers h (rs.map fun r => .served r.1 r.2) := by
  induction rs generalizing h with
  | nil => trivial
  | cons r rs ih =>
      rw [List.map_cons, List.nodup_cons] at hnodup
      refine ⟨hqueue r List.mem_cons_self, ih (fun r' hr' => ?_) hnodup.2⟩
      -- another message is in the queue still
      rw [queueOf_concat]
      refine List.mem_filter.mpr ⟨hqueue r' (List.mem_cons_of_mem _ hr'), ?_⟩
      simp only [decide_eq_true_eq]
      exact fun heq => hnodup.1 (heq ▸ List.mem_map_of_mem hr')

theorem reports_fst : (reports o h).map Prod.fst = (queueOf h).filter fun ticket =>
    (o.report h ticket).isSome := by
  unfold reports
  induction queueOf h with
  | nil => rfl
  | cons ticket queue ih =>
      cases hreport : o.report h ticket <;> simp [hreport, ih]

/-- The callbacks served, with the refusals of this call among them. -/
theorem tracked_served (htracked : Tracked n h d) :
    Tracked n (h ++ (reports o h).map fun r => .served r.1 r.2)
      { d with failures := d.failures ++ (reports o h).flatMap d.delivered } := by
  have hqueue : ∀ r ∈ reports o h, r.1 ∈ queueOf h := by
    intro r hr
    have hfst := List.mem_map_of_mem (f := Prod.fst) hr
    rw [reports_fst] at hfst
    exact List.mem_of_mem_filter hfst
  have hnodup : ((reports o h).map Prod.fst).Nodup := by
    rw [reports_fst]
    exact htracked.well.queued.nodup.filter _
  have hhanded : ((reports o h).map fun r => Effect.served r.1 r.2).flatMap handed = [] := by
    simp [List.flatMap_map, handed]
  -- a callback is of this call when its ticket is
  have hown : ∀ r ∈ reports o h, d.delivered r =
      ((refused (.served r.1 r.2)).filter fun r => n ≤ r.1).map Prod.snd := by
    intro r hr
    rcases r with ⟨ticket, error⟩
    cases error with
    | none => rfl
    | some error =>
        have hmem := ((htracked.well.queued.mem_queueOf ticket).mp (hqueue _ hr)).1
        have hiff : ticket ∈ d.tickets ↔ n ≤ ticket :=
          (htracked.mem_tickets ticket).trans (and_iff_left hmem)
        by_cases hn : n ≤ ticket
        · simp [Delivery.delivered, refused, hn, hiff.mpr hn]
        · simp [Delivery.delivered, refused, hn, mt hiff.mp hn]
  have hnew : (reports o h).flatMap d.delivered =
      (refusedFrom n ((reports o h).map fun r => Effect.served r.1 r.2)).map Prod.snd := by
    rw [refusedFrom, List.flatMap_map, List.filter_flatMap, List.map_flatMap]
    exact List.flatMap_congr hown
  refine ⟨well_append.mpr ⟨htracked.well, along_served hqueue hnodup⟩, ?_, fun ticket => ?_, ?_⟩
  · rw [List.length_append]
    exact Nat.le_add_right_of_le htracked.began
  · rw [htracked.mem_tickets, List.flatMap_append, hhanded, List.append_nil]
  · rw [refusedFrom_append, List.map_append, ← htracked.failures_eq, ← hnew]

theorem wp_servePoll_tracked (htracked : Tracked n h d) :
    Wp o Delivers (servePoll d) (fun d h => Tracked n h d) h := by
  have hserved := tracked_served (o := o) htracked
  refine ⟨(well_append.mp hserved.well).2, fun d' hd' => ?_⟩
  cases hd'
  exact hserved

theorem wp_publish {args : PollArgs} {record : GenerationRecord} (htracked : Tracked n h d) :
    Wp o Delivers (publish args d record) (fun d h => Tracked n h d) h := by
  simp only [publish, wp_bind, wp_ask, wp_lift]
  exact fun _ _ => (wp_produce htracked).mono fun d' h' htracked' => wp_servePoll_tracked htracked'

theorem wp_pollDay_tracked {args : PollArgs} {s : PollState} (day : Date)
    (htracked : Tracked n h s.delivery) :
    Wp o Delivers (pollDay args s day) (fun s h => Tracked n h s.delivery) h := by
  simp only [pollDay, actualGenerationPerType, fetch, wp_bind, wp_lift, wp_act]
  refine fun bounds _ => ⟨trivial, fun answer hanswer => ?_⟩
  cases hanswer
  have hfetched : ∀ answer, Tracked n (h ++ [.fetched args.zone.value bounds.1 bounds.2 answer])
      s.delivery := fun _ => htracked.quiet trivial rfl rfl
  split
  · rename_i fetched _
    simp only [wp_pure, wp_bind, gate, wp_ask, wp_lift]
    -- the records first, each with its callbacks, then the refusals
    intro result _
    refine (wp_foldlM (fun d record h' htracked' => wp_publish htracked') result.records
      (hfetched _)).mono fun d₁ h₁ htracked₁ => ?_
    rw [wp_bind]
    exact (wp_foldlM (fun d violation h' htracked' => wp_produce htracked') result.violations
      htracked₁).mono fun d₂ h₂ htracked₂ => wp_pure.mpr htracked₂
  · split
    · rw [wp_pure, wp_pure]
      exact hfetched _
    · simp

/-! ## `poll_once`, up to its flush and from it -/

/-- The loop over the days. -/
def pollDays (args : PollArgs) : Job PollState := do
  let days ← lift (daysToPoll args.now args.zoneTz)
  days.foldlM (pollDay args) ⟨⟨[], []⟩, 0, 0, [], []⟩

/-- The flush, and what follows it. -/
def pollFlush (args : PollArgs) (s : PollState) : Job PollSummary := do
  let (d, unsent) ← flush s.delivery
  if unsent ≠ 0 ∨ d.failures ≠ [] then lift (.error (deliveryFailed unsent d.failures))
  else return ⟨s.published, s.quarantined, s.emptyDays, s.days, args.now⟩

theorem pollOnce_eq (args : PollArgs) : pollOnce args = pollDays args >>= pollFlush args := by
  unfold pollDays
  rw [Program.bind_assoc]
  rfl

theorem wp_pollDays (args : PollArgs) (hwell : Well h) :
    Wp o Delivers (pollDays args) (fun s h' => Tracked h.length h' s.delivery) h := by
  simp only [pollDays, wp_bind, wp_lift]
  exact fun days _ => wp_foldlM (fun (s : PollState) day h' hkept => wp_pollDay_tracked day hkept)
    days (Tracked.start hwell)

theorem wp_pollFlush (args : PollArgs) {s : PollState} (htracked : Tracked n h s.delivery) :
    Wp o Delivers (pollFlush args s) (fun _ _ => True) h := by
  simp only [pollFlush, flush, wp_bind]
  refine (wp_servePoll_tracked htracked).mono fun d h' htracked' => ?_
  simp only [wp_bind, wp_ask, wp_pure]
  split <;> simp

theorem ends_servePoll {Q : Except PyError Delivery → Trace → Prop} :
    Ends o (servePoll d) Q h ↔
      Q (.ok { d with failures := d.failures ++ (reports o h).flatMap d.delivered })
        ((reports o h).map fun r => .served r.1 r.2) := Iff.rfl

/-- What the flush ends with: a return when nothing waits and nothing of the
call was refused, and otherwise the error that counts the call's refusals. -/
theorem ends_pollFlush (args : PollArgs) {s : PollState} (htracked : Tracked n h s.delivery) :
    Ends o (pollFlush args s) (fun r es => match r with
      | .ok _ => queueOf (h ++ es) = [] ∧ refusedFrom n (h ++ es) = []
      | .error error => error = deliveryFailed (queueOf (h ++ es)).length
          ((refusedFrom n (h ++ es)).map Prod.snd)) h := by
  have hfailures : s.delivery.failures ++ (reports o h).flatMap s.delivery.delivered = _ :=
    (tracked_served (o := o) htracked).failures_eq
  simp only [pollFlush, flush, ends_bind, ends_servePoll, ends_ask, ends_pure, List.append_nil]
  split
  · rw [ends_lift, List.append_nil, hfailures]
  · rename_i hnone
    rw [not_or, not_not, not_not, hfailures, List.map_eq_nil_iff] at hnone
    rw [ends_pure, List.append_nil]
    exact ⟨List.eq_nil_of_length_eq_zero hnone.1, hnone.2⟩

/-! ## One call -/

/-- The fetches, the gates and the hand-overs of the call raise nothing. -/
def Finishes (o : Outside) (h : Trace) (args : PollArgs) : Prop :=
  ∃ s, (pollDays args o h).1 = .ok s

/-- The refusals, served within the call, of messages the call handed over. -/
def ownRefusals (es : Trace) : List (Nat × String) :=
  (es.flatMap refused).filter fun r => r.1 ∈ es.flatMap handed

theorem wp_pollOnce_well (args : PollArgs) (hwell : Well h) :
    Wp o Delivers (pollOnce args) (fun _ _ => True) h := by
  rw [pollOnce_eq, wp_bind]
  exact (wp_pollDays args hwell).mono fun s h' htracked => wp_pollFlush args htracked

/-- The refusals of the call's own tickets are those served since it began. -/
theorem refusedFrom_eq {es : Trace} (hwell : Well (h ++ es)) :
    refusedFrom h.length (h ++ es) = ownRefusals es := by
  rcases well_append.mp hwell with ⟨hbefore, hes⟩
  have hnone : refusedFrom h.length h = [] :=
    (List.map_eq_nil_iff.mp (Tracked.start hbefore).failures_eq.symm)
  rw [refusedFrom_append, hnone, List.nil_append]
  refine List.filter_congr fun r hr => ?_
  rcases List.mem_flatMap.mp hr with ⟨e, he, hre⟩
  rw [mem_refused.mp hre] at he
  -- it was handed over before the call or within it, and the ticket tells which
  have hmem := hwell.queued.handed_of_served _ _ (List.mem_append_right h he)
  rw [List.flatMap_append, List.mem_append] at hmem
  rw [decide_eq_decide]
  constructor
  · intro hlater
    rcases hmem with hold | hown
    · have hlt := hbefore.handed_lt hold
      omega
    · exact hown
  · exact fun hown => (handed_between hes hown).1

/-- A call that finishes returns when nothing waits and nothing of its own was
refused, and otherwise raises the error that counts its own refusals. -/
theorem ends_of_finishes {args : PollArgs} (hwell : Well h) (hfin : Finishes o h args) :
    Ends o (pollOnce args) (fun r es => match r with
      | .ok _ => queueOf (h ++ es) = [] ∧ ownRefusals es = []
      | .error error => error = deliveryFailed (queueOf (h ++ es)).length
          ((ownRefusals es).map Prod.snd)) h := by
  rcases hfin with ⟨s, hs⟩
  have hend : Well (h ++ (pollOnce args o h).2) :=
    well_append.mpr ⟨hwell, (wp_pollOnce_well args hwell).1⟩
  have hdays : pollDays args o h = (.ok s, (pollDays args o h).2) := Prod.ext hs rfl
  -- the loop over the days returned, so the end is that of the flush
  have hflush := ends_pollFlush (o := o) args ((wp_pollDays args hwell).2 s hs)
  simp only [Ends] at hflush ⊢
  rw [← refusedFrom_eq hend, pollOnce_eq, Program.bind_of_ok hdays]
  simpa only [List.append_assoc] using hflush

/-- A call that returns has finished. -/
theorem finishes_of_returns {args : PollArgs} {summary : PollSummary}
    (hret : (pollOnce args o h).1 = .ok summary) : Finishes o h args := by
  rw [pollOnce_eq] at hret
  rcases hdays : pollDays args o h with ⟨r, es⟩
  cases r with
  | ok s => exact ⟨s, by rw [hdays]⟩
  | error error =>
      rw [Program.bind_of_error hdays] at hret
      cases hret

end Call

/-! ## Call after call -/

/-- The trace of calls of `poll_once`, one after another. -/
def pollRun (o : Outside) (polls : List PollArgs) : Trace := runAll o (polls.map .poll)

/-- The trace in which the next call begins. -/
def pollStart (o : Outside) (before : List PollArgs) : Trace := pollRun o before ++ [.began]

/-- What the next call leaves. -/
def polled (o : Outside) (before : List PollArgs) (args : PollArgs) : Trace :=
  (pollOnce args o (pollStart o before)).2

section Run

variable {o : Outside} {before polls : List PollArgs} {args : PollArgs}

theorem pollRun_concat (o : Outside) (before : List PollArgs) (args : PollArgs) :
    pollRun o (before ++ [args]) = pollStart o before ++ polled o before args := by
  have hrun : (Call.run (.poll args) o (pollStart o before)).2 = polled o before args := by
    show ((pollOnce args >>= fun _ => pure ()) o (pollStart o before)).2 = _
    unfold polled
    rcases hret : pollOnce args o (pollStart o before) with ⟨r, es⟩
    cases r with
    | ok summary =>
        rw [Program.bind_of_ok hret]
        exact List.append_nil es
    | error error => rw [Program.bind_of_error hret]
  rw [pollRun, List.map_append]
  exact (runAll_concat o _ (.poll args)).trans (congrArg (pollStart o before ++ ·) hrun)

theorem pollRun_mono (hpre : before <+: polls) : pollRun o before <+: pollRun o polls :=
  runAll_mono (hpre.map _)

/-- Every call keeps the rules of the producer. -/
theorem well_pollStart (hwell : Well (pollRun o before)) : Well (pollStart o before) :=
  well_concat.mpr ⟨hwell, trivial⟩

theorem well_pollRun (o : Outside) (polls : List PollArgs) : Well (pollRun o polls) := by
  induction polls using List.reverseRecOn with
  | nil => trivial
  | append_singleton before args ih =>
      rw [pollRun_concat]
      exact well_append.mpr ⟨well_pollStart ih, (wp_pollOnce_well args (well_pollStart ih)).1⟩

/-- A message was handed over by a call of the run. -/
theorem exists_call {ticket : Nat} (hmem : ticket ∈ (pollRun o polls).flatMap handed) :
    ∃ before args, before ++ [args] <+: polls ∧ ticket ∈ (polled o before args).flatMap handed := by
  induction polls using List.reverseRecOn with
  | nil => simp [pollRun, runAll] at hmem
  | append_singleton before args ih =>
      rw [pollRun_concat, pollStart, List.flatMap_append, List.flatMap_append, List.mem_append,
        List.mem_append] at hmem
      rcases hmem with (hearlier | hmark) | hnow
      · rcases ih hearlier with ⟨before', args', hpre, hown⟩
        exact ⟨before', args', hpre.trans (List.prefix_append _ _), hown⟩
      · simp at hmark
      · exact ⟨before, args, List.prefix_refl _, hnow⟩

/-- The tickets of a call lie within it. -/
theorem own_between {ticket : Nat} (hown : ticket ∈ (polled o before args).flatMap handed) :
    (pollRun o before).length < ticket ∧ ticket < (pollRun o (before ++ [args])).length := by
  have hes : Along Delivers (pollStart o before) (polled o before args) :=
    (wp_pollOnce_well args (well_pollStart (well_pollRun o before))).1
  have hbetween := handed_between hes hown
  rw [← pollRun_concat, pollStart, List.length_append, List.length_singleton] at hbetween
  exact ⟨by omega, hbetween.2⟩

/-- One call handed the message over. -/
theorem same_call {before' : List PollArgs} {args' : PollArgs} {ticket : Nat}
    (hpre : before ++ [args] <+: polls) (hpre' : before' ++ [args'] <+: polls)
    (hown : ticket ∈ (polled o before args).flatMap handed)
    (hown' : ticket ∈ (polled o before' args').flatMap handed) :
    before ++ [args] = before' ++ [args'] := by
  -- of two calls of one run, one is not before the other
  have hlt : ∀ {b b' : List PollArgs} {a a' : PollArgs},
      ticket ∈ (polled o b a).flatMap handed → ticket ∈ (polled o b' a').flatMap handed →
        ¬ b ++ [a] <+: b' := by
    intro b b' a a' hb hb' hbefore
    have hle := (pollRun_mono (o := o) hbefore).length_le
    have h₁ := own_between hb
    have h₂ := own_between hb'
    omega
  rcases List.prefix_or_prefix_of_prefix hpre hpre' with hbefore | hbefore
  · rcases List.prefix_concat_iff.mp hbefore with heq | hstrict
    · exact heq
    · exact absurd hstrict (hlt hown hown')
  · rcases List.prefix_concat_iff.mp hbefore with heq | hstrict
    · exact heq.symm
    · exact absurd hstrict (hlt hown' hown)

end Run

/-! ## What is reported -/

/-- The call raised a `DeliveryFailed` that counts the refusal of the message. -/
def Counted (o : Outside) (before : List PollArgs) (args : PollArgs) (ticket : Nat) : Prop :=
  Finishes o (pollStart o before) args ∧
    (∃ unsent, (pollOnce args o (pollStart o before)).1 =
      .error (deliveryFailed unsent ((ownRefusals (polled o before args)).map Prod.snd))) ∧
    ∃ error, (ticket, error) ∈ ownRefusals (polled o before args)

/-- Every message handed over has been acknowledged, or a call of the run has
counted its refusal. -/
def Reported (o : Outside) (polls : List PollArgs) : Prop :=
  ∀ ticket ∈ (pollRun o polls).flatMap handed, .served ticket none ∈ pollRun o polls ∨
    ∃ before args, before ++ [args] <+: polls ∧ Counted o before args ticket

/-- Where the broker has refused a message, it did so before the call that
handed the message over ended, and that call came to its flush. -/
def Prompt (o : Outside) (polls : List PollArgs) : Prop :=
  ∀ before args, before ++ [args] <+: polls → ∀ r ∈ (pollRun o polls).flatMap refused,
    r.1 ∈ (polled o before args).flatMap handed →
      r ∈ (polled o before args).flatMap refused ∧ Finishes o (pollStart o before) args

section Report

variable {o : Outside} {before polls : List PollArgs} {args : PollArgs}

/-- A call that finishes with a refusal of its own counts it. -/
theorem counted_of_refused {r : Nat × String} (hfin : Finishes o (pollStart o before) args)
    (hrefused : r ∈ (polled o before args).flatMap refused)
    (hown : r.1 ∈ (polled o before args).flatMap handed) : Counted o before args r.1 := by
  have hmem : r ∈ ownRefusals (polled o before args) :=
    List.mem_filter.mpr ⟨hrefused, decide_eq_true hown⟩
  refine ⟨hfin, ?_, r.2, hmem⟩
  have hend := ends_of_finishes (well_pollStart (well_pollRun o before)) hfin
  unfold Ends at hend
  cases hret : (pollOnce args o (pollStart o before)).1 with
  | ok summary =>
      -- a call that returns has no refusal of its own
      rw [hret] at hend
      have hnone : ownRefusals (polled o before args) = [] := hend.2
      rw [hnone] at hmem
      cases hmem
  | error error =>
      rw [hret] at hend
      exact ⟨_, congrArg Except.error hend⟩

/-- When a call returns, the broker has answered for every message so far. -/
theorem answered_of_returns {ticket : Nat}
    (hret : (pollOnce args o (pollStart o polls)).1.isOk = true)
    (hmem : ticket ∈ (pollRun o (polls ++ [args])).flatMap handed) :
    ∃ error, .served ticket error ∈ pollRun o (polls ++ [args]) := by
  rcases exists_returns hret with ⟨summary, hreturns⟩
  have hok : (pollOnce args o (pollStart o polls)).1 = .ok summary := congrArg Prod.fst hreturns
  have hend := ends_of_finishes (well_pollStart (well_pollRun o polls)) (finishes_of_returns hok)
  unfold Ends at hend
  rw [hok] at hend
  have hempty : queueOf (pollRun o (polls ++ [args])) = [] := by
    rw [pollRun_concat]
    exact hend.1
  have hqueue := (well_pollRun o (polls ++ [args])).queued.mem_queueOf ticket
  rw [hempty] at hqueue
  -- unanswered, it would wait in the queue
  by_contra hnone
  rw [not_exists] at hnone
  exact List.not_mem_nil (hqueue.mpr ⟨hmem, hnone⟩)

theorem reported_of_prompt (hret : (pollOnce args o (pollStart o polls)).1.isOk = true)
    (hprompt : Prompt o (polls ++ [args])) : Reported o (polls ++ [args]) := by
  intro ticket hmem
  rcases answered_of_returns hret hmem with ⟨error, hserved⟩
  cases error with
  | none => exact Or.inl hserved
  | some error =>
      -- the call that handed it over saw the refusal, and counted it
      rcases exists_call hmem with ⟨before, args', hpre, hown⟩
      have hrefused : (ticket, error) ∈ (pollRun o (polls ++ [args])).flatMap refused :=
        List.mem_flatMap.mpr ⟨_, hserved, mem_refused.mpr rfl⟩
      have hown' := hprompt before args' hpre (ticket, error) hrefused hown
      exact Or.inr ⟨before, args', hpre, counted_of_refused hown'.2 hown'.1 hown⟩

theorem prompt_of_reported (hreported : Reported o polls) : Prompt o polls := by
  intro before args hpre r hrefused hown
  have hqueued := (well_pollRun o polls).queued
  rcases List.mem_flatMap.mp hrefused with ⟨e, hserved, hre⟩
  rw [mem_refused.mp hre] at hserved
  rcases hreported r.1 (hqueued.handed_of_served _ _ hserved) with hack | hcounted
  · -- refused, so not acknowledged
    cases hqueued.served_once _ _ _ hack hserved
  · rcases hcounted with ⟨before', args', hpre', hfin, -, error, hmem⟩
    rcases List.mem_filter.mp hmem with ⟨hrefused', hown'⟩
    -- the call that counted it is the one that handed it over
    have hsame := same_call hpre hpre' hown (of_decide_eq_true hown')
    rcases List.append_inj' hsame rfl with ⟨rfl, hargs⟩
    cases hargs
    -- the refusal that was counted is this one
    have hserved' : .served r.1 (some error) ∈ pollRun o polls := by
      rcases List.mem_flatMap.mp hrefused' with ⟨e', he', hre'⟩
      rw [mem_refused.mp hre'] at he'
      refine (pollRun_mono hpre).subset ?_
      rw [pollRun_concat]
      exact List.mem_append_right _ he'
    have heq : some error = some r.2 := hqueued.served_once _ _ _ hserved' hserved
    cases heq
    exact ⟨hrefused', hfin⟩

/-- At a normal return every message of the run is with the broker, or its
refusal was counted, exactly when every refusal came promptly. -/
theorem reported_iff_prompt (o : Outside) (polls : List PollArgs) (args : PollArgs)
    (hret : (pollOnce args o (pollStart o polls)).1.isOk = true) :
    Reported o (polls ++ [args]) ↔ Prompt o (polls ++ [args]) :=
  ⟨prompt_of_reported, reported_of_prompt hret⟩

/-- Nothing refused, nothing late. -/
theorem prompt_of_none_refused (hnone : (pollRun o polls).flatMap refused = []) :
    Prompt o polls := by
  intro before args _ r hrefused
  rw [hnone] at hrefused
  cases hrefused

end Report

/-! ## A refusal nobody is told of -/

/-- 01:00 in Paris on 27 August 2026: the day before is in play still. -/
def smallPoll : PollArgs where
  schemaId := 1
  now := noonQuarters 44 (by decide)
  zone := .FR
  zoneTz := PARIS

/-- A broker that acknowledges. -/
theorem reported_iff_prompt_small : Reported (smallOutside ["100"]) ([] ++ [smallPoll]) :=
  (reported_iff_prompt (smallOutside ["100"]) [] smallPoll (by decide +kernel)).mpr
    (prompt_of_none_refused (by decide +kernel))

/-- The requests of a trace, and the calls. -/
def isFetch : Effect → Bool
  | .fetched _ _ _ _ => true
  | _ => false

def isBegan : Effect → Bool
  | .began => true
  | _ => false

/-- Only the first request is answered with a document, and the second finds
entso-e down. The broker refuses the message when a second call has begun. -/
def forgetfulOutside : Outside :=
  { smallOutside ["100"] with
    fetch := fun h zone start stop =>
      match h.countP isFetch with
      | 0 => (smallOutside ["100"]).fetch h zone start stop
      | 1 => raise .EntsoeUnavailable [.text "giving up after 5 attempts"]
      | _ => raise .EntsoeNoData []
    report := fun h _ =>
      if 2 ≤ h.countP isBegan then some (some "Broker: Not enough in-sync replicas") else none }

/-- The second call serves the refusal and returns. The first, which handed
the message over, has ended long since. -/
theorem late_refusal_unreported :
    (pollOnce smallPoll forgetfulOutside (pollStart forgetfulOutside [smallPoll])).1.isOk = true ∧
      ¬ Reported forgetfulOutside ([smallPoll] ++ [smallPoll]) := by
  refine ⟨by decide +kernel, fun hreported => ?_⟩
  have hrefused : (2, "Broker: Not enough in-sync replicas") ∈
      (pollRun forgetfulOutside ([smallPoll] ++ [smallPoll])).flatMap refused := by
    decide +kernel
  have hfin := (prompt_of_reported hreported [] smallPoll ⟨[smallPoll], rfl⟩ _ hrefused
    (by decide +kernel)).2
  have hraised : (pollDays smallPoll forgetfulOutside
      (pollStart forgetfulOutside [])).1.isOk = false := by
    decide +kernel
  rcases hfin with ⟨s, hs⟩
  rw [hs] at hraised
  cases hraised

end Gridlens
