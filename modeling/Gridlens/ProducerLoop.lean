import Gridlens.Deliveries
import Gridlens.Effects.Pauses
import Gridlens.Rebuild
import Gridlens.SettlementDays
import Mathlib.Algebra.Order.Monoid.WithTop
import Mathlib.Data.Rat.Cast.Order

/-!
# The loop of the producer

`gridlens.stream.producer.run`, from its first poll on: a poll, then a wait of
`interval` seconds in sleeps of one second each, until a signal comes in. The
outside may be another in every poll, and a signal may come at any time.

`RateLimited` says how long not to call: `retry_after`. The loop logs it with
every other exception and waits its interval.

1. `calm_pollOnce`: a poll makes no call after a ban.
2. `respected_iff`: the bans that the loop sits out.
-/

namespace Gridlens

open Effects Effects.Program Pauses

/-- `sleep`, `interval` and `retry_after` are in seconds: rationals, or infinity. -/
abbrev Seconds := WithTop ℚ

/-! ## The loop -/

/-- The arguments of `run`, and the schema id it registers. -/
structure RunArgs where
  once : Bool
  interval : Seconds
  schemaId : Int

/-- Where the loop is: about to poll, in its wait, or left. -/
inductive Place where
  | top
  | waiting (waited : Nat)
  | left (result : Py Unit)

structure LoopState where
  place : Place
  stopping : Bool
  /-- What the polls have done. -/
  history : Trace
  /-- The calls of the source, and the sleeps. -/
  beats : List (Beat Seconds)

/-- The outside during a poll, and the `retry_after` of its exceptions. -/
structure World where
  outside : Outside
  retryAfter : PyError → Seconds

/-- A call of the source, with the ban it is answered with. -/
def sourceCall (retryAfter : PyError → Seconds) : Effect → Option (Beat Seconds)
  | .fetched _ _ _ (.ok _) => some (.called none)
  | .fetched _ _ _ (.error error) =>
      some (.called (if error.kind = .RateLimited then some (retryAfter error) else none))
  | _ => none

/-- The calls of the source in a poll. -/
def sourceCalls (retryAfter : PyError → Seconds) (es : Trace) : List (Beat Seconds) :=
  es.filterMap (sourceCall retryAfter)

/-- The poll, and what follows it. -/
def LoopState.poll (args : RunArgs) (world : World) (s : LoopState) : LoopState :=
  let pollArgs : PollArgs := ⟨args.schemaId, world.outside.now s.history, .FR, PARIS⟩
  let polled := pollOnce pollArgs world.outside s.history
  { s with
    -- an exception is logged, and raised again only with `once`
    place := if args.once then .left (polled.1.map fun _ => ()) else .waiting 0
    history := s.history ++ polled.2
    beats := s.beats ++ sourceCalls world.retryAfter polled.2 }

/-- The loop goes on. -/
def LoopState.turn (args : RunArgs) (world : World) (s : LoopState) : LoopState :=
  match s.place with
  | .top => if s.stopping then { s with place := .left (.ok ()) } else s.poll args world
  | .waiting waited =>
      if (waited : Seconds) < args.interval ∧ s.stopping = false then
        { s with place := .waiting (waited + 1), beats := s.beats ++ [.waited] }
      else { s with place := .top }
  | .left _ => s

/-- What happens next: a signal comes in, or the loop goes on. -/
inductive LoopEvent where
  | signal
  | turn (world : World)

def LoopState.step (args : RunArgs) (s : LoopState) : LoopEvent → LoopState
  | .signal => { s with stopping := true }
  | .turn world => s.turn args world

/-- `run`, as far as it got. -/
def producerRun (args : RunArgs) (events : List LoopEvent) : LoopState :=
  events.foldl (LoopState.step args) ⟨.top, false, [], []⟩

/-! ## The calls of one poll -/

section Poll

variable {o : Outside} {h : Trace} {retryAfter : PyError → Seconds} {α : Type}

/-- No call but the last one is answered with a ban, and that one only where
the poll raises. -/
def Calm (retryAfter : PyError → Seconds) (r : Except PyError α) (es : Trace) : Prop :=
  (∀ beat ∈ (sourceCalls retryAfter es).dropLast, beat = .called none) ∧
    ∀ a, r = .ok a → ∀ beat ∈ sourceCalls retryAfter es, beat = .called none

/-- The effect is no call of the source. -/
abbrev NoCall (retryAfter : PyError → Seconds) (e : Effect) : Prop := sourceCall retryAfter e = none

theorem sourceCalls_append (es fs : Trace) :
    sourceCalls retryAfter (es ++ fs) = sourceCalls retryAfter es ++ sourceCalls retryAfter fs :=
  List.filterMap_append

theorem sourceCalls_eq_nil {es : Trace} (hes : ∀ e ∈ es, NoCall retryAfter e) :
    sourceCalls retryAfter es = [] :=
  List.filterMap_eq_nil_iff.mpr hes

/-- Calls without a ban may come first. -/
theorem Calm.append {es fs : Trace} {r : Except PyError α}
    (hes : ∀ beat ∈ sourceCalls retryAfter es, beat = .called none)
    (hfs : Calm retryAfter r fs) : Calm retryAfter r (es ++ fs) := by
  unfold Calm
  rw [sourceCalls_append]
  refine ⟨fun beat hbeat => ?_, fun a ha beat hbeat => ?_⟩
  · by_cases hnil : sourceCalls retryAfter fs = []
    · rw [hnil, List.append_nil] at hbeat
      exact hes beat (List.mem_of_mem_dropLast hbeat)
    · rw [List.dropLast_append_of_ne_nil hnil] at hbeat
      rcases List.mem_append.mp hbeat with hfront | hback
      · exact hes beat hfront
      · exact hfs.1 beat hback
  · rcases List.mem_append.mp hbeat with hfront | hback
    · exact hes beat hfront
    · exact hfs.2 a ha beat hback

theorem calm_of_noCall {r : Except PyError α} {es : Trace} (hes : ∀ e ∈ es, NoCall retryAfter e) :
    Calm retryAfter r es := by
  unfold Calm
  rw [sourceCalls_eq_nil hes]
  exact ⟨fun _ hbeat => absurd hbeat List.not_mem_nil,
    fun _ _ _ hbeat => absurd hbeat List.not_mem_nil⟩

/-- One call is calm, unless it is answered with a ban and returns all the same. -/
theorem calm_of_one {r : Except PyError α} {es : Trace} {demand : Option Seconds}
    (hone : sourceCalls retryAfter es = [.called demand])
    (hdemand : ∀ a, r = .ok a → demand = none) : Calm retryAfter r es := by
  unfold Calm
  rw [hone]
  refine ⟨fun beat hbeat => absurd hbeat List.not_mem_nil, fun a ha beat hbeat => ?_⟩
  rw [List.mem_singleton.mp hbeat, hdemand a ha]

/-- A fetch is one call, and one that returns is answered without a ban. -/
theorem calm_actualGenerationPerType {code : String} {start stop : Instant} :
    Ends o (actualGenerationPerType code start stop) (Calm retryAfter) h := by
  unfold actualGenerationPerType fetch
  rw [ends_bind, ends_act]
  simp only
  cases hanswer : o.fetch h code start stop with
  | ok fetched =>
      rw [ends_pure]
      exact calm_of_one rfl fun _ _ => rfl
  | error error =>
      simp only
      split_ifs with hkind
      · -- no data is no ban
        have hnone : error.kind ≠ .RateLimited := by
          rw [hkind]
          decide
        rw [ends_pure]
        exact calm_of_one rfl fun _ _ => if_neg hnone
      · rw [ends_lift]
        exact calm_of_one rfl fun a ha => nomatch ha

/-- What `poll_once` does besides is no call. -/
theorem noCall_produce {d : Delivery} {message : Message} :
    Leaves (NoCall retryAfter) (produce d message) :=
  leaves_act.mpr fun _ _ => rfl

theorem noCall_servePoll {d : Delivery} : Leaves (NoCall retryAfter) (servePoll d) := by
  intro o h e he
  rcases List.mem_map.mp he with ⟨report, -, rfl⟩
  rfl

theorem noCall_publish {args : PollArgs} {d : Delivery} {record : GenerationRecord} :
    Leaves (NoCall retryAfter) (publish args d record) :=
  leaves_bind leaves_ask fun _ => leaves_bind leaves_lift fun _ =>
    leaves_bind noCall_produce fun _ => noCall_servePoll

theorem noCall_pollFlush {args : PollArgs} {s : PollState} :
    Leaves (NoCall retryAfter) (pollFlush args s) := by
  refine leaves_bind (leaves_bind noCall_servePoll fun _ => leaves_bind leaves_ask fun _ =>
    leaves_pure) fun ⟨d, unsent⟩ => ?_
  show Leaves _ (if unsent ≠ 0 ∨ d.failures ≠ [] then _ else _)
  split_ifs
  · exact leaves_lift
  · exact leaves_pure

/-- A program without a call may come last. -/
theorem ends_of_noCall {x : Job α} (hx : Leaves (NoCall retryAfter) x) {es : Trace}
    (hes : ∀ beat ∈ sourceCalls retryAfter es, beat = .called none) :
    Ends o x (fun r es' => Calm retryAfter r (es ++ es')) h :=
  Calm.append hes (calm_of_noCall (hx o h))

theorem calm_pollDay (args : PollArgs) (s : PollState) (day : Date) :
    Ends o (pollDay args s day) (Calm retryAfter) h := by
  unfold pollDay
  refine ends_bind_silent leaves_lift (fun _ => calm_of_noCall fun _ he => nomatch he)
    fun bounds => ?_
  have hfetch : Ends o (actualGenerationPerType args.zone.value bounds.1 bounds.2)
      (Calm retryAfter) h := calm_actualGenerationPerType
  rw [ends_bind]
  refine hfetch.mono fun r es hes => ?_
  cases r with
  | error error => exact ⟨hes.1, fun a ha => nomatch ha⟩
  | ok found =>
      refine ends_of_noCall ?_ (hes.2 found rfl)
      split
      · exact leaves_pure
      · exact leaves_bind leaves_gate fun result =>
          leaves_bind (leaves_foldlM (fun _ _ => noCall_publish) _ _) fun _ =>
            leaves_bind (leaves_foldlM (fun _ _ => noCall_produce) _ _) fun _ => leaves_pure

/-- The days before one that raises were answered without a ban. -/
theorem calm_days (args : PollArgs) (days : List Date) (s : PollState) :
    Ends o (days.foldlM (pollDay args) s) (Calm retryAfter) h := by
  have hloop := ends_foldlM (o := o) (h := h) (g := pollDay args) (l := days) (s := s)
    (I := fun _ es => ∀ beat ∈ sourceCalls retryAfter es, beat = .called none)
    (J := fun es => ∀ beat ∈ (sourceCalls retryAfter es).dropLast, beat = .called none)
    ?_ fun beat hbeat => absurd hbeat List.not_mem_nil
  · refine hloop.mono fun r es hes => ?_
    cases r with
    | error error => exact ⟨hes, fun a ha => nomatch ha⟩
    | ok s' => exact ⟨fun beat hbeat => hes beat (List.mem_of_mem_dropLast hbeat), fun _ _ => hes⟩
  · intro done day _ s es hes
    have hday : Ends o (pollDay args s day) (Calm retryAfter) (h ++ es) := calm_pollDay args s day
    refine hday.mono fun r es' hes' => ?_
    cases r with
    | error error => exact (Calm.append hes hes').1
    | ok s' => exact (Calm.append hes hes').2 s' rfl

/-- After a ban the poll makes no further call, on neither of its days. -/
theorem calm_pollOnce (args : PollArgs) : Ends o (pollOnce args) (Calm retryAfter) h := by
  rw [pollOnce_eq]
  unfold pollDays
  rw [bind_assoc]
  refine ends_bind_silent leaves_lift (fun _ => calm_of_noCall fun _ he => nomatch he)
    fun days => ?_
  have hdays : Ends o (days.foldlM (pollDay args) ⟨⟨[], []⟩, 0, 0, [], []⟩) (Calm retryAfter) h :=
    calm_days args days _
  rw [ends_bind]
  refine hdays.mono fun r es hes => ?_
  cases r with
  | error error => exact ⟨hes.1, fun a ha => nomatch ha⟩
  | ok s => exact ends_of_noCall noCall_pollFlush (hes.2 s rfl)

/-- A call is all a beat of a poll can be. -/
theorem called_of_mem {es : Trace} {beat : Beat Seconds}
    (hbeat : beat ∈ sourceCalls retryAfter es) : ∃ demand, beat = .called demand := by
  rcases List.mem_filterMap.mp hbeat with ⟨e, -, he⟩
  unfold sourceCall at he
  split at he
  · exact ⟨_, (Option.some.inj he).symm⟩
  · exact ⟨_, (Option.some.inj he).symm⟩
  · cases he

end Poll

/-! ## The bans that are sat out -/

/-- A ban is over by the end of the wait: no whole number of seconds short of
it ends the wait. -/
def SatOut (args : RunArgs) (retryAfter : Seconds) : Prop :=
  ∀ n : Nat, (n : Seconds) < retryAfter → (n : Seconds) < args.interval

/-- What the loop keeps: at the top the bans are over, unless it is about to
end, and in the wait so many seconds have passed since every call. -/
structure Paced (args : RunArgs) (s : LoopState) : Prop where
  respected : Respected s.beats
  top : s.place = .top → s.stopping = true ∨ Over s.beats
  waiting : ∀ n, s.place = .waiting n → args.once = false ∧ Since n s.beats

section Run

variable {args : RunArgs} {s : LoopState} {event : LoopEvent} {world : World}

/-- What was done stays done. -/
theorem beats_prefix_step (s : LoopState) (event : LoopEvent) :
    s.beats <+: (s.step args event).beats := by
  cases event with
  | signal => exact List.prefix_refl _
  | turn world =>
      show s.beats <+: (s.turn args world).beats
      unfold LoopState.turn
      split
      · split_ifs
        · exact List.prefix_refl _
        · exact List.prefix_append _ _
      · split_ifs
        · exact List.prefix_append _ _
        · exact List.prefix_refl _
      · exact List.prefix_refl _

/-- A poll, with the bans over. -/
theorem Paced.poll (h : Paced args s) (hover : Over s.beats) : Paced args (s.poll args world) := by
  have hcalm : Calm world.retryAfter _ _ := calm_pollOnce
    ⟨args.schemaId, world.outside.now s.history, .FR, PARIS⟩ (o := world.outside) (h := s.history)
  refine ⟨h.respected.append hover (fun beat => called_of_mem) hcalm.1, ?_, ?_⟩
  · intro htop
    unfold LoopState.poll at htop
    simp only at htop
    split_ifs at htop
  · intro n hwaiting
    unfold LoopState.poll at hwaiting
    simp only at hwaiting
    split_ifs at hwaiting with honce
    cases hwaiting
    exact ⟨Bool.eq_false_of_not_eq_true honce, since_zero⟩

/-- The bans a wait covers are over at its end. -/
theorem over_of_waited {n : Nat} (hsince : Since n s.beats) (hend : ¬ (n : Seconds) < args.interval)
    (hcovers : ∀ r, .called (some r) ∈ s.beats → SatOut args r) : Over s.beats := by
  refine hsince.over fun r hr => ?_
  by_contra hlt
  exact hend (hcovers r hr n (not_le.mp hlt))

/-- One step keeps the pace, where the bans so far are covered. -/
theorem Paced.step (h : Paced args s)
    (hcovers : args.once = true ∨ ∀ r, .called (some r) ∈ s.beats → SatOut args r) :
    Paced args (s.step args event) := by
  cases event with
  | signal => exact ⟨h.respected, fun _ => Or.inl rfl, h.waiting⟩
  | turn world =>
      show Paced args (s.turn args world)
      unfold LoopState.turn
      split
      · rename_i htop
        split_ifs with hstopping
        · exact ⟨h.respected, fun hplace => (nomatch hplace), fun n hplace => (nomatch hplace)⟩
        · rcases h.top htop with hstop | hover
          · exact absurd hstop hstopping
          · exact h.poll hover
      · rename_i waited hwaiting
        rcases h.waiting waited hwaiting with ⟨honce, hsince⟩
        split_ifs with hwait
        · -- another second
          refine ⟨respected_concat_waited.mpr h.respected, fun hplace => (nomatch hplace), ?_⟩
          rintro n ⟨⟩
          exact ⟨honce, hsince.concat_waited⟩
        · refine ⟨h.respected, fun _ => ?_, fun n hplace => (nomatch hplace)⟩
          -- the wait is over, or it was cut short by a signal, and then there is no poll
          by_cases hstopping : s.stopping = true
          · exact Or.inl hstopping
          · have hend : ¬ (waited : Seconds) < args.interval := fun hlt =>
              hwait ⟨hlt, Bool.eq_false_of_not_eq_true hstopping⟩
            rcases hcovers with hone | hall
            · rw [honce] at hone
              cases hone
            · exact Or.inr (over_of_waited hsince hend hall)
      · exact h

theorem producerRun_concat (args : RunArgs) (events : List LoopEvent) (event : LoopEvent) :
    producerRun args (events ++ [event]) = (producerRun args events).step args event := by
  unfold producerRun
  rw [List.foldl_concat]

/-- A run keeps the pace, where its bans are covered. -/
theorem paced_producerRun (events : List LoopEvent) (hcovers : args.once = true ∨
    ∀ r, .called (some r) ∈ (producerRun args events).beats → SatOut args r) :
    Paced args (producerRun args events) := by
  induction events using List.reverseRecOn with
  | nil =>
      refine ⟨respected_nil, fun _ => Or.inr ?_, fun n hplace => (nomatch hplace)⟩
      intro before r between hnil
      simp [producerRun] at hnil
  | append_singleton events event ih =>
      rw [producerRun_concat] at hcovers ⊢
      have hbefore : args.once = true ∨
          ∀ r, .called (some r) ∈ (producerRun args events).beats → SatOut args r := by
        refine hcovers.imp_right fun hall r hr => ?_
        exact hall r ((beats_prefix_step _ _).subset hr)
      exact (ih hbefore).step hbefore

end Run

/-! ## A ban that is not sat out -/

/-- A ban of an hour. -/
def limited : PyError where
  kind := .RateLimited
  message := [.text "rate limited, do not retry for ", .str "3600", .text "s"]

/-- Every call is answered with a ban, of this length. -/
def limitedWorld (retryAfter : Seconds) : World where
  outside := { smallOutside ["100"] with fetch := fun _ _ _ _ => .error limited }
  retryAfter _ := retryAfter

theorem daysToPoll_morning : daysToPoll morning PARIS = .ok [⟨739855, by decide⟩] := by
  decide +kernel

/-- A poll makes its call, and raises. -/
theorem sourceCalls_limitedWorld (schemaId : Int) (retryAfter : Seconds) (h : Trace) :
    sourceCalls (limitedWorld retryAfter).retryAfter (pollOnce ⟨schemaId, morning, .FR, PARIS⟩
      (limitedWorld retryAfter).outside h).2 = [.called (some retryAfter)] := by
  have hexists : ∃ window, settlementDay ⟨739855, by decide⟩ PARIS = .ok window :=
    exists_settlementDay (by decide) (by decide)
  rcases hexists with ⟨window, hwindow⟩
  have hday : ∀ (s : PollState) (h' : Trace),
      pollDay ⟨schemaId, morning, .FR, PARIS⟩ s ⟨739855, by decide⟩
        (limitedWorld retryAfter).outside h' = (.error limited,
          [.fetched BiddingZone.FR.value window.1 window.2 (.error limited)]) := by
    intro s h'
    unfold pollDay
    rw [hwindow, lift_ok_bind]
    exact bind_of_error rfl
  unfold pollOnce
  rw [daysToPoll_morning, lift_ok_bind, List.foldlM_cons,
    bind_of_error (bind_of_error (hday _ _))]
  rfl

/-- What the loop does in that world, turn after turn. -/
def limitedRun (args : RunArgs) (retryAfter : Seconds) (turns : Nat) : LoopState :=
  producerRun args (List.replicate turns (.turn (limitedWorld retryAfter)))

section Limited

variable {args : RunArgs} {retryAfter : Seconds} {n : Nat}

theorem limitedRun_succ : limitedRun args retryAfter (n + 1) =
    (limitedRun args retryAfter n).turn args (limitedWorld retryAfter) := by
  unfold limitedRun
  rw [List.replicate_succ', producerRun_concat]
  rfl

theorem poll_limitedWorld (s : LoopState) :
    (s.poll args (limitedWorld retryAfter)).beats = s.beats ++ [.called (some retryAfter)] :=
  congrArg (s.beats ++ ·) (sourceCalls_limitedWorld args.schemaId retryAfter s.history)

/-- The wait, second by second. -/
theorem limitedRun_waits (honce : args.once = false)
    (hwait : ∀ k < n, (k : Seconds) < args.interval) :
    (limitedRun args retryAfter (n + 1)).place = .waiting n ∧
      (limitedRun args retryAfter (n + 1)).stopping = false ∧
      (limitedRun args retryAfter (n + 1)).beats =
        .called (some retryAfter) :: List.replicate n .waited := by
  induction n with
  | zero =>
      rw [limitedRun_succ]
      refine ⟨?_, rfl, poll_limitedWorld _⟩
      show (if args.once = true then _ else Place.waiting 0) = .waiting 0
      rw [honce]
      rfl
  | succ n ih =>
      rcases ih fun k hk => hwait k (hk.trans (Nat.lt_succ_self n)) with ⟨hplace, hstopping, hbeats⟩
      rw [limitedRun_succ]
      unfold LoopState.turn
      rw [hplace]
      simp only
      rw [if_pos ⟨hwait n (Nat.lt_succ_self n), hstopping⟩]
      refine ⟨rfl, hstopping, ?_⟩
      simp only
      rw [hbeats, List.cons_append, ← List.replicate_succ']

/-- The interval over, the source is called again. -/
theorem limitedRun_calls (honce : args.once = false)
    (hwait : ∀ k < n, (k : Seconds) < args.interval) (hend : ¬ (n : Seconds) < args.interval) :
    (limitedRun args retryAfter (n + 3)).beats =
      [] ++ .called (some retryAfter) :: List.replicate n .waited ++
        [.called (some retryAfter)] := by
  rcases @limitedRun_waits args retryAfter n honce hwait with ⟨hplace, hstopping, hbeats⟩
  have htop : limitedRun args retryAfter (n + 2) =
      { limitedRun args retryAfter (n + 1) with place := .top } := by
    rw [limitedRun_succ]
    unfold LoopState.turn
    rw [hplace]
    exact if_neg fun hgo => hend hgo.1
  have hcall : limitedRun args retryAfter (n + 3) =
      (limitedRun args retryAfter (n + 2)).poll args (limitedWorld retryAfter) := by
    rw [limitedRun_succ, htop]
    unfold LoopState.turn
    simp only
    rw [hstopping]
    rfl
  rw [hcall, poll_limitedWorld, htop]
  simp only
  rw [hbeats, List.nil_append]

/-- A ban longer than the wait is broken. -/
theorem not_respected_limitedRun (honce : args.once = false)
    (hwait : ∀ k < n, (k : Seconds) < args.interval) (hend : ¬ (n : Seconds) < args.interval)
    (hlonger : (n : Seconds) < retryAfter) :
    ¬ Respected (limitedRun args retryAfter (n + 3)).beats := by
  intro hrespected
  rw [limitedRun_calls honce hwait hend] at hrespected
  have hle := hrespected [] retryAfter (List.replicate n .waited) (some retryAfter)
    (List.prefix_refl _)
  rw [List.countP_replicate] at hle
  exact absurd hlonger (not_lt.mpr hle)

end Limited

/-- The loop sits out its bans, in every run and as far as it gets, exactly
where it polls once or every ban that is announced is covered by the interval,
in whole seconds. -/
theorem respected_iff (args : RunArgs) (announced : Seconds → Prop) :
    (∀ events, (∀ r, .called (some r) ∈ (producerRun args events).beats → announced r) →
        Respected (producerRun args events).beats) ↔
      args.once = true ∨ ∀ r, announced r → SatOut args r := by
  constructor
  · intro hall
    by_contra hnot
    rw [not_or, Bool.not_eq_true] at hnot
    rcases hnot with ⟨honce, hnot⟩
    refine hnot fun r hr k hk => ?_
    by_contra hover
    -- the first second at which the wait is over
    have hexists : ∃ n : Nat, ¬ (n : Seconds) < args.interval := ⟨k, hover⟩
    have hwait : ∀ m < Nat.find hexists, (m : Seconds) < args.interval := fun m hm =>
      not_not.mp (Nat.find_min hexists hm)
    have hend := Nat.find_spec hexists
    have hle : (Nat.find hexists : Seconds) ≤ k := Nat.mono_cast (Nat.find_min' hexists hover)
    refine not_respected_limitedRun honce hwait hend (hle.trans_lt hk) (hall _ fun r' hr' => ?_)
    have hbeats := @limitedRun_calls args r _ honce hwait hend
    unfold limitedRun at hbeats
    rw [hbeats] at hr'
    have hsame : r' = r := by simpa using hr'
    rw [hsame]
    exact hr
  · intro hcovers events hannounced
    refine (paced_producerRun events (hcovers.imp_right fun hall r hr => ?_)).respected
    exact hall r (hannounced r hr)

/-- An hour's ban, and the default interval of a quarter of an hour: the source
is called again after 900 seconds. -/
theorem hour_ban_broken : ¬ Respected (limitedRun ⟨false, 900, 1⟩ 3600 903).beats := by
  refine not_respected_limitedRun (n := 900) rfl (fun k hk => ?_) ?_ ?_
  · show (k : Seconds) < 900
    exact_mod_cast hk
  · exact lt_irrefl _
  · show ((900 : Nat) : Seconds) < 3600
    exact_mod_cast (by decide : 900 < 3600)

end Gridlens
