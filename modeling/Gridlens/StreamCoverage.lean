import Gridlens.Repeats
import Gridlens.SettlementDays

/-!
# Every day is seen to its end

The last periods of a day are published after midnight, so `days_to_poll` keeps
yesterday in the poll until `YESTERDAY_UNTIL_HOUR`, by the clock in Paris. Three
hours on that clock are two in the night it goes forward (`two_hours`), and two
hours are what the polls may be apart, with the lag of the source taken off.

1. `topics_repeat`: what every poll of a run asks for, and puts on the topics.
2. `stream_covers`: a day that ends between two polls is asked for again after
   its end, and everything the source then says of it is on the topics.
-/

namespace Gridlens

open Effects Effects.Program

/-! ## The days of a poll -/

/-- Three o'clock in Paris, in UTC. -/
def parisThree (ordinal : Int) : Int :=
  ordinal * DAY + YESTERDAY_UNTIL_HOUR * HOUR - parisOffset (ordinal * DAY + HOUR)

/-- The day has begun, and it is not yet three o'clock on the next one. -/
def InPlay (now : Instant) (day : Date) : Prop :=
  parisMidnight day.ordinal ≤ now.micros ∧ now.micros < parisThree (day.ordinal + 1)

/-- The wall clock is short of three exactly before that instant. -/
theorem lt_parisThree_iff (n u : Int) :
    u < parisThree n ↔ u + parisOffset u < n * DAY + YESTERDAY_UNTIL_HOUR * HOUR := by
  unfold parisThree
  have hu := parisOffset_cases u
  have hn := parisOffset_cases (n * DAY + HOUR)
  by_cases hsame : (u - HOUR) / DAY = (n * DAY + HOUR - HOUR) / DAY
  · -- from one in the morning UTC on, for a day, the two offsets are one
    rw [parisOffset_congr hsame]
    omega
  · generalize parisOffset u = ou at *
    generalize parisOffset (n * DAY + HOUR) = on at *
    rw [YESTERDAY_UNTIL_HOUR, HOUR_eq, DAY_eq] at *
    omega

/-- The clocks are changed at one in the morning UTC: two hours at least are
left from midnight to three. -/
theorem two_hours (n : Int) : parisMidnight n + 2 * HOUR ≤ parisThree n := by
  have hmidnight := parisOffset_cases (n * DAY - 2 * HOUR)
  have hthree := parisOffset_cases (n * DAY + HOUR)
  unfold parisMidnight parisThree
  rw [YESTERDAY_UNTIL_HOUR, HOUR_eq, DAY_eq] at *
  omega

/-- `days_to_poll` in Paris. -/
theorem mem_daysToPoll {now : Instant} {days : List Date} (h : daysToPoll now PARIS = .ok days)
    (day : Date) : day ∈ days ↔ InPlay now day := by
  simp only [daysToPoll, bind_eq_ok] at h
  rcases h with ⟨local_, hlocal, today, htoday, hdays⟩
  have hwall : local_.micros = now.micros + parisOffset now.micros := Instant.ofMicros_ok hlocal
  have htoday : today.ordinal = local_.micros / DAY := Date.ofOrdinal_ok htoday
  have hdate : today.ordinal = parisDate now.micros := by
    rw [htoday, hwall]
    rfl
  -- a day in play is today, or yesterday before three
  have hplay : InPlay now day ↔ day.ordinal = today.ordinal ∨
      (day.ordinal = today.ordinal - 1 ∧
        local_.micros % DAY / HOUR < YESTERDAY_UNTIL_HOUR) := by
    unfold InPlay
    rw [start_le_iff_le_parisDate, lt_parisThree_iff, ← hwall, ← hdate, htoday,
      YESTERDAY_UNTIL_HOUR, HOUR_eq, DAY_eq]
    omega
  rw [hplay]
  split_ifs at hdays with hearly
  · rcases bind_eq_ok.mp hdays with ⟨yesterday, hyesterday, hlist⟩
    have hordinal : yesterday.ordinal = today.ordinal + -1 := Date.ofOrdinal_ok hyesterday
    cases hlist
    simp only [List.mem_cons, List.not_mem_nil, or_false, date_eq_iff, hordinal, hearly, and_true]
    omega
  · cases hdays
    simp only [List.mem_singleton, date_eq_iff, hearly, and_false, or_false]

/-! ## The pace -/

section Pace

variable {α : Type} {clock : α → Int} {bound pace : Int} {first last : α} {l : List α}

/-- A sequence in steps of at most `pace`, from below a bound to it or above:
the first member that is not below it is less than `pace` away. -/
theorem exists_crossing_from (hl : (first :: l).IsChain fun a b => clock b ≤ clock a + pace)
    (hfirst : clock first < bound) (hmem : last ∈ l) (hlast : bound ≤ clock last) :
    ∃ a ∈ l, bound ≤ clock a ∧ clock a < bound + pace := by
  induction l generalizing first with
  | nil => cases hmem
  | cons a l ih =>
      rw [List.isChain_cons_cons] at hl
      by_cases ha : bound ≤ clock a
      · exact ⟨a, List.mem_cons_self, ha, by omega⟩
      · rcases List.mem_cons.mp hmem with rfl | hmem
        · exact absurd hlast ha
        · rcases ih hl.2 (not_le.mp ha) hmem with ⟨b, hb, hbound⟩
          exact ⟨b, List.mem_cons_of_mem a hb, hbound⟩

theorem exists_crossing (hl : l.IsChain fun a b => clock b ≤ clock a + pace)
    (hsub : [first, last].Sublist l) (hfirst : clock first < bound) (hlast : bound ≤ clock last) :
    ∃ a ∈ l, bound ≤ clock a ∧ clock a < bound + pace := by
  induction l with
  | nil => cases hsub
  | cons a l ih =>
      cases hsub with
      | cons _ hsub =>
          rcases ih hl.tail hsub with ⟨b, hb, hbound⟩
          exact ⟨b, List.mem_cons_of_mem a hb, hbound⟩
      | cons_cons _ hsub =>
          rcases exists_crossing_from hl hfirst (List.singleton_sublist.mp hsub) hlast with
            ⟨b, hb, hbound⟩
          exact ⟨b, List.mem_cons_of_mem _ hb, hbound⟩

end Pace

/-! ## Every poll -/

section Polls

variable {args : RunArgs} {events : List LoopEvent} {p : RunPoll} {day : Date}
  {request : String × Instant × Instant} {o : Outside} {schemaId : Int} {es : Trace}

theorem requestOf_run (h : requestOf (p.pollArgs args) day = .ok request) :
    request.1 = BiddingZone.FR.value ∧ settlementDay day PARIS = .ok request.2 := by
  unfold requestOf at h
  cases hbounds : settlementDay day (p.pollArgs args).zoneTz with
  | error error =>
      rw [hbounds] at h
      cases h
  | ok bounds =>
      rw [hbounds] at h
      cases h
      exact ⟨rfl, hbounds⟩

/-- However a poll of a run ends. -/
theorem begun_poll (p : RunPoll) (args : RunArgs) :
    Begun p.world.outside args.schemaId (p.effects args) ∧ ∀ request ∈ asked (p.effects args),
      request.1 = BiddingZone.FR.value ∧
        ∃ day, InPlay p.now day ∧ settlementDay day PARIS = .ok request.2 := by
  rcases ends_pollOnce_said (o := p.world.outside) (h := p.before) (p.pollArgs args) with
    ⟨hbegun, hasked, -⟩
  refine ⟨hbegun, fun request hrequest => ?_⟩
  rcases hasked request hrequest with ⟨days, hdays, day, hday, hok⟩
  rcases requestOf_run hok with ⟨hzone, hwindow⟩
  exact ⟨hzone, day, (mem_daysToPoll hdays day).mp hday, hwindow⟩

/-- A poll of a run that returns. -/
theorem complete_poll (hp : p ∈ runPolls args events) (hret : p.returned args = true) :
    Complete p.world.outside args.schemaId (p.effects args) ∧
      (∀ day, InPlay p.now day → ∃ window, settlementDay day PARIS = .ok window ∧
        (BiddingZone.FR.value, window) ∈ asked (p.effects args)) ∧
      ∀ ticket ∈ (p.effects args).flatMap handed, .served ticket none ∈ p.effects args := by
  have hwell : Well p.before := well_before (s := ⟨.top, false, [], []⟩) trivial p hp
  rcases exists_returns hret with ⟨summary, hreturns⟩
  rcases ends_pollOnce_said (o := p.world.outside) (h := p.before) (p.pollArgs args) with
    ⟨-, -, hall⟩
  rcases hall summary (congrArg Prod.fst hreturns) with ⟨hcomplete, days, hdays, hforall⟩
  refine ⟨hcomplete, fun day hday => ?_, acknowledged_of_returns hwell hret⟩
  rcases exists_of_forall₂_ok hforall ((mem_daysToPoll hdays day).mpr hday) with
    ⟨request, hrequest, hok⟩
  rcases requestOf_run hok with ⟨hzone, hwindow⟩
  refine ⟨request.2, hwindow, ?_⟩
  rw [← hzone]
  exact hrequest

/-- The message is on its topic: it was handed over, and the broker has it. -/
def OnTopic (es : Trace) (message : Message) : Prop :=
  ∃ ticket, .produced ticket message (.ok ()) ∈ es ∧ .served ticket none ∈ es

/-- What was said is on its topic. -/
theorem Complete.onTopic (hes : Complete o schemaId es)
    (hack : ∀ ticket ∈ es.flatMap handed, .served ticket none ∈ es) {e : Effect} (he : e ∈ es)
    {m : Py Message} (hm : m ∈ said o schemaId e) :
    ∃ message, m = .ok message ∧ OnTopic es message := by
  have hover : m ∈ es.flatMap handedOver := by
    rw [hes.all]
    exact List.mem_flatMap.mpr ⟨e, he, hm⟩
  rcases List.mem_flatMap.mp hover with ⟨e', he', hm'⟩
  unfold handedOver at hm'
  split at hm'
  · rename_i ticket message answer
    refine ⟨message, List.mem_singleton.mp hm', ticket, he', hack ticket ?_⟩
    exact List.mem_flatMap.mpr ⟨_, he', List.mem_singleton_self ticket⟩
  · cases hm'

end Polls

/-- The polls of a run ask for the days in play, and hand over what the source
says of them: nothing else and in order, however the poll ends; and all of it
where the poll returns, which the broker then has. -/
theorem topics_repeat (args : RunArgs) (events : List LoopEvent) :
    (producerRun args events).history =
        (runPolls args events).flatMap (RunPoll.effects args) ∧
      ∀ p ∈ runPolls args events,
        (Begun p.world.outside args.schemaId (p.effects args) ∧
          ∀ request ∈ asked (p.effects args), request.1 = BiddingZone.FR.value ∧
            ∃ day, InPlay p.now day ∧ settlementDay day PARIS = .ok request.2) ∧
        (p.returned args = true →
          Complete p.world.outside args.schemaId (p.effects args) ∧
          (∀ day, InPlay p.now day → ∃ window, settlementDay day PARIS = .ok window ∧
            (BiddingZone.FR.value, window) ∈ asked (p.effects args)) ∧
          ∀ ticket ∈ (p.effects args).flatMap handed, .served ticket none ∈ p.effects args) := by
  refine ⟨?_, fun p hp => ⟨begun_poll p args, fun hret => complete_poll hp hret⟩⟩
  exact (history_run events _).trans (List.nil_append _)

/-! ## Every day -/

/-- The source was asked for the window, and everything it said of it is on
the topics: every row the gate accepts, as it is encoded, and every refusal. -/
def Told (o : Outside) (schemaId : Int) (window : Instant × Instant) (es : Trace) : Prop :=
  ∃ answer, .fetched BiddingZone.FR.value window.1 window.2 answer ∈ es ∧
    ((∃ error, answer = .error error ∧ error.kind = .EntsoeNoData) ∨
      ∃ fetched result, answer = .ok fetched ∧
        o.gate fetched.body fetched.fetchedAt.toSecond.toDateTime = .ok result ∧
        (∀ record ∈ result.records, ∃ message,
          observationOf o schemaId record = .ok message ∧ OnTopic es message) ∧
        ∀ violation ∈ result.violations,
          OnTopic es (.refusal fetched.fetchedAt.toSecond violation))

theorem told_of_complete {o : Outside} {schemaId : Int} {window : Instant × Instant} {es : Trace}
    (hes : Complete o schemaId es) (hack : ∀ ticket ∈ es.flatMap handed, .served ticket none ∈ es)
    (hasked : (BiddingZone.FR.value, window) ∈ asked es) : Told o schemaId window es := by
  rcases List.mem_filterMap.mp hasked with ⟨e, he, hrequest⟩
  cases e with
  | fetched zone start stop answer =>
      cases hrequest
      refine ⟨answer, he, ?_⟩
      have hheard := hes.heard _ he
      cases answer with
      | error error => exact Or.inl ⟨error, rfl, hheard⟩
      | ok fetched =>
          refine Or.inr ?_
          cases hgate : o.gate fetched.body fetched.fetchedAt.toSecond.toDateTime with
          | error error =>
              simp only [Heard, hgate] at hheard
              cases hheard
          | ok result =>
              have hsaid : ∀ m ∈ result.records.map (observationOf o schemaId) ++
                  result.violations.map (fun violation =>
                    .ok (.refusal fetched.fetchedAt.toSecond violation)),
                  ∃ message, m = .ok message ∧ OnTopic es message := by
                intro m hm
                refine hes.onTopic hack he ?_
                simp only [said, hgate]
                exact hm
              refine ⟨fetched, result, rfl, hgate, fun record hrecord => ?_,
                fun violation hviolation => ?_⟩
              · exact hsaid _ (List.mem_append_left _ (List.mem_map_of_mem hrecord))
              · rcases hsaid _ (List.mem_append_right _ (List.mem_map_of_mem hviolation)) with
                  ⟨message, hmessage, htopic⟩
                cases hmessage
                exact htopic
  | _ => cases hrequest

/-- Where the polls that return are at most `pace` apart, every day whose end
plus the `lag` lies between two of them is asked for again within `pace` of that
moment, if the two together are at most two hours. What the source then says of
the day is on the topics, all of it. -/
theorem stream_covers (args : RunArgs) (events : List LoopEvent) {pace lag : Int}
    (hlag : 0 ≤ lag) (hhours : lag + pace ≤ 2 * HOUR)
    (hpace : ((runPolls args events).filter (RunPoll.returned args)).IsChain
      fun p q => q.now.micros ≤ p.now.micros + pace)
    {first last : RunPoll}
    (hbetween : [first, last].Sublist ((runPolls args events).filter (RunPoll.returned args)))
    {day : Date} {window : Instant × Instant} (hwindow : settlementDay day PARIS = .ok window)
    (hfirst : first.now.micros < window.2.micros + lag)
    (hlast : window.2.micros + lag ≤ last.now.micros) :
    ∃ p ∈ runPolls args events, p.returned args = true ∧
      window.2.micros + lag ≤ p.now.micros ∧ p.now.micros < window.2.micros + lag + pace ∧
        Told p.world.outside args.schemaId window (p.effects args) := by
  rcases exists_crossing hpace hbetween hfirst hlast with ⟨p, hmem, hafter, hsoon⟩
  rcases List.mem_filter.mp hmem with ⟨hp, hret⟩
  rcases complete_poll hp hret with ⟨hcomplete, hasked, hack⟩
  have hbounds := @settlementDay_paris _ window.1 window.2 hwindow
  -- so long after its end the day is in play
  have hplay : InPlay p.now day := by
    have htwo := two_hours (day.ordinal + 1)
    have hbegan := settlementDay_length hwindow
    unfold InPlay
    rw [hbounds.1, hbounds.2] at hbegan
    rw [hbounds.2] at hafter hsoon
    rw [HOUR_eq] at *
    omega
  rcases hasked day hplay with ⟨window', hwindow', hrequest⟩
  have hsame : window' = window := Except.ok.inj (hwindow'.symm.trans hwindow)
  rw [hsame] at hrequest
  exact ⟨p, hp, hret, hafter, hsoon, told_of_complete hcomplete hack hrequest⟩

/-- The outside of a poll at this instant, on 26 August 2026 or the night after. -/
def nightWorld (now : Instant) : World where
  outside := { smallOutside ["100"] with
    now := fun _ => now
    fetch := fun _ _ _ _ =>
      .ok ⟨(documentText ["100"]).toList.map fun c => UInt8.ofNat c.toNat, now, 200⟩ }
  retryAfter _ := 0

/-- Polls one after another, without a wait. -/
abbrev nightArgs : RunArgs := ⟨false, 0, 1⟩

/-- 21:00 and 22:30 UTC: half past midnight in Paris is an hour and a half on. -/
def evening : RunPoll := ⟨nightWorld (noonQuarters 36 (by decide)), []⟩

def midnight : RunPoll :=
  ⟨nightWorld (noonQuarters 42 (by decide)), evening.effects nightArgs⟩

def nightEvents : List LoopEvent := [.turn evening.world, .turn evening.world, .turn midnight.world]

theorem runPolls_night : runPolls nightArgs nightEvents = [evening, midnight] := by
  simp [runPolls, nightEvents, pollsFrom, LoopState.polls, LoopState.step, LoopState.turn,
    LoopState.poll, midnight, evening, RunPoll.effects, RunPoll.pollArgs, RunPoll.now]

theorem returned_evening : evening.returned nightArgs = true := by decide +kernel

theorem returned_midnight : midnight.returned nightArgs = true := by decide +kernel

/-- 26 August 2026, to 22:00 UTC. -/
abbrev lastWindow : Instant × Instant :=
  (⟨739854 * DAY - 2 * HOUR, by decide⟩, ⟨739855 * DAY - 2 * HOUR, by decide⟩)

/-- The day is asked for half an hour after its end. -/
theorem stream_covers_night : ∃ p ∈ runPolls nightArgs nightEvents, p.returned nightArgs = true ∧
    lastWindow.2.micros + 30 * MINUTE ≤ p.now.micros ∧
      p.now.micros < lastWindow.2.micros + 30 * MINUTE + 90 * MINUTE ∧
        Told p.world.outside nightArgs.schemaId lastWindow (p.effects nightArgs) := by
  have hpolls : (runPolls nightArgs nightEvents).filter (RunPoll.returned nightArgs) =
      [evening, midnight] := by
    rw [runPolls_night, List.filter_cons_of_pos returned_evening,
      List.filter_cons_of_pos returned_midnight, List.filter_nil]
  have hwindow : settlementDay ⟨739854, by decide⟩ PARIS = .ok lastWindow := by decide +kernel
  have hpace : ((runPolls nightArgs nightEvents).filter (RunPoll.returned nightArgs)).IsChain
      fun p q => q.now.micros ≤ p.now.micros + 90 * MINUTE := by
    rw [hpolls, List.isChain_pair]
    decide
  have hbetween : [evening, midnight].Sublist
      ((runPolls nightArgs nightEvents).filter (RunPoll.returned nightArgs)) := by
    rw [hpolls]
  exact @stream_covers nightArgs nightEvents (90 * MINUTE) (30 * MINUTE) (by decide) (by decide)
    hpace evening midnight hbetween _ lastWindow hwindow (by decide) (by decide)

end Gridlens
