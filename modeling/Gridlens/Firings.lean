import Gridlens.Compression
import Gridlens.LandingOrder
import Gridlens.RepairRun

/-!
# What is scheduled

Bronze is loaded by two schedules of `infra/terraform/core/lambda.tf` and one
dag: every morning in Paris the re-fetch of the 27 days before yesterday at
05:30, the ingest of yesterday at 06:30, and the gap filler at 08:00. A schedule
puts its own scheduled time into the payload, the same at every retry.

1. `firings_apart`: no attempt of a scheduled firing still runs when the next
   one is due.
2. `scheduled_bronze`: bronze is what one run for each firing leaves, whatever
   was retried, in the order of their `known_at`; so every read is right.
3. `delivered_reads`: as of the moment of a firing that went through, a read
   shows what the source said.
-/

namespace Gridlens

open Effects Bitemporal

/-! ## Firings -/

/-- What is scheduled. -/
inductive Command where
  | ingest
  /-- With the number of days in its payload. -/
  | refetch (count : Int)
  | fill

/-- One firing: when it is due, the settlement days it is for, and what its
attempts meet outside. The source says the same at each of them. -/
structure Firing where
  moment : Instant
  command : Command
  first : Date
  last : Date
  outside : Outside
  answer : Instant → Instant → Option Bytes
  tries : Nat

/-- What the scheduler writes for `<aws.scheduler.scheduled-time>`. -/
def scheduledTime (moment : Instant) : String := isoformatText moment.micros none ++ "Z"

/-- The payload. -/
def Firing.event (f : Firing) : Event :=
  match f.command with
  | .ingest => textEvent [("known_at", scheduledTime f.moment)]
  | .refetch count => fun name =>
      if name = "refetch_days" then some ⟨count ≠ 0, String.ofList (strInt count), .ok count⟩
      else textEvent [("known_at", scheduledTime f.moment)] name
  | .fill => payload f.moment (dateText f.first.ordinal) (dateText f.last.ordinal)

/-- The function it invokes. -/
def Firing.call (environ : Environ) (f : Firing) : Call :=
  match f.command with
  | .ingest => .ingest environ f.event
  | _ => .refetch environ f.event

/-- The trace after so many attempts. -/
def Firing.after (environ : Environ) (f : Firing) (h : Trace) (n : Nat) : Trace :=
  ((f.call environ).after f.outside)^[n] h

/-- Some attempt returned. -/
def Firing.Delivered (environ : Environ) (h : Trace) (f : Firing) : Prop :=
  ∃ n < f.tries,
    ((f.call environ).run f.outside (f.after environ h n ++ [.began])).1.isOk = true

/-- The trace of a sequence of firings, each after all attempts of the one before. -/
def fired (environ : Environ) (fs : List Firing) : Trace :=
  fs.foldl (fun h f => f.after environ h f.tries) []

/-! ## The timetable -/

/-- The time of day in Paris. -/
def Command.timeOfDay : Command → Int
  | .ingest => 6 * HOUR + 30 * MINUTE
  | .refetch _ => 5 * HOUR + 30 * MINUTE
  | .fill => 8 * HOUR

/-- How long after its moment an attempt of a schedule may run:
`maximum_event_age_in_seconds`, and the `timeout` of the function. -/
def Command.horizon : Command → Option Int
  | .ingest => some ((3600 + 120) * SECOND)
  | .refetch _ => some ((1800 + 900) * SECOND)
  | .fill => none

/-- The firing is due at the time of its command, and its attempts run within
the horizon of it. -/
structure Firing.OnTime (f : Firing) : Prop where
  due : (f.moment.micros + parisOffset f.moment.micros) % DAY = f.command.timeOfDay
  within : ∀ horizon ∈ f.command.horizon, ∀ h,
    f.moment.micros ≤ (f.outside.now h).micros ∧
      (f.outside.now h).micros ≤ f.moment.micros + horizon

/-- The days a firing is for, counted back from its date. -/
def Firing.CountsBack (f : Firing) : Prop :=
  match f.command with
  | .ingest => f.last.ordinal = parisDate f.moment.micros - 1 ∧ f.first = f.last
  | .refetch count => f.last.ordinal = parisDate f.moment.micros - 2 ∧
      f.first.ordinal = f.last.ordinal - (count - 1)
  | .fill => True

/-- A firing of the deployed functions: it is due on the timetable, for the days
counted back from its date, under their settings; the source answers all of its
attempts alike (`answers`); and no answer gives a key twice, or a row off the
day it is for (`orderly`). -/
structure Firing.Sound (environ : Environ) (zone : BiddingZone) (f : Firing) : Prop where
  onTime : f.OnTime
  countsBack : f.CountsBack
  deployed : Deployed f.outside environ zone
  lookback : env environ "GRIDLENS_LOOKBACK_DAYS" (some "1") >>= f.outside.readers.int = .ok 1
  answers : f.outside.Answers zone.value f.answer
  orderly : OrderlyDays f.outside f.moment.toDateTime f.answer (days f.first f.last)

section Timetable

variable {f f' : Firing} {c : Command} {horizon : Int}

theorem timeOfDay_cases (c : Command) : c.timeOfDay = 19800000000 ∨ c.timeOfDay = 23400000000 ∨
    c.timeOfDay = 28800000000 := by
  cases c with
  | ingest => exact Or.inr (Or.inl rfl)
  | refetch _ => exact Or.inl rfl
  | fill => exact Or.inr (Or.inr rfl)

/-- A horizon ends before the next time of day there is. -/
theorem horizon_cases (h : c.horizon = some horizon) :
    c.timeOfDay = 19800000000 ∧ horizon = 2700000000 ∨
      c.timeOfDay = 23400000000 ∧ horizon = 3720000000 := by
  cases c with
  | ingest => exact Or.inr ⟨rfl, (Option.some.inj h).symm⟩
  | refetch _ => exact Or.inl ⟨rfl, (Option.some.inj h).symm⟩
  | fill => cases h

/-- The moment of a firing, from its date. By then any changeover of that date
is past. -/
theorem moment_eq (h : f.OnTime) : f.moment.micros = parisDate f.moment.micros * DAY +
    f.command.timeOfDay - parisOffset (parisDate f.moment.micros * DAY + 2 * HOUR) := by
  have hdiv := Int.mul_ediv_add_emod (f.moment.micros + parisOffset f.moment.micros) DAY
  have htime := timeOfDay_cases f.command
  have hoffset := parisOffset_cases f.moment.micros
  rw [h.due, Int.mul_comm] at hdiv
  change parisDate f.moment.micros * DAY + _ = _ at hdiv
  have hsame : parisOffset f.moment.micros =
      parisOffset (parisDate f.moment.micros * DAY + 2 * HOUR) := by
    apply parisOffset_congr
    rw [DAY_eq, HOUR_eq] at *
    omega
  rw [← hsame]
  omega

/-- Every attempt of a schedule is over before the next firing is due, of
whichever schedule or dag. -/
theorem firings_apart (h : f.OnTime) (h' : f'.OnTime) (hlt : f.moment.micros < f'.moment.micros)
    (hhorizon : f.command.horizon = some horizon) (history : Trace) :
    (f.outside.now history).micros < f'.moment.micros := by
  have hwithin := (h.within horizon hhorizon history).2
  have hmoment := moment_eq h
  have hmoment' := moment_eq h'
  have htime := horizon_cases hhorizon
  have htime' := timeOfDay_cases f'.command
  by_cases hdate : parisDate f.moment.micros = parisDate f'.moment.micros
  · -- on one date the offset is the same
    rw [← hdate] at hmoment'
    omega
  · have hoffset := parisOffset_cases (parisDate f.moment.micros * DAY + 2 * HOUR)
    have hoffset' := parisOffset_cases (parisDate f'.moment.micros * DAY + 2 * HOUR)
    generalize parisOffset (parisDate f.moment.micros * DAY + 2 * HOUR) = offset at *
    generalize parisOffset (parisDate f'.moment.micros * DAY + 2 * HOUR) = offset' at *
    rw [DAY_eq, HOUR_eq] at *
    omega

end Timetable

/-! ## The payload, read back -/

section Payload

variable {o : Outside} {environ : Environ} {zone : BiddingZone} {f : Firing}

theorem replaceZ_append (s t : String) : replaceZ (s ++ t) = replaceZ s ++ replaceZ t := by
  unfold replaceZ
  rw [String.toList_append, List.flatMap_append, String.ofList_append]

theorem isoformatText_utc (wall : Int) :
    isoformatText wall (some 0) = isoformatText wall none ++ "+00:00" := by
  have hoffset : offsetText (some 0) = "+00:00" := by decide +kernel
  unfold isoformatText
  rw [hoffset, show offsetText none = "" from rfl, String.append_empty]

/-- A scheduled time is read as the moment it is. -/
theorem parseKnownAt_scheduledTime (hreads : ReadsIso o.readers) (moment now : Instant) :
    parseKnownAt o.readers (scheduledTime moment) now = .ok moment := by
  have hplain : 'Z' ∉ (isoformatText moment.micros none).toList := by
    intro hmem
    refine not_mem_isoformatText moment ?_
    rw [isoformatText_utc, String.toList_append]
    exact List.mem_append_left _ hmem
  have hreplaced : replaceZ (scheduledTime moment) = isoformatText moment.micros (some 0) := by
    rw [scheduledTime, replaceZ_append, replaceZ_eq_self hplain, isoformatText_utc]
    rfl
  have hsome : scheduledTime moment ≠ "" := by
    intro hempty
    have hlength := congrArg (fun text => text.toList.length) hempty
    simp [scheduledTime] at hlength
  unfold parseKnownAt
  rw [if_neg hsome, hreplaced, hreads.datetime, ok_bind]
  show Instant.ofMicros (moment.micros - 0) = _
  rw [Int.sub_zero]
  exact Instant.ofMicros_of_inRange moment.inRange

/-- A moment that is due is a whole second. -/
theorem wholeSecond_due (h : f.OnTime) : wholeSecond f.moment = f.moment := by
  have hmoment := moment_eq h
  have htime := timeOfDay_cases f.command
  have hoffset := parisOffset_cases (parisDate f.moment.micros * DAY + 2 * HOUR)
  have hsecond : f.moment.micros % SECOND = 0 := by
    generalize parisOffset (parisDate f.moment.micros * DAY + 2 * HOUR) = offset at *
    have hunit : SECOND = 1000000 := rfl
    rw [hunit]
    rw [DAY_eq] at hmoment
    rw [HOUR_eq] at hoffset
    omega
  unfold wholeSecond
  simp only [hsecond, Int.sub_zero]

/-- The `known_at` of every attempt is the moment. -/
theorem parseKnownAt_event (hsound : f.Sound environ zone) (now : Instant) :
    parseKnownAt f.outside.readers f.event.knownAt now = .ok f.moment := by
  have hreads := hsound.deployed.readers
  unfold Firing.event
  cases f.command with
  | ingest => exact parseKnownAt_scheduledTime hreads f.moment now
  | refetch count => exact parseKnownAt_scheduledTime hreads f.moment now
  | fill =>
      have hparsed := @parseKnownAt_payload f.outside f.moment hreads (dateText f.first.ordinal)
        (dateText f.last.ordinal) now
      rwa [wholeSecond_due hsound.onTime] at hparsed

end Payload

/-! ## What an attempt does to bronze -/

section Attempt

variable {o : Outside} {environ : Environ} {zone : BiddingZone} {event : Event}
  {answer : Instant → Instant → Option Bytes} {knownAt : Instant} {day : Date} {s : Store}
  {f : Firing} {h : Trace}

/-- The handler from a document on merges its rows, or raises with them merged
or not. -/
theorem ends_ingestFetched_merge {start stop : Instant} {fetched : FetchResult}
    (hdatabase : bronzeDatabase environ = "gridlens_bronze")
    (hknown : parseKnownAt o.readers event.knownAt fetched.fetchedAt = .ok knownAt) (s : Store) :
    Ends o (ingestFetched environ event zone day start stop fetched) (fun r es =>
      (s.after "gridlens_bronze" es).bronze = merge ⟨start.micros, stop.micros⟩
          (answerRows o knownAt.toDateTime (some fetched.body)) s.bronze ∨
        r.isOk = false ∧ (s.after "gridlens_bronze" es).bronze = s.bronze) h := by
  have hmerges : Ends o (ingestFetched environ event zone day start stop fetched) (fun _ es =>
      MergesAtMost "gridlens_bronze" ⟨start.micros, stop.micros⟩
        (answerRows o knownAt.toDateTime (some fetched.body)) es) h := by
    rw [ingestFetched_eq, ends_bind, ends_ask]
    simp only
    rw [ends_bind, ends_lift, hknown]
    simp only [List.nil_append, List.append_nil]
    have hnone : MergesAtMost "gridlens_bronze" ⟨start.micros, stop.micros⟩
        (answerRows o knownAt.toDateTime (some fetched.body)) [] := (quiet_nil _).mergesAtMost
    refine ends_bind_silent leaves_ask (fun _ => hnone) fun rawId =>
      ends_bind_silent leaves_lift (fun _ => hnone) fun rawBucket => ?_
    rw [ends_bind]
    refine (ends_putObject "gridlens_bronze").mono fun r es hput => ?_
    cases r with
    | error error => exact hput.mergesAtMost
    | ok _ =>
        exact (ends_ingestKept "gridlens_bronze").mono fun r es' hes' => hes'.after_quiet hput
  refine (hmerges.and_post post_ingestFetched_merge).mono fun r es hes => ?_
  rcases hes with ⟨hmerges, hreturned⟩
  cases r with
  | ok a =>
      have hmerged := (hreturned a rfl).2 s
      unfold requestedRows at hmerged
      rw [hdatabase, hknown] at hmerged
      exact Or.inl hmerged
  | error error =>
      have hmerged := hmerges s
      split at hmerged
      · exact Or.inl hmerged
      · exact Or.inr ⟨rfl, hmerged⟩

/-- An ingest goes over the day its clock comes to. -/
theorem ends_ingest_day (hdeployed : Deployed o environ zone)
    (hans : o.Answers zone.value answer)
    (hknown : ∀ now, parseKnownAt o.readers event.knownAt now = .ok knownAt)
    (hday : ∀ asked, requestedDay o environ event (o.now h) = .ok asked → asked = day)
    (s : Store) :
    Ends o (ingest environ event) (GoesOver o knownAt.toDateTime answer [day] s) h := by
  have hnothing : ∀ error : PyError, GoesOver o knownAt.toDateTime answer [day] s
      (.error error : Py IngestSummary) [] := fun error => GoesOver.nothing (quiet_nil _) error
  rcases bind_eq_ok.mp hdeployed.zoneTz with ⟨name, hname, hzoneTz⟩
  unfold ingest
  simp only [ends_bind (x := Program.lift _), ends_bind (x := Program.ask _), ends_lift, ends_ask,
    hdeployed.zone, hname, hzoneTz, List.append_nil]
  rw [ends_bind]
  have htarget : Ends o (targetDay environ event) (fun r es => es = [] ∧
      ∀ asked, r = .ok asked → asked = day) h := by
    have hsilent : (targetDay environ event o h).2 = [] :=
      List.eq_nil_iff_forall_not_mem.mpr (leaves_targetDay (P := fun _ => False) o h)
    exact ⟨hsilent, fun asked hasked =>
      hday asked (post_targetDay_requested asked _ (Prod.ext hasked rfl)).2⟩
  refine htarget.mono fun r es hr => ?_
  rcases hr with ⟨rfl, hr⟩
  cases r with
  | error error => exact hnothing error
  | ok asked =>
      obtain rfl := hr asked rfl
      simp only [List.append_nil, List.nil_append]
      rw [ends_bind, ends_lift]
      cases hbounds : settlementDay asked PARIS with
      | error error => exact hnothing error
      | ok bounds =>
          rcases bounds with ⟨start, stop⟩
          simp only [List.append_nil, List.nil_append]
          refine ends_bind_silent leaves_entsoeToken hnothing fun _ => ?_
          have hmergeDay : ∀ T, mergeDay o knownAt.toDateTime answer T asked =
              merge ⟨start.micros, stop.micros⟩
                (answerRows o knownAt.toDateTime (answer start stop)) T := by
            intro T
            unfold mergeDay
            rw [hbounds]
          rw [ends_bind]
          refine (ends_actualGenerationPerType "gridlens_bronze").mono fun r es hfetch => ?_
          rcases hfetch with ⟨-, hquiet, hfound⟩
          cases r with
          | error error => exact GoesOver.nothing hquiet error
          | ok found =>
              cases found with
              | none =>
                  -- no data: gone over, with nothing to merge
                  rcases hfound with ⟨error, herror, hkind⟩
                  simp only [ends_pure, List.append_nil]
                  refine ⟨[asked], List.prefix_refl _, fun _ => rfl, ?_⟩
                  rw [hquiet.bronze, List.foldl_cons, List.foldl_nil, hmergeDay,
                    (hans h start stop).2 error herror hkind]
                  exact (merge_nil _ _).symm
              | some fetched =>
                  simp only
                  refine (ends_ingestFetched_merge hdeployed.database (hknown fetched.fetchedAt)
                    (s.after "gridlens_bronze" es)).mono fun r es' hmerged => ?_
                  rw [← after_append, hquiet.bronze, ← (hans h start stop).1 fetched hfound,
                    ← hmergeDay] at hmerged
                  rcases hmerged with hmerged | ⟨hraised, hsame⟩
                  · exact ⟨[asked], List.prefix_refl _, fun _ => rfl, hmerged⟩
                  · refine ⟨[], List.nil_prefix, fun hok => ?_, hsame⟩
                    rw [hraised] at hok
                    cases hok

/-- Days that are counted back from the local date of the `known_at`. -/
theorem window_counted {readers : Readers} {event : Event} {zoneTz : ZoneInfo} {value : Value}
    {count : Int} {start stop : Date} (hstart : event "start_date" = none)
    (hvalue : event "refetch_days" = some value) (hcount : value.int = .ok count)
    (h : window readers event knownAt zoneTz = .ok (start, stop)) :
    stop.ordinal = localOrdinal zoneTz knownAt - 2 ∧
      start.ordinal = stop.ordinal - (count - 1) := by
  unfold window at h
  rw [hstart, hvalue] at h
  simp only [hcount, ok_bind] at h
  split at h
  · cases h
  · simp only [bind_eq_ok] at h
    rcases h with ⟨today, htoday, newest, hnewest, back, hback, oldest, holdest, heq⟩
    rcases Prod.mk.inj (Except.ok.inj heq) with ⟨rfl, rfl⟩
    have hdate := localDate_ok htoday
    unfold timedelta at hback
    split at hback
    · have hspan := Except.ok.inj hback
      rw [Date.ofOrdinal_ok hnewest, Date.ofOrdinal_ok holdest, Date.ofOrdinal_ok hnewest, ← hspan,
        DAY_eq]
      constructor <;> omega
    · cases hback

/-- The days that the backfill function reads off the payload. -/
theorem window_event (hsound : f.Sound environ zone) (hcommand : f.command ≠ .ingest)
    {start stop : Date} (h : window f.outside.readers f.event f.moment PARIS = .ok (start, stop)) :
    start = f.first ∧ stop = f.last := by
  have hcounts := hsound.countsBack
  unfold Firing.CountsBack at hcounts
  unfold Firing.event at h
  cases hc : f.command with
  | ingest => exact absurd hc hcommand
  | refetch count =>
      rw [hc] at hcounts h
      rcases hcounts with ⟨hlast, hfirst⟩
      rcases window_counted rfl rfl rfl h with ⟨hstop, hstart⟩
      have hdate : localOrdinal PARIS f.moment = parisDate f.moment.micros := rfl
      exact ⟨date_eq_iff.mpr (by omega), date_eq_iff.mpr (by omega)⟩
  | fill =>
      rw [hc] at h
      have hwindow := @window_payload f.outside f.moment f.first f.last hsound.deployed.readers
        f.moment PARIS
      rcases Prod.mk.inj (Except.ok.inj (hwindow.symm.trans h)) with ⟨rfl, rfl⟩
      exact ⟨rfl, rfl⟩

/-- An ingest that is on time asks for the day before. -/
theorem requestedDay_event (hsound : f.Sound environ zone) (hcommand : f.command = .ingest)
    {history : Trace} {asked : Date}
    (h : requestedDay f.outside environ f.event (f.outside.now history) = .ok asked) :
    asked = f.last := by
  have hcounts := hsound.countsBack
  unfold Firing.CountsBack at hcounts
  rw [hcommand] at hcounts
  have hnone : f.event "valid_date" = none := by
    unfold Firing.event
    rw [hcommand]
    rfl
  unfold requestedDay at h
  rw [hnone] at h
  simp only [Option.filter_none, hsound.lookback, hsound.deployed.zoneTz, ok_bind] at h
  have hdate := localDate_ok h
  -- the clock is still on the date of the firing
  have hsame : localOrdinal PARIS (f.outside.now history) = parisDate f.moment.micros := by
    have hhorizon : f.command.horizon = some 3720000000 := by
      rw [hcommand]
      rfl
    have htime : f.command.timeOfDay = 23400000000 := by
      rw [hcommand]
      rfl
    have hwithin := hsound.onTime.within _ hhorizon history
    have hmoment := moment_eq hsound.onTime
    have hoffset := parisOffset_cases (parisDate f.moment.micros * DAY + 2 * HOUR)
    have hoffset' := parisOffset_cases (f.outside.now history).micros
    show ((f.outside.now history).micros + parisOffset (f.outside.now history).micros) / DAY = _
    generalize parisOffset (parisDate f.moment.micros * DAY + 2 * HOUR) = offset at *
    generalize parisOffset (f.outside.now history).micros = offset' at *
    rw [DAY_eq, HOUR_eq] at *
    omega
  exact date_eq_iff.mpr (by omega)

theorem nodup_days (first last : Date) : (days first last).Nodup := by
  refine (days_pairwise first last).imp ?_
  rintro a b hab rfl
  exact absurd hab (lt_irrefl _)

theorem days_self (day : Date) : days day day = [day] := by
  refine List.perm_singleton.mp ((List.perm_ext_iff_of_nodup (nodup_days day day)
    (List.nodup_singleton day)).mpr fun d => ?_)
  rw [mem_days, List.mem_singleton]
  constructor
  · intro ⟨hfirst, hlast⟩
    exact date_eq_iff.mpr (le_antisymm hlast hfirst)
  · rintro rfl
    exact ⟨le_refl _, le_refl _⟩

/-- An attempt of a firing goes over its days. -/
theorem ends_firing (hsound : f.Sound environ zone) (s : Store) (h : Trace) :
    Ends f.outside (f.call environ).run
      (GoesOver f.outside f.moment.toDateTime f.answer (days f.first f.last) s) h := by
  have hrefetch : f.command ≠ .ingest → Ends f.outside (refetch environ f.event)
      (GoesOver f.outside f.moment.toDateTime f.answer (days f.first f.last) s) h := by
    intro hcommand
    refine ends_refetch_span hsound.deployed (parseKnownAt_event hsound)
      (fun start stop => window_event hsound hcommand)
      (fun error => GoesOver.nothing (quiet_nil _) error) fun stagingBucket workgroup => ?_
    exact ends_backfill_days _ rfl rfl hsound.answers s
  -- the call drops what the function returns
  have hdropped : ∀ {α : Type} {x : Job α}, Ends f.outside x
      (GoesOver f.outside f.moment.toDateTime f.answer (days f.first f.last) s) h →
      Ends f.outside (x >>= fun _ => pure ())
        (GoesOver f.outside f.moment.toDateTime f.answer (days f.first f.last) s) h := by
    intro α x hx
    rw [ends_bind]
    refine hx.mono fun r es hes => ?_
    cases r with
    | error error => exact hes
    | ok a =>
        simp only [ends_pure, List.append_nil]
        exact hes
  unfold Firing.call
  cases hc : f.command with
  | ingest =>
      have hcounts := hsound.countsBack
      unfold Firing.CountsBack at hcounts
      rw [hc] at hcounts
      rw [hcounts.2, days_self] at hdropped ⊢
      exact hdropped (ends_ingest_day hsound.deployed hsound.answers (parseKnownAt_event hsound)
        (fun asked => requestedDay_event hsound hc) s)
  | refetch count => exact hdropped (hrefetch (by simp [hc]))
  | fill => exact hdropped (hrefetch (by simp [hc]))

end Attempt

/-! ## What a firing does to bronze -/

/-- The run of a firing: under its moment, the rows of the first few of its
days, or of all of them where an attempt returned. -/
structure Fulfils (environ : Environ) (h : Trace) (f : Firing) (R : Run) : Prop where
  knownAt : R.knownAt = f.moment.micros
  batch : ∃ done, done <+: days f.first f.last ∧
    R.batch = done.flatMap (dayRows f.outside f.moment.toDateTime f.answer)
  whole : f.Delivered environ h →
    R.batch = (days f.first f.last).flatMap (dayRows f.outside f.moment.toDateTime f.answer)

section Runs

variable {environ : Environ} {zone : BiddingZone} {f : Firing} {fs : List Firing} {h : Trace}

/-- So many attempts go over the first few of the days, and all of them where
one of them returned. -/
theorem bronze_tries (hsound : f.Sound environ zone) (h : Trace) (n : Nat) :
    ∃ done, done <+: days f.first f.last ∧
      ((∃ m < n, ((f.call environ).run f.outside (f.after environ h m ++ [.began])).1.isOk = true) →
        done = days f.first f.last) ∧
      bronze "gridlens_bronze" (f.after environ h n) =
        done.foldl (mergeDay f.outside f.moment.toDateTime f.answer)
          (bronze "gridlens_bronze" h) := by
  induction n with
  | zero => exact ⟨[], List.nil_prefix, fun ⟨m, hm, _⟩ => absurd hm (Nat.not_lt_zero m), rfl⟩
  | succ n ih =>
      rcases ih with ⟨done, hpre, hwhole, hbronze⟩
      rcases ends_firing hsound (store "gridlens_bronze" (f.after environ h n ++ [.began]))
        (f.after environ h n ++ [.began]) with ⟨done', hpre', hwhole', hbronze'⟩
      rcases mergeDays_again hsound.orderly hpre hpre' (bronze "gridlens_bronze" h) with
        ⟨both, hboth, hlonger, hlonger', htwice⟩
      have hfull : ∀ {part : List Date}, part <+: both → part = days f.first f.last →
          both = days f.first f.last := by
        intro part hpart heq
        rw [heq] at hpart
        exact (hpart.eq_of_length_le hboth.length_le).symm
      refine ⟨both, hboth, fun ⟨m, hm, hok⟩ => ?_, ?_⟩
      · rcases Nat.lt_succ_iff_lt_or_eq.mp hm with hearlier | rfl
        · exact hfull hlonger (hwhole ⟨m, hearlier, hok⟩)
        · exact hfull hlonger' (hwhole' hok)
      · have hstep : f.after environ h (n + 1) =
            (f.call environ).after f.outside (f.after environ h n) :=
          Function.iterate_succ_apply' _ _ _
        have hbegan : (store "gridlens_bronze" (f.after environ h n ++ [.began])).bronze =
            bronze "gridlens_bronze" (f.after environ h n) := by
          rw [store_concat]
          rfl
        rw [hstep, Call.after, bronze_append]
        rw [hbegan, hbronze, htwice] at hbronze'
        exact hbronze'

/-- Whatever its attempts do, a firing is one run. -/
theorem exists_firingRun (hsound : f.Sound environ zone) (h : Trace) :
    ∃ R : Run, Fulfils environ h f R ∧
      bronze "gridlens_bronze" (f.after environ h f.tries) =
        R.apply (bronze "gridlens_bronze" h) := by
  rcases bronze_tries hsound h f.tries with ⟨done, hpre, hwhole, hbronze⟩
  have hnodup : done.Nodup := hpre.sublist.nodup (nodup_days f.first f.last)
  rcases exists_mergedRun (hsound.orderly.mono hpre.subset) hnodup with
    ⟨R, hknown, hbatch, happly⟩
  refine ⟨R, ⟨hknown, ⟨done, hpre, hbatch⟩, fun hdelivered => ?_⟩, hbronze.trans (happly _)⟩
  rw [hbatch, hwhole hdelivered]

/-- One run for each firing, in order. -/
structure Landed (environ : Environ) (fs : List Firing) (runs : List Run) : Prop where
  knownAt : runs.map Run.knownAt = fs.map fun f => f.moment.micros
  fulfils : ∀ before f after, fs = before ++ f :: after →
    ∃ R, runs[before.length]? = some R ∧ Fulfils environ (fired environ before) f R

theorem fired_concat (environ : Environ) (fs : List Firing) (f : Firing) :
    fired environ (fs ++ [f]) = f.after environ (fired environ fs) f.tries := by
  simp [fired]

/-- Bronze is what the runs of the firings leave. -/
theorem exists_landed (hsound : ∀ f ∈ fs, f.Sound environ zone) :
    ∃ runs, Landed environ fs runs ∧
      bronze "gridlens_bronze" (fired environ fs) = land [] runs := by
  induction fs using List.reverseRecOn with
  | nil => exact ⟨[], ⟨rfl, fun before f after heq => by simp at heq⟩, rfl⟩
  | append_singleton fs g ih =>
      rcases ih fun f hf => hsound f (List.mem_append_left _ hf) with ⟨runs, hlanded, hbronze⟩
      rcases exists_firingRun (hsound g (by simp)) (fired environ fs) with ⟨R, hR, happly⟩
      have hlength : runs.length = fs.length := by
        simpa using congrArg List.length hlanded.knownAt
      refine ⟨runs ++ [R], ⟨?_, fun before f after heq => ?_⟩, ?_⟩
      · rw [List.map_append, List.map_append, hlanded.knownAt, List.map_singleton,
          List.map_singleton, hR.knownAt]
      · rcases List.eq_nil_or_concat after with rfl | ⟨after', last, rfl⟩
        · -- the last of them
          rcases List.append_inj' heq rfl with ⟨rfl, hlast⟩
          obtain rfl := (List.cons.inj hlast).1
          exact ⟨R, by rw [← hlength, List.getElem?_concat_length], hR⟩
        · rw [List.concat_eq_append, ← List.cons_append, ← List.append_assoc] at heq
          have hfs := (List.append_inj' heq rfl).1
          rcases hlanded.fulfils before f after' hfs with ⟨R', hR', hfulfils⟩
          refine ⟨R', ?_, hfulfils⟩
          rw [List.getElem?_append_left, hR']
          exact (List.getElem?_eq_some_iff.mp hR').1
      · rw [fired_concat, land_concat, happly, hbronze]

theorem Landed.increasing {runs : List Run} (h : Landed environ fs runs)
    (hmoments : fs.Pairwise fun f f' => f.moment.micros < f'.moment.micros) : Increasing runs := by
  have hmap : (fs.map fun f => f.moment.micros).Pairwise (· < ·) := List.pairwise_map.mpr hmoments
  rw [← h.knownAt] at hmap
  exact List.pairwise_map.mp hmap

/-- Runs that land in the order of their stamps read right. -/
theorem readsRight_of_increasing {runs : List Run} (h : Increasing runs) : ReadsRight runs := by
  have hdistinct : ∀ {runs : List Run}, Increasing runs →
      runs.Pairwise fun R R' => R.knownAt ≠ R'.knownAt := fun h => h.imp fun hlt => hlt.ne
  induction runs using List.reverseRecOn with
  | nil =>
      rw [readsRight_iff_agrees List.Pairwise.nil]
      exact fun k => Agrees.refl _ _ _
  | append_singleton before R ih =>
      rcases List.pairwise_append.mp h with ⟨hbefore, -, hlast⟩
      refine (readsRight_concat_iff (hdistinct h) (ih hbefore)).mpr fun s hs => ?_
      have hlate : ∀ v ∈ staged before, v.knownAt < s.knownAt := by
        intro v hv
        rcases mem_staged.mp hv with ⟨R', hR', hmem⟩
        rw [R'.stamped v hmem, R.stamped s hs]
        exact hlast R' hR' R (List.mem_singleton_self R)
      constructor
      · -- the newest version held is in force by then
        intro hun
        rcases Option.map_eq_some_iff.mp hun with ⟨v, hv, hvalue⟩
        rcases (newestHeld_eq_some_iff (identified_land identified_nil before)).mp hv with
          ⟨hmem, hnewest⟩
        exact ⟨v, ⟨hmem, (hlate v (subset_staged before v hmem.1)).le, fun w hw _ => hnewest w hw⟩,
          congrArg Prod.fst hvalue⟩
      · intro _ v hv hlt
        exact absurd (hlate v hv.1) (lt_asymm hlt)

/-- Whatever fails and is retried, bronze is what one run for each firing
leaves: it holds the changes of what was observed, and every read at every
instant shows what it should. -/
theorem scheduled_bronze (hsound : ∀ f ∈ fs, f.Sound environ zone)
    (hmoments : fs.Pairwise fun f f' => f.moment.micros < f'.moment.micros) :
    ∃ runs, Landed environ fs runs ∧ Increasing runs ∧ ReadsRight runs ∧
      bronze "gridlens_bronze" (fired environ fs) = land [] runs ∧
      ∀ k, Sql.partition Row.key k (bronze "gridlens_bronze" (fired environ fs)) =
        changes Row.value (observed runs k) := by
  rcases exists_landed hsound with ⟨runs, hlanded, hbronze⟩
  have hincreasing := hlanded.increasing hmoments
  refine ⟨runs, hlanded, hincreasing, readsRight_of_increasing hincreasing, hbronze, fun k => ?_⟩
  rw [hbronze]
  exact partition_land hincreasing k

/-- At its own stamp a row of a run is what should be shown of its key. -/
theorem lastObserved_of_mem {runs : List Run} (h : Increasing runs) {R : Run} (hR : R ∈ runs)
    {row : Row} (hrow : row ∈ R.batch) : lastObserved runs row.knownAt row.key = some row := by
  have hstaged := identified_staged (h.imp fun hlt => hlt.ne)
  have hknown : Identified ((staged runs).filter fun s => s.knownAt ≤ row.knownAt) :=
    (List.filter_sublist.map _).nodup hstaged
  refine (newestHeld_eq_some_iff hknown).mpr ⟨⟨?_, rfl⟩, fun w hw => ?_⟩
  · exact List.mem_filter.mpr ⟨mem_staged.mpr ⟨R, hR, hrow⟩, decide_eq_true (le_refl _)⟩
  · exact of_decide_eq_true (List.mem_filter.mp hw.1).2

/-- Once an attempt of a firing has returned, a read as of its moment shows for
every row that the source had of its days what the source said, whatever is
fired before and after. -/
theorem delivered_reads (hsound : ∀ f ∈ fs, f.Sound environ zone)
    (hmoments : fs.Pairwise fun f f' => f.moment.micros < f'.moment.micros)
    {before after : List Firing} (hsplit : fs = before ++ f :: after)
    (hdelivered : f.Delivered environ (fired environ before)) {day : Date}
    (hday : day ∈ days f.first f.last) {row : Row}
    (hrow : row ∈ dayRows f.outside f.moment.toDateTime f.answer day) :
    (asOfKey (bronze "gridlens_bronze" (fired environ fs)) f.moment.micros row.key).map
      Row.quantityMw = [row.quantityMw] := by
  rcases exists_landed hsound with ⟨runs, hlanded, hbronze⟩
  have hincreasing := hlanded.increasing hmoments
  rcases hlanded.fulfils before f after hsplit with ⟨R, hR, hfulfils⟩
  have hmem : row ∈ R.batch := by
    rw [hfulfils.whole hdelivered]
    exact List.mem_flatMap.mpr ⟨day, hday, hrow⟩
  have hstamp : row.knownAt = f.moment.micros := (R.stamped row hmem).trans hfulfils.knownAt
  have hshown := lastObserved_of_mem hincreasing (List.mem_of_getElem? hR) hmem
  have hread := readsRight_of_increasing hincreasing f.moment.micros row.key
  rw [hstamp] at hshown
  rw [hbronze, hread, hshown]
  rfl

end Runs

/-! ## Two mornings -/

theorem firstMorning_inRange : WallInRange (739855 * DAY + 4 * HOUR + 30 * MINUTE) := by decide

theorem nextMorning_inRange : WallInRange (739856 * DAY + 3 * HOUR + 30 * MINUTE) := by decide

theorem refetched_inRange : 1 ≤ (739828 : Int) ∧ (739828 : Int) ≤ MAX_ORDINAL := by decide

/-- The source has the document of 26 August 2026 and nothing else. The clock
stands, and the first merge takes effect and times out. -/
def morningOutside (moment : Instant) : Outside :=
  { weekOutside with
    now := fun _ => moment
    execute := timingOut.execute }

/-- The ingest of the 27th, at 06:30 in Paris, with a retry. -/
def ingestFiring : Firing where
  moment := ⟨739855 * DAY + 4 * HOUR + 30 * MINUTE, firstMorning_inRange⟩
  command := .ingest
  first := weekStop
  last := weekStop
  outside := morningOutside ⟨739855 * DAY + 4 * HOUR + 30 * MINUTE, firstMorning_inRange⟩
  answer := weekAnswer
  tries := 2

/-- The re-fetch of the 28th, at 05:30. -/
def refetchFiring : Firing where
  moment := ⟨739856 * DAY + 3 * HOUR + 30 * MINUTE, nextMorning_inRange⟩
  command := .refetch 27
  first := ⟨739828, refetched_inRange⟩
  last := weekStop
  outside := morningOutside ⟨739856 * DAY + 3 * HOUR + 30 * MINUTE, nextMorning_inRange⟩
  answer := weekAnswer
  tries := 1

theorem morning_answers (moment : Instant) :
    (morningOutside moment).Answers BiddingZone.FR.value weekAnswer := week_answers

theorem morning_deployed (moment : Instant) :
    Deployed (morningOutside moment) smallEnviron .FR where
  zone := week_deployed.zone
  zoneTz := week_deployed.zoneTz
  database := week_deployed.database
  readers := week_deployed.readers

theorem ingestFiring_sound : ingestFiring.Sound smallEnviron .FR where
  onTime := ⟨by decide, fun horizon hhorizon h => by
    obtain rfl := Option.some.inj hhorizon
    exact ⟨le_refl _, Int.le_add_of_nonneg_right (by decide)⟩⟩
  countsBack := ⟨by decide, rfl⟩
  deployed := morning_deployed _
  lookback := by decide +kernel
  answers := morning_answers _
  orderly := week_orderly _ _ (by constructor <;> decide +kernel)

theorem refetchFiring_sound : refetchFiring.Sound smallEnviron .FR where
  onTime := ⟨by decide, fun horizon hhorizon h => by
    obtain rfl := Option.some.inj hhorizon
    exact ⟨le_refl _, Int.le_add_of_nonneg_right (by decide)⟩⟩
  countsBack := ⟨by decide, by decide⟩
  deployed := morning_deployed _
  lookback := by decide +kernel
  answers := morning_answers _
  orderly := week_orderly _ _ (by constructor <;> decide +kernel)

theorem mornings_sound : ∀ f ∈ [ingestFiring, refetchFiring], f.Sound smallEnviron .FR := by
  intro f hf
  rcases List.mem_pair.mp hf with rfl | rfl
  · exact ingestFiring_sound
  · exact refetchFiring_sound

theorem mornings_increase : [ingestFiring, refetchFiring].Pairwise fun f f' =>
    f.moment.micros < f'.moment.micros := by decide

/-- Of the ingest the second attempt returns. -/
theorem ingest_delivered : ingestFiring.Delivered smallEnviron (fired smallEnviron []) :=
  ⟨1, by decide, by decide +kernel⟩

theorem firings_apart_morning :
    (ingestFiring.outside.now []).micros < refetchFiring.moment.micros :=
  firings_apart ingestFiring_sound.onTime refetchFiring_sound.onTime (by decide) rfl []

theorem scheduled_bronze_mornings :
    ∃ runs, Landed smallEnviron [ingestFiring, refetchFiring] runs ∧ Increasing runs ∧
      ReadsRight runs ∧
      bronze "gridlens_bronze" (fired smallEnviron [ingestFiring, refetchFiring]) = land [] runs ∧
      ∀ k, Sql.partition Row.key k
          (bronze "gridlens_bronze" (fired smallEnviron [ingestFiring, refetchFiring])) =
        changes Row.value (observed runs k) :=
  scheduled_bronze mornings_sound mornings_increase

/-- The row of noon, as the ingest fetched it. -/
theorem delivered_reads_noon : ∃ row,
    row ∈ dayRows ingestFiring.outside ingestFiring.moment.toDateTime ingestFiring.answer weekStop ∧
      (asOfKey (bronze "gridlens_bronze" (fired smallEnviron [ingestFiring, refetchFiring]))
        ingestFiring.moment.micros row.key).map Row.quantityMw = [row.quantityMw] := by
  have hrows : dayRows ingestFiring.outside ingestFiring.moment.toDateTime ingestFiring.answer
      weekStop ≠ [] := by decide +kernel
  rcases List.exists_mem_of_ne_nil _ hrows with ⟨row, hrow⟩
  have hsplit : [ingestFiring, refetchFiring] = [] ++ ingestFiring :: [refetchFiring] := rfl
  have hday : weekStop ∈ days ingestFiring.first ingestFiring.last :=
    mem_days.mpr ⟨le_refl _, le_refl _⟩
  exact ⟨row, hrow, delivered_reads mornings_sound mornings_increase hsplit ingest_delivered hday
    hrow⟩

end Gridlens
