import Gridlens.Calls
import Gridlens.Retry

/-!
# Backfills that stop and are run again

A backfill merges its days one by one. An exception ends it with the days
before it merged, and perhaps the day it was at, whose merge can have taken
effect although the caller saw a failure. Whatever was merged is the first few
of a sequence of runs that share one `known_at`, so the next attempt merges
them again without inserting anything (`land_resumed`) and goes on from there.
-/

namespace Gridlens

open Effects

/-- The store after more effects. -/
def Store.after (database : String) (s : Store) (es : Trace) : Store :=
  es.foldl (Store.step database) s

/-- The responses are fixed: a request is answered with the body assigned to
its window, or with no data where there is none, or fails. -/
def Outside.Answers (o : Outside) (code : String) (answer : Instant → Instant → Option Bytes) :
    Prop :=
  ∀ h start stop,
    (∀ fetched, o.fetch h code start stop = .ok fetched → answer start stop = some fetched.body) ∧
      ∀ error, o.fetch h code start stop = .error error → error.kind = .EntsoeNoData →
        answer start stop = none

/-- The rows that the response to a window comes to. -/
def answerRows (o : Outside) (knownAt : DateTime) : Option Bytes → List Row
  | none => []
  | some body =>
      match o.gate body knownAt with
      | .ok result => result.records.map stagedRow
      | .error _ => []

/-- What one day of the range does to bronze. -/
def landDay (o : Outside) (args : BackfillArgs) (answer : Instant → Instant → Option Bytes)
    (T : List Row) (day : Date) : List Row :=
  match settlementDay day args.zoneTz with
  | .ok (start, stop) =>
      merge ⟨start.micros, stop.micros⟩ (answerRows o args.knownAt (answer start stop)) T
  | .error _ => T

theorem merge_nil (W : MergeWindow) (T : List Row) : merge W [] T = T := by
  rw [merge_eq, List.filter_nil, List.append_nil]

/-- The windows that were asked for. -/
def windows (es : Trace) : List (Instant × Instant) :=
  es.filterMap fun
    | .fetched _ start stop _ => some (start, stop)
    | _ => none

theorem windows_append (es es' : Trace) : windows (es ++ es') = windows es ++ windows es' :=
  List.filterMap_append

/-- A merge that takes effect in the database. -/
def Effect.commits (database : String) : Effect → Bool
  | .merged database' _ _ _ outcome => database' = database && outcome.committed
  | _ => false

/-- The effects ask for these windows, and none is a merge that takes effect. -/
structure Quiet (database : String) (es : Trace) (asked : List (Instant × Instant)) : Prop where
  windows : windows es = asked
  commits : es.any (Effect.commits database) = false

@[simp] theorem after_nil (database : String) (s : Store) : s.after database [] = s := rfl

theorem after_singleton (database : String) (s : Store) (e : Effect) :
    s.after database [e] = s.step database e := rfl

theorem after_append (database : String) (s : Store) (es es' : Trace) :
    s.after database (es ++ es') = (s.after database es).after database es' := List.foldl_append

section Days

variable {o : Outside} {h : Trace} {answer : Instant → Instant → Option Bytes}
  {args : BackfillArgs}

theorem step_bronze_of_not_commits {database : String} (s : Store) {e : Effect}
    (he : e.commits database = false) : (s.step database e).bronze = s.bronze := by
  rw [Store.step_bronze]
  cases e with
  | merged database' workgroup batchId W outcome =>
      have hcommit : ¬ (database' = database ∧ outcome.committed = true) := by
        simpa [Effect.commits] using he
      exact if_neg hcommit
  | _ => rfl

theorem Quiet.bronze {database : String} {es : Trace} {asked : List (Instant × Instant)}
    (h : Quiet database es asked) (s : Store) : (s.after database es).bronze = s.bronze := by
  have hall := List.any_eq_false.mp h.commits
  clear h
  induction es generalizing s with
  | nil => rfl
  | cons e es ih =>
      have he := step_bronze_of_not_commits s
        (Bool.eq_false_iff.mpr (hall e List.mem_cons_self))
      exact (ih (s.step database e) fun e' he' => hall e' (List.mem_cons_of_mem e he')).trans he

theorem Quiet.append {database : String} {es es' : Trace} {asked asked' : List (Instant × Instant)}
    (h : Quiet database es asked) (h' : Quiet database es' asked') :
    Quiet database (es ++ es') (asked ++ asked') :=
  ⟨by rw [windows_append, h.windows, h'.windows],
    by rw [List.any_append, h.commits, h'.commits]; rfl⟩

theorem quiet_nil (database : String) : Quiet database [] [] := ⟨rfl, rfl⟩

theorem ends_gate {body : Bytes} {knownAt : DateTime} {Q : Py GateResult → Trace → Prop} :
    Ends o (gate body knownAt) Q h ↔ Q (o.gate body knownAt) [] := Iff.rfl

/-- A request leaves its answer, and bronze alone. -/
theorem ends_actualGenerationPerType {code : String} {start stop : Instant} (database : String) :
    Ends o (actualGenerationPerType code start stop) (fun r es =>
      es = [.fetched code start stop (o.fetch h code start stop)] ∧
      Quiet database es [(start, stop)] ∧ match r with
      | .ok (some fetched) => o.fetch h code start stop = .ok fetched
      | .ok none => ∃ error, o.fetch h code start stop = .error error ∧ error.kind = .EntsoeNoData
      | .error _ => True) h := by
  simp only [actualGenerationPerType, fetch, ends_bind, ends_act]
  cases hanswer : o.fetch h code start stop with
  | ok fetched => exact ⟨rfl, ⟨rfl, rfl⟩, rfl⟩
  | error error =>
      by_cases hkind : error.kind = .EntsoeNoData
      · simp only [if_pos hkind, ends_pure]
        exact ⟨rfl, ⟨rfl, rfl⟩, error, rfl, hkind⟩
      · simp only [if_neg hkind, ends_lift]
        exact ⟨rfl, ⟨rfl, rfl⟩, trivial⟩

/-- Staging leaves bronze alone, and a staged batch can be read back. -/
theorem ends_stagingWrite {bucket : String} {records : List GenerationRecord}
    (database : String) :
    Ends o (stagingWrite bucket records) (fun r es => Quiet database es [] ∧
      match r with
      | .ok (batchId, n) => n = records.length ∧ (n ≠ 0 →
          ∀ s : Store, (s.after database es).batch batchId = records.map stagedRow)
      | .error _ => True) h := by
  unfold stagingWrite
  split
  · rename_i hnone
    rw [ends_pure]
    exact ⟨quiet_nil database, by rw [hnone]; rfl, fun hn => absurd rfl hn⟩
  · simp only [uuid4, putObject, ends_bind, ends_ask, ends_act, ends_pure, List.nil_append,
      List.append_nil]
    generalize o.uuid4 h = id
    generalize o.putObject h bucket (.staging id records) = outcome
    have hquiet : Quiet database [.put bucket (.staging id records) outcome] [] :=
      ⟨rfl, rfl⟩
    cases outcome with
    | raised error done => exact ⟨hquiet, trivial⟩
    | answered _ =>
        refine ⟨hquiet, trivial, fun _ s => ?_⟩
        simp [Store.after, Store.step, Outcome.stored, Store.batch]

/-- A merge takes effect or it does not; where it returns, it did. -/
theorem ends_mergeBatch {database' workgroup batchId : String} {start stop : Instant}
    (database : String) :
    Ends o (mergeBatch database' workgroup batchId start stop) (fun r es =>
      windows es = [] ∧
      (∀ s : Store, (s.after database es).bronze =
        if es.any (Effect.commits database) then
          merge ⟨start.micros, stop.micros⟩ (s.batch batchId) s.bronze
        else s.bronze) ∧
      ∀ a, r = .ok a → database' = database → es.any (Effect.commits database) = true) h := by
  simp only [mergeBatch, executeMerge, ends_bind, ends_lift, ends_act]
  cases hcheck : checkBatch batchId start stop with
  | error error => exact ⟨rfl, fun s => rfl, fun a ha => by cases ha⟩
  | ok _ =>
      simp only [List.nil_append, List.append_nil]
      generalize o.execute h batchId ⟨start.micros, stop.micros⟩ = outcome
      have hcommits : List.any
          [.merged database' workgroup batchId ⟨start.micros, stop.micros⟩ outcome]
          (Effect.commits database) = (database' = database && outcome.committed) := by
        simp [Effect.commits]
      have hstep : ∀ s : Store, (s.after database
          [.merged database' workgroup batchId ⟨start.micros, stop.micros⟩ outcome]).bronze =
            if (database' = database && outcome.committed) then
              merge ⟨start.micros, stop.micros⟩ (s.batch batchId) s.bronze
            else s.bronze := by
        intro s
        rw [after_singleton, Store.step_bronze]
        simp
      cases outcome with
      | raised error done =>
          refine ⟨rfl, fun s => ?_, fun a ha => by cases ha⟩
          rw [hcommits]
          exact hstep s
      | answered execution =>
          simp only [Outcome.result]
          split
          · rename_i hsucceeded
            simp only [ends_pure, List.append_nil]
            refine ⟨rfl, fun s => ?_, fun a _ hsame => ?_⟩
            · rw [hcommits]
              exact hstep s
            · rw [hcommits, Bool.and_eq_true, decide_eq_true_eq]
              exact ⟨hsame, hsucceeded⟩
          · simp only [ends_lift, List.append_nil]
            refine ⟨rfl, fun s => ?_, fun a ha => by cases ha⟩
            rw [hcommits]
            exact hstep s

/-- Staging rows and merging them, unless there are none. -/
theorem ends_load {bucket database workgroup : String} {records : List GenerationRecord}
    {start stop : Instant} {empty : BackfillState}
    {loaded : String × Nat → Nat → BackfillState} :
    Ends o (do
      let batch ← stagingWrite bucket records
      if batch.2 = 0 then return empty
      else
        let scanned ← mergeBatch database workgroup batch.1 start stop
        return loaded batch scanned) (fun r es => ∀ s : Store,
      (s.after database es).bronze =
          merge ⟨start.micros, stop.micros⟩ (records.map stagedRow) s.bronze ∨
        (∃ error, r = .error error) ∧ (s.after database es).bronze = s.bronze) h := by
  rw [ends_bind]
  refine (ends_stagingWrite database).mono fun r es hstaged => ?_
  obtain ⟨hquiet, hbatch⟩ := hstaged
  cases r with
  | error error => exact fun s => Or.inr ⟨⟨error, rfl⟩, hquiet.bronze s⟩
  | ok batch =>
      obtain ⟨batchId, n⟩ := batch
      obtain ⟨hn, hbatch⟩ := hbatch
      simp only
      split
      · rename_i hzero
        have hnil : records = [] := List.eq_nil_of_length_eq_zero (hn ▸ hzero)
        simp only [ends_pure, List.append_nil, hnil, List.map_nil, merge_nil]
        exact fun s => Or.inl (hquiet.bronze s)
      · rename_i hsome
        rw [ends_bind]
        refine (ends_mergeBatch database).mono fun r es' hmerged => ?_
        obtain ⟨-, hbronze, hreturned⟩ := hmerged
        have hafter : ∀ s : Store, (s.after database (es ++ es')).bronze =
            if es'.any (Effect.commits database) then
              merge ⟨start.micros, stop.micros⟩ (records.map stagedRow) s.bronze
            else s.bronze := by
          intro s
          rw [after_append, hbronze, hquiet.bronze, hbatch hsome]
        cases r with
        | error error =>
            intro s
            rw [hafter s]
            split
            · exact Or.inl rfl
            · exact Or.inr ⟨⟨error, rfl⟩, rfl⟩
        | ok scanned =>
            simp only [ends_pure, List.append_nil]
            intro s
            exact Or.inl ((hafter s).trans (if_pos (hreturned scanned rfl rfl)))

/-- A day that returns has done what it does to bronze; one that raises has
done that or nothing. -/
theorem ends_backfillDay (hans : o.Answers args.zone.value answer) (s : Store)
    (counters : BackfillState) (day : Date) :
    Ends o (backfillDay args counters day) (fun r es =>
      (s.after args.database es).bronze = landDay o args answer s.bronze day ∨
        (∃ error, r = .error error) ∧ (s.after args.database es).bronze = s.bronze) h := by
  unfold backfillDay landDay
  rw [ends_bind, ends_lift]
  cases hday : settlementDay day args.zoneTz with
  | error error => exact Or.inr ⟨⟨error, rfl⟩, rfl⟩
  | ok bounds =>
      obtain ⟨start, stop⟩ := bounds
      simp only [List.nil_append, List.append_nil]
      rw [ends_bind]
      refine (ends_actualGenerationPerType args.database).mono fun r es₁ hfetch => ?_
      obtain ⟨-, hquiet, hfound⟩ := hfetch
      cases r with
      | error error => exact Or.inr ⟨⟨error, rfl⟩, hquiet.bronze s⟩
      | ok found =>
          cases found with
          | none =>
              -- no data for this day
              obtain ⟨error, herror, hkind⟩ := hfound
              simp only [ends_pure, List.append_nil, (hans h start stop).2 error herror hkind,
                answerRows, merge_nil]
              exact Or.inl (hquiet.bronze s)
          | some fetched =>
              simp only [(hans h start stop).1 fetched hfound, answerRows]
              rw [ends_bind, ends_gate]
              cases hgate : o.gate fetched.body args.knownAt with
              | error error => exact Or.inr ⟨⟨error, rfl⟩, by rw [List.append_nil]; exact hquiet.bronze s⟩
              | ok result =>
                  simp only [List.nil_append]
                  refine ends_load.mono fun r es₂ hload => ?_
                  rw [after_append, ← hquiet.bronze s]
                  exact hload (s.after args.database es₁)

/-- A backfill that returns has done every day's merge; one that raises, those
of the first few days. -/
theorem ends_backfill (hans : o.Answers args.zone.value answer) (s : Store) :
    Ends o (backfill args) (fun r es => match r with
      | .ok _ => (s.after args.database es).bronze =
          (days args.start args.stop).foldl (landDay o args answer) s.bronze
      | .error _ => ∃ done, done <+: days args.start args.stop ∧
          (s.after args.database es).bronze = done.foldl (landDay o args answer) s.bronze) h := by
  unfold backfill
  rw [ends_bind, ends_lift]
  cases args.check with
  | error error => exact ⟨[], List.nil_prefix, rfl⟩
  | ok _ =>
      simp only [List.nil_append, List.append_nil]
      rw [ends_bind]
      have hloop := ends_foldlM (o := o) (h := h) (g := backfillDay args)
        (l := days args.start args.stop) (s := ⟨0, 0, [], 0⟩)
        (I := fun done es =>
          (s.after args.database es).bronze = done.foldl (landDay o args answer) s.bronze)
        (J := fun es => ∃ done, done <+: days args.start args.stop ∧
          (s.after args.database es).bronze = done.foldl (landDay o args answer) s.bronze)
        ?_ rfl
      · refine hloop.mono fun r es hend => ?_
        cases r with
        | error error => exact hend
        | ok counters =>
            simp only [ends_pure, List.append_nil]
            exact hend
      · intro done day hpre counters es hdone
        refine (ends_backfillDay hans (s.after args.database es) counters day).mono
          fun r es' hday => ?_
        rw [← after_append, hdone] at hday
        have hnext : (done ++ [day]).foldl (landDay o args answer) s.bronze =
            landDay o args answer (done.foldl (landDay o args answer) s.bronze) day := by simp
        cases r with
        | ok _ =>
            rcases hday with hmerged | ⟨⟨error, herror⟩, -⟩
            · exact hnext ▸ hmerged
            · cases herror
        | error error =>
            rcases hday with hmerged | ⟨-, hsame⟩
            · exact ⟨done ++ [day], hpre, hnext ▸ hmerged⟩
            · exact ⟨done, (List.prefix_append done [day]).trans hpre, hsame⟩

/-! ## The days as runs -/

/-- The rows of each day are distinct and lie inside its settlement window. -/
def AnswersOrderly (o : Outside) (args : BackfillArgs)
    (answer : Instant → Instant → Option Bytes) : Prop :=
  ∀ day ∈ days args.start args.stop, ∀ start stop,
    settlementDay day args.zoneTz = .ok (start, stop) →
      Identified (answerRows o args.knownAt (answer start stop)) ∧
        ∀ s ∈ answerRows o args.knownAt (answer start stop),
          MergeWindow.contains ⟨start.micros, stop.micros⟩ s.validTime = true

theorem answerRows_stamped {knownAt : DateTime} {body : Option Bytes} :
    ∀ s ∈ answerRows o knownAt body, s.knownAt = knownAt.wall := by
  intro s hs
  unfold answerRows at hs
  split at hs
  · cases hs
  · split at hs
    · rename_i result hgate
      obtain ⟨r, hr, rfl⟩ := List.mem_map.mp hs
      obtain ⟨document, -, hgate⟩ := bind_eq_ok.mp hgate
      exact stamped_applyGate hgate r hr
    · cases hs

/-- What a day does is a run under the `known_at` of the backfill. -/
theorem exists_run (horderly : AnswersOrderly o args answer) {day : Date}
    (hday : day ∈ days args.start args.stop) : ∃ R : Run, R.knownAt = args.knownAt.wall ∧
      ∀ T, landDay o args answer T day = R.apply T := by
  unfold landDay
  cases hbounds : settlementDay day args.zoneTz with
  | error error =>
      exact ⟨⟨⟨0, 0⟩, args.knownAt.wall, [], by simp, by simp, identified_nil⟩, rfl,
        fun T => (merge_nil _ T).symm⟩
  | ok bounds =>
      obtain ⟨start, stop⟩ := bounds
      obtain ⟨hidentified, hwindow⟩ := horderly day hday start stop hbounds
      exact ⟨⟨_, args.knownAt.wall, _, answerRows_stamped, hwindow, hidentified⟩, rfl,
        fun _ => rfl⟩

/-- The days of a backfill, of which the first few went before, leave what they
leave alone. -/
theorem landDays_resumed (horderly : AnswersOrderly o args answer) {done : List Date}
    (hpre : done <+: days args.start args.stop) (T : List Row) :
    (days args.start args.stop).foldl (landDay o args answer)
        (done.foldl (landDay o args answer) T) =
      (days args.start args.stop).foldl (landDay o args answer) T := by
  have hexists : ∀ day, ∃ R : Run, day ∈ days args.start args.stop →
      R.knownAt = args.knownAt.wall ∧ ∀ T, landDay o args answer T day = R.apply T := by
    intro day
    by_cases hday : day ∈ days args.start args.stop
    · obtain ⟨R, hR⟩ := exists_run horderly hday
      exact ⟨R, fun _ => hR⟩
    · exact ⟨⟨⟨0, 0⟩, 0, [], by simp, by simp, identified_nil⟩, fun h => absurd h hday⟩
  choose run hrun using hexists
  have hland : ∀ ds : List Date, (∀ day ∈ ds, day ∈ days args.start args.stop) → ∀ T,
      ds.foldl (landDay o args answer) T = land T (ds.map run) := by
    intro ds
    induction ds with
    | nil => exact fun _ _ => rfl
    | cons day ds ih =>
        intro hmem T
        rw [List.foldl_cons, (hrun day (hmem day List.mem_cons_self)).2, List.map_cons, land_cons]
        exact ih (fun d hd => hmem d (List.mem_cons_of_mem day hd)) _
  rw [hland _ (fun _ hd => hd), hland _ (fun _ hd => hd), hland _ fun _ hd => hpre.subset hd]
  refine land_resumed (k := args.knownAt.wall) (fun R hR => ?_) (hpre.map run)
  obtain ⟨day, hday, rfl⟩ := List.mem_map.mp hR
  exact (hrun day hday).1

/-! ## Attempts -/

/-- What so many attempts leave, one after another, from the history `h` on. -/
def attempts (o : Outside) (args : BackfillArgs) (h : Trace) : Nat → Trace
  | 0 => []
  | n + 1 => attempts o args h n ++ (backfill args o (h ++ attempts o args h n)).2

/-- Attempts leave a table from which the days come to what they come to from
the start. -/
theorem landDays_attempts (hans : o.Answers args.zone.value answer)
    (horderly : AnswersOrderly o args answer) (s : Store) (n : Nat) :
    (days args.start args.stop).foldl (landDay o args answer)
        (s.after args.database (attempts o args h n)).bronze =
      (days args.start args.stop).foldl (landDay o args answer) s.bronze := by
  induction n with
  | zero => rfl
  | succ n ih =>
      have hend := ends_backfill (h := h ++ attempts o args h n) hans
        (s.after args.database (attempts o args h n))
      have hdone : ∃ done, done <+: days args.start args.stop ∧
          (s.after args.database (attempts o args h (n + 1))).bronze =
            done.foldl (landDay o args answer)
              (s.after args.database (attempts o args h n)).bronze := by
        unfold Ends at hend
        simp only at hend
        rw [attempts, after_append]
        split at hend
        · exact ⟨_, List.prefix_refl _, hend⟩
        · exact hend
      obtain ⟨done, hpre, hbronze⟩ := hdone
      rw [hbronze, landDays_resumed horderly hpre, ih]

end Days

/-- However often a backfill stopped, and wherever, once it returns bronze is
what a single backfill would have left. -/
theorem backfill_resumes {o o' : Outside} {args : BackfillArgs}
    {answer : Instant → Instant → Option Bytes} (hans : o.Answers args.zone.value answer)
    (hans' : o'.Answers args.zone.value answer)
    (hread : o'.readers = o.readers ∧ o'.fromstring = o.fromstring)
    (horderly : AnswersOrderly o args answer) {h h' : Trace} {s s' : Store}
    (hs : s'.bronze = s.bronze) (n : Nat) {a a' : BackfillSummary} {es es' : Trace}
    (hreturn : Returns (backfill args) o (h ++ attempts o args h n) a es)
    (hreturn' : Returns (backfill args) o' h' a' es') :
    (s.after args.database (attempts o args h n ++ es)).bronze =
      (s'.after args.database es').bronze := by
  have hend := ends_backfill (h := h ++ attempts o args h n) hans
    (s.after args.database (attempts o args h n))
  have hend' := ends_backfill (h := h') hans' s'
  unfold Ends at hend hend'
  rw [hreturn] at hend
  rw [hreturn'] at hend'
  have hsame : landDay o' args answer = landDay o args answer := by
    funext T day
    unfold landDay answerRows Outside.gate Outside.document
    rw [hread.1, hread.2]
  rw [after_append, hend, landDays_attempts hans horderly, hend', hsame, hs]

/-- The document every request is answered with. -/
@[irreducible] def augustBody : Bytes := (documentText ["100"]).toList.map fun c => UInt8.ofNat c.toNat

def augustOutside : Outside :=
  { smallOutside ["100"] with fetch := fun _ _ _ _ => .ok ⟨augustBody, morning, 200⟩ }

/-- The same, but the first merge takes effect and times out. -/
def timingOut : Outside :=
  { augustOutside with
    execute := fun h _ _ =>
      if h.any (fun e => match e with | .merged .. => true | _ => false) then
        .answered ⟨true, none, 0⟩
      else .raised ⟨.Exception, [.text "Read timed out"]⟩ true }

theorem august_inRange : 1 ≤ (739854 : Int) ∧ (739854 : Int) ≤ MAX_ORDINAL := by decide

/-- The backfill of 26 August 2026. -/
def augustArgs : BackfillArgs where
  start := ⟨739854, august_inRange⟩
  stop := ⟨739854, august_inRange⟩
  knownAt := morning.toDateTime
  zone := .FR
  zoneTz := PARIS
  stagingBucket := "gridlens-raw"
  database := "gridlens_bronze"
  workgroup := "gridlens"

def augustAnswer (_ _ : Instant) : Option Bytes := some augustBody

theorem august_answers : timingOut.Answers augustArgs.zone.value augustAnswer ∧
    augustOutside.Answers augustArgs.zone.value augustAnswer := by
  constructor <;>
  · intro h start stop
    refine ⟨fun fetched hfetched => ?_, fun error herror => nomatch herror⟩
    exact congrArg (fun f => some f.body) (Except.ok.inj hfetched)

theorem august_orderly : AnswersOrderly timingOut augustArgs augustAnswer := by
  intro day hday start stop hbounds
  have hday : day = ⟨739854, august_inRange⟩ := by
    have hone : days augustArgs.start augustArgs.stop = [⟨739854, august_inRange⟩] := rfl
    rw [hone] at hday
    exact List.mem_singleton.mp hday
  have hparis := settlementDay_paris hbounds
  rw [hday] at hparis
  rw [hparis.1, hparis.2]
  have hrows : augustAnswer start stop = augustAnswer morning morning := rfl
  rw [hrows]
  constructor <;> decide +kernel

/-- One attempt that times out behind its merge, and one that returns: as the
single backfill that never failed. -/
theorem backfill_resumes_timeout : ∃ a es a' es',
    Returns (backfill augustArgs) timingOut ([] ++ attempts timingOut augustArgs [] 1) a es ∧
    Returns (backfill augustArgs) augustOutside [] a' es' ∧
    (Store.after "gridlens_bronze" ⟨[], []⟩ (attempts timingOut augustArgs [] 1 ++ es)).bronze =
      (Store.after "gridlens_bronze" ⟨[], []⟩ es').bronze := by
  obtain ⟨a, hreturn⟩ := exists_returns (x := backfill augustArgs) (o := timingOut)
    (h := [] ++ attempts timingOut augustArgs [] 1) (by decide +kernel)
  obtain ⟨a', hreturn'⟩ := exists_returns (x := backfill augustArgs)
    (o := augustOutside) (h := []) (by decide +kernel)
  exact ⟨a, _, a', _, hreturn, hreturn', backfill_resumes august_answers.1 august_answers.2
    ⟨rfl, rfl⟩ august_orderly rfl 1 hreturn hreturn'⟩

end Gridlens
