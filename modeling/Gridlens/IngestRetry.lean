import Gridlens.Resume
import Gridlens.Quarantine

/-!
# Daily ingests that are run again

An event that carries a `known_at` stamps every attempt the same, but the day
to fetch is counted back from the clock unless the event names it. An attempt
after local midnight asks for another window than the one before it. The
re-fetch counts back from the `known_at` itself.
-/

namespace Gridlens

open Effects

/-! ## What an event asks for -/

/-- The settlement day to fetch, as the clock reads `now`. -/
def requestedDay (o : Outside) (environ : Environ) (event : Event) (now : Instant) : Py Date :=
  match (event "valid_date").filter Value.truthy with
  | some asked => o.readers.date asked.str
  | none => do
      let lookback ← env environ "GRIDLENS_LOOKBACK_DAYS" (some "1") >>= o.readers.int
      let zoneTz ← env environ "GRIDLENS_ZONE_TZ" (some "Europe/Paris") >>= o.zoneInfo
      localDate zoneTz now lookback

/-- The zone and the window to fetch. -/
def request (o : Outside) (environ : Environ) (event : Event) (now : Instant) :
    Py (BiddingZone × Instant × Instant) := do
  let zone ← env environ "GRIDLENS_ZONE" (some "FR") >>= zoneNamed
  let zoneTz ← env environ "GRIDLENS_ZONE_TZ" (some "Europe/Paris") >>= o.zoneInfo
  let day ← requestedDay o environ event now
  let (start, stop) ← settlementDay day zoneTz
  .ok (zone, start, stop)

/-- The rows an answer comes to under the `known_at` of the event. -/
def requestedRows (o : Outside) (event : Event) (fetchedAt : Instant) (answer : Option Bytes) :
    List Row :=
  match parseKnownAt o.readers event.knownAt fetchedAt with
  | .ok knownAt => answerRows o knownAt.toDateTime answer
  | .error _ => []

/-- The database the ingest loads. -/
def bronzeDatabase (environ : Environ) : String :=
  (environ "GRIDLENS_BRONZE_DATABASE").getD "gridlens_bronze"

theorem env_default (environ : Environ) (name default : String) :
    env environ name (some default) = .ok ((environ name).getD default) := by
  unfold env
  cases environ name <;> rfl

/-- A `known_at` in the event is what counts, whenever the document came. -/
theorem parseKnownAt_congr {readers : Readers} {value : String} (h : value ≠ "")
    (now now' : Instant) : parseKnownAt readers value now = parseKnownAt readers value now' := by
  unfold parseKnownAt
  rw [if_neg h, if_neg h]

section Ingest

variable {o : Outside} {h : Trace} {environ : Environ} {event : Event}

theorem post_targetDay_requested : Post o (targetDay environ event)
    (fun day es => es = [] ∧ requestedDay o environ event (o.now h) = .ok day) h := by
  unfold targetDay requestedDay
  cases (event "valid_date").filter Value.truthy with
  | some asked =>
      simp only [post_bind, post_ask, post_lift]
      exact fun day hday => ⟨rfl, hday⟩
  | none =>
      simp only [post_bind, post_ask, post_lift, datetimeNow, env_default, List.append_nil,
        bind_eq_ok]
      intro lookback hlookback count hcount zoneTz hzoneTz zone hzone day hday
      exact ⟨trivial, count, ⟨lookback, hlookback, hcount⟩, zone, ⟨zoneTz, hzoneTz, hzone⟩, hday⟩

theorem ends_putObject {bucket : String} {object : Object} (database : String) :
    Ends o (putObject bucket object) (fun _ es => Quiet database es []) h := by
  rw [putObject, ends_act]
  exact ⟨rfl, rfl⟩

theorem ends_quarantineWrite {bucket : String} {violations : List Violation} {seenAt : Instant}
    (database : String) :
    Ends o (quarantineWrite bucket violations seenAt) (fun _ es => Quiet database es []) h := by
  unfold quarantineWrite
  split
  · exact quiet_nil database
  · rw [ends_bind, uuid4, ends_ask]
    simp only [List.nil_append]
    rw [ends_bind]
    refine (ends_putObject database).mono fun r es hquiet => ?_
    cases r with
    | error error => exact hquiet
    | ok _ =>
        simp only [ends_pure, List.append_nil]
        exact hquiet

/-- The ingest from a fetched document on: one merge of its rows. -/
theorem post_ingestFetched_merge {zone : BiddingZone} {day : Date} {start stop : Instant}
    {fetched : FetchResult} :
    Post o (ingestFetched environ event zone day start stop fetched) (fun _ es =>
      windows es = [] ∧ ∀ s : Store, (s.after (bronzeDatabase environ) es).bronze =
        merge ⟨start.micros, stop.micros⟩
          (requestedRows o event fetched.fetchedAt (some fetched.body)) s.bronze) h := by
  unfold ingestFetched requestedRows answerRows
  simp only [post_bind, post_ask, post_lift, uuid4, List.nil_append, List.append_nil]
  intro knownAt hknown rawBucket _
  rw [hknown]
  refine ((ends_putObject (bronzeDatabase environ)).post fun _ _ hput => hput).mono
    fun _ es₁ hraw => post_gate.mono fun result es₂ hgate => ?_
  obtain ⟨hgate, rfl⟩ := hgate
  intro quarantineBucket _
  refine ((ends_quarantineWrite (bronzeDatabase environ)).post fun _ _ hwrite => hwrite).mono
    fun quarantined es₂ hquarantine => ?_
  refine ((ends_stagingWrite (bronzeDatabase environ)).post fun _ _ hwrite => hwrite).mono
    fun batch es₃ hstaged => ?_
  obtain ⟨hstaged, hn, hbatch⟩ := hstaged
  have hquiet := hraw.append (hquarantine.append hstaged)
  simp only [hgate, List.nil_append]
  split
  · rename_i hzero
    have hnil : result.records = [] := List.eq_nil_of_length_eq_zero (hn ▸ hzero)
    simp only [post_bind, post_pure, List.append_nil, hnil, List.map_nil, merge_nil]
    exact ⟨hquiet.windows, hquiet.bronze⟩
  · rename_i hsome
    simp only [post_bind, post_lift, post_pure, List.nil_append, List.append_nil]
    intro database hdatabase workgroup _
    rw [env_default] at hdatabase
    obtain rfl : bronzeDatabase environ = database := Except.ok.inj hdatabase
    refine (ends_mergeBatch (bronzeDatabase environ)).post fun scanned es₄ hmerged => ?_
    obtain ⟨hwindows, hmerged, hreturned⟩ := hmerged
    rw [← List.append_assoc es₂, ← List.append_assoc es₁]
    refine ⟨by rw [windows_append, hquiet.windows, hwindows]; rfl, fun s => ?_⟩
    -- the batch is read back where the raw document and the refusals were put before it
    have hread := hbatch hsome ((s.after (bronzeDatabase environ) es₁).after
      (bronzeDatabase environ) es₂)
    rw [← after_append, ← after_append] at hread
    rw [after_append, hmerged, if_pos (hreturned scanned rfl rfl), hquiet.bronze, hread]

/-- An ingest that returns asked for one window and merged the rows of its
answer. -/
theorem post_ingest_merge {answer : String → Instant → Instant → Option Bytes}
    (hans : ∀ code, o.Answers code (answer code)) (hknown : event.knownAt ≠ "") :
    Post o (ingest environ event) (fun _ es => ∃ zone start stop,
      request o environ event (o.now h) = .ok (zone, start, stop) ∧
        windows es = [(start, stop)] ∧ ∀ s : Store,
          (s.after (bronzeDatabase environ) es).bronze = merge ⟨start.micros, stop.micros⟩
            (requestedRows o event (o.now h) (answer zone.value start stop)) s.bronze) h := by
  unfold ingest
  simp only [post_bind, post_lift, post_ask, List.nil_append, List.append_nil]
  intro zone hzone zoneTzName hname zoneTz hzoneTz
  refine post_targetDay_requested.mono fun day es hday => ?_
  obtain ⟨rfl, hday⟩ := hday
  rintro ⟨start, stop⟩ hbounds
  refine post_entsoeToken.mono fun _ es htoken => ?_
  obtain rfl := htoken
  have hrequest : request o environ event (o.now h) = .ok (zone, start, stop) := by
    simp only [request, bind_eq_ok]
    exact ⟨zone, bind_eq_ok.mp hzone, zoneTz, ⟨zoneTzName, hname, hzoneTz⟩, day, hday,
      (start, stop), hbounds, rfl⟩
  refine ((ends_actualGenerationPerType (bronzeDatabase environ)).post
    fun _ _ hfetch => hfetch).mono fun found es₁ hfetch => ?_
  obtain ⟨-, hquiet, hfound⟩ := hfetch
  cases found with
  | none =>
      obtain ⟨error, herror, hkind⟩ := hfound
      have hnone := (hans zone.value _ start stop).2 error herror hkind
      have hrows : requestedRows o event (o.now h) none = [] := by
        unfold requestedRows
        split <;> rfl
      simp only [post_pure, List.nil_append, List.append_nil]
      refine ⟨zone, start, stop, hrequest, hquiet.windows, fun s => ?_⟩
      rw [hnone, hrows, merge_nil, hquiet.bronze]
  | some fetched =>
      have hsome := (hans zone.value _ start stop).1 fetched hfound
      refine post_ingestFetched_merge.mono fun _ es₂ hmerged => ?_
      simp only [List.nil_append]
      refine ⟨zone, start, stop, hrequest, ?_, fun s => ?_⟩
      · rw [windows_append, hquiet.windows, hmerged.1]
        rfl
      · have hrows : requestedRows o event fetched.fetchedAt (some fetched.body) =
            requestedRows o event (o.now h) (some fetched.body) := by
          unfold requestedRows
          rw [parseKnownAt_congr hknown fetched.fetchedAt (o.now h)]
        rw [after_append, hmerged.2, hquiet.bronze, hsome, hrows]

end Ingest

/-! ## Two invocations with one event -/

/-- The local date a clock reading falls on. -/
def localOrdinal (zoneTz : ZoneInfo) (now : Instant) : Int :=
  (now.micros + zoneTz.fromutc now.micros) / DAY

/-- The event names its day, or the two readings fall on one local date. -/
def SameDay (o : Outside) (environ : Environ) (event : Event) (now now' : Instant) : Prop :=
  (event "valid_date").filter Value.truthy ≠ none ∨
    ∀ zoneTz, env environ "GRIDLENS_ZONE_TZ" (some "Europe/Paris") >>= o.zoneInfo = .ok zoneTz →
      localOrdinal zoneTz now = localOrdinal zoneTz now'

/-- A day is known by the start of its window. -/
theorem settlementDay_injective {day day' : Date} {zoneTz : ZoneInfo} {bounds : Instant × Instant}
    (h : settlementDay day zoneTz = .ok bounds) (h' : settlementDay day' zoneTz = .ok bounds) :
    day = day' := by
  -- the guard against ambiguous midnights makes the start lead back to the date
  have hback : ∀ {d : Date}, settlementDay d zoneTz = .ok bounds →
      bounds.1.micros + zoneTz.fromutc bounds.1.micros = d.ordinal * DAY := by
    intro d hd
    simp only [settlementDay, bind_eq_ok] at hd
    obtain ⟨next, -, _, hguard, -, -, start, hstart, stop, -, heq⟩ := hd
    obtain rfl := Except.ok.inj heq
    unfold assertUnambiguous at hguard
    simp only [bind_eq_ok] at hguard
    obtain ⟨utc, hutc, roundtrip, hroundtrip, hcheck⟩ := hguard
    rw [hstart] at hutc
    obtain rfl := Except.ok.inj hutc
    split at hcheck
    · cases hcheck
    · rename_i heq
      rw [← not_not.mp heq, Instant.ofMicros_ok hroundtrip]
  have heq : day.ordinal * DAY = day'.ordinal * DAY := (hback h).symm.trans (hback h')
  have hordinal : day.ordinal = day'.ordinal := by
    rw [DAY_eq] at heq
    omega
  exact date_eq_iff.mpr hordinal

theorem localDate_ok {zoneTz : ZoneInfo} {now : Instant} {days : Int} {day : Date}
    (h : localDate zoneTz now days = .ok day) : day.ordinal = localOrdinal zoneTz now - days := by
  unfold localDate timedelta at h
  simp only [bind_eq_ok] at h
  obtain ⟨wall, hwall, lookback, hlookback, back, hback, hday⟩ := h
  split at hlookback
  · obtain rfl := Except.ok.inj hlookback
    rw [Date.ofOrdinal_ok hday, Instant.ofMicros_ok hback, Instant.ofMicros_ok hwall, localOrdinal,
      DAY_eq]
    omega
  · cases hlookback

section Request

variable {o : Outside} {environ : Environ} {event : Event} {now now' : Instant}

theorem request_ok {r : BiddingZone × Instant × Instant}
    (h : request o environ event now = .ok r) :
    env environ "GRIDLENS_ZONE" (some "FR") >>= zoneNamed = .ok r.1 ∧ ∃ zoneTz day,
      env environ "GRIDLENS_ZONE_TZ" (some "Europe/Paris") >>= o.zoneInfo = .ok zoneTz ∧
        requestedDay o environ event now = .ok day ∧ settlementDay day zoneTz = .ok r.2 := by
  unfold request at h
  obtain ⟨zone, hzone, h⟩ := bind_eq_ok.mp h
  obtain ⟨zoneTz, hzoneTz, h⟩ := bind_eq_ok.mp h
  obtain ⟨day, hday, h⟩ := bind_eq_ok.mp h
  obtain ⟨bounds, hbounds, h⟩ := bind_eq_ok.mp h
  obtain rfl := Except.ok.inj h
  exact ⟨hzone, zoneTz, day, hzoneTz, hday, hbounds⟩

/-- Two readings of the clock ask for one day when they are on one local date. -/
theorem requestedDay_eq_iff {zoneTz : ZoneInfo} {day day' : Date}
    (hzoneTz : env environ "GRIDLENS_ZONE_TZ" (some "Europe/Paris") >>= o.zoneInfo = .ok zoneTz)
    (h : requestedDay o environ event now = .ok day)
    (h' : requestedDay o environ event now' = .ok day') :
    day = day' ↔ SameDay o environ event now now' := by
  unfold requestedDay at h h'
  unfold SameDay
  cases hasked : (event "valid_date").filter Value.truthy with
  | some asked =>
      simp only [hasked] at h h'
      rw [h] at h'
      exact iff_of_true (Except.ok.inj h') (Or.inl (by simp))
  | none =>
      simp only [hasked, hzoneTz] at h h' ⊢
      obtain ⟨days, hdays, h⟩ := bind_eq_ok.mp h
      obtain ⟨days', hdays', h'⟩ := bind_eq_ok.mp h'
      rw [hdays] at hdays'
      obtain rfl := Except.ok.inj hdays'
      have hday := localDate_ok h
      have hday' := localDate_ok h'
      constructor
      · rintro rfl
        right
        rintro _ ⟨⟩
        omega
      · rintro (hne | hsame)
        · exact absurd rfl hne
        · have hlocal := hsame zoneTz rfl
          exact date_eq_iff.mpr (by omega)

theorem request_window_eq_iff {zone zone' : BiddingZone} {start stop start' stop' : Instant}
    (h : request o environ event now = .ok (zone, start, stop))
    (h' : request o environ event now' = .ok (zone', start', stop')) :
    zone = zone' ∧ ((start, stop) = (start', stop') ↔ SameDay o environ event now now') := by
  obtain ⟨hzone, zoneTz, day, hzoneTz, hday, hbounds⟩ := request_ok h
  obtain ⟨hzone', zoneTz', day', hzoneTz', hday', hbounds'⟩ := request_ok h'
  rw [hzone] at hzone'
  rw [hzoneTz] at hzoneTz'
  obtain rfl := Except.ok.inj hzoneTz'
  refine ⟨Except.ok.inj hzone', ?_⟩
  rw [← requestedDay_eq_iff hzoneTz hday hday']
  constructor
  · intro heq
    simp only at hbounds hbounds'
    rw [← heq] at hbounds'
    exact settlementDay_injective hbounds hbounds'
  · rintro rfl
    rw [hbounds] at hbounds'
    exact Except.ok.inj hbounds'

end Request

theorem prefix_after (database : String) (s : Store) (es : Trace) :
    s.bronze <+: (s.after database es).bronze := by
  induction es generalizing s with
  | nil => exact List.prefix_refl _
  | cons e es ih => exact (Store.prefix_step database s e).trans (ih (s.step database e))

/-- One event at two readings of the clock, with anything between: the second
invocation asks for the window of the first and inserts nothing exactly when
the two readings come to one day, and every row of the answer lies inside the
window and, where the first merge dropped it as unchanged, is by then held or
still shown by the newest version. -/
theorem ingest_retry_iff {o : Outside} {environ : Environ} {event : Event}
    {answer : String → Instant → Instant → Option Bytes}
    (hans : ∀ code, o.Answers code (answer code)) (hknown : event.knownAt ≠ "")
    {h es between es' : Trace} {a a' : IngestSummary}
    (hreturn : Returns (ingest environ event) o h a es)
    (hreturn' : Returns (ingest environ event) o (h ++ es ++ between) a' es') (s : Store) :
    (windows es' = windows es ∧
        (s.after (bronzeDatabase environ) (es ++ between ++ es')).bronze =
          (s.after (bronzeDatabase environ) (es ++ between)).bronze) ↔
      SameDay o environ event (o.now h) (o.now (h ++ es ++ between)) ∧
        ∀ zone start stop, request o environ event (o.now h) = .ok (zone, start, stop) →
          ∀ row ∈ requestedRows o event (o.now h) (answer zone.value start stop),
            MergeWindow.contains ⟨start.micros, stop.micros⟩ row.validTime = true ∧
              (Unchanged s.bronze row →
                Settled (s.after (bronzeDatabase environ) (es ++ between)).bronze row) := by
  obtain ⟨zone, start, stop, hrequest, hwindows, hmerge⟩ := post_ingest_merge hans hknown a es hreturn
  obtain ⟨zone', start', stop', hrequest', hwindows', hmerge'⟩ :=
    post_ingest_merge hans hknown a' es' hreturn'
  obtain ⟨rfl, hsame⟩ := request_window_eq_iff hrequest hrequest'
  have hknownAt : requestedRows o event (o.now (h ++ es ++ between)) =
      requestedRows o event (o.now h) := by
    funext body
    unfold requestedRows
    rw [parseKnownAt_congr hknown (o.now (h ++ es ++ between)) (o.now h)]
  rw [hwindows, hwindows', after_append, hmerge', hknownAt, List.cons.injEq, eq_comm (a := (start', stop')),
    and_iff_left rfl, hsame]
  refine and_congr_right fun hday => ?_
  obtain ⟨rfl, rfl⟩ := Prod.mk.inj (hsame.mpr hday)
  rw [merge_eq_self_iff]
  -- a row the first merge did not drop as unchanged is held from then on
  have hheld : ∀ row ∈ requestedRows o event (o.now h) (answer zone.value start stop),
      ¬ Unchanged s.bronze row →
        Settled (s.after (bronzeDatabase environ) (es ++ between)).bronze row := by
    intro row hrow hun
    left
    rw [after_append]
    refine Held.mono ?_ (prefix_after _ _ between)
    rw [hmerge]
    exact held_of_merge hrow hun
  constructor
  · intro hall z u v hz row hrow
    rw [hrequest] at hz
    obtain ⟨rfl, rfl, rfl⟩ : zone = z ∧ start = u ∧ stop = v := by simpa using Except.ok.inj hz
    exact ⟨(hall row hrow).1, fun _ => (hall row hrow).2⟩
  · intro hall row hrow
    obtain ⟨hwindow, hsettled⟩ := hall zone start stop hrequest row hrow
    exact ⟨hwindow, by_cases hsettled (hheld row hrow)⟩

/-! ## A retry after midnight -/

/-- The scheduled time of 27 August 2026, and no `valid_date`. -/
def lateEvent : Event := fun name =>
  if name = "known_at" then
    some ⟨true, "2026-08-27T06:30:00Z", raise .ValueError [.text "not a number"]⟩
  else none

/-- 23:59 in Paris at first, two minutes later on the retry; entso-e has the
document of 26 August and nothing after it. -/
def lateOutside : Outside :=
  { smallOutside ["100"] with
    readers := { smallReaders with
      datetime := fun text =>
        if text = "2026-08-27T06:30:00+00:00" then .ok (noonQuarters 74 (by decide)).toDateTime
        else smallReaders.datetime text }
    now := fun h =>
      if h.isEmpty then ⟨739855 * DAY + 21 * HOUR + 59 * MINUTE, by decide⟩
      else ⟨739855 * DAY + 22 * HOUR + MINUTE, by decide⟩
    fetch := fun _ _ start _ =>
      if start.micros < 739854 * DAY then .ok ⟨augustBody, morning, 200⟩
      else .error ⟨.EntsoeNoData, []⟩ }

def lateAnswer (_ : String) (start _ : Instant) : Option Bytes :=
  if start.micros < 739854 * DAY then some augustBody else none

theorem late_answers (code : String) : lateOutside.Answers code (lateAnswer code) := by
  intro h start stop
  have hfetch : lateOutside.fetch h code start stop =
    if start.micros < 739854 * DAY then .ok ⟨augustBody, morning, 200⟩
    else .error ⟨.EntsoeNoData, []⟩ := rfl
  rw [hfetch]
  unfold lateAnswer
  split
  · refine ⟨fun fetched hfetched => ?_, fun error herror => nomatch herror⟩
    exact congrArg (fun f => some f.body) (Except.ok.inj hfetched)
  · exact ⟨fun fetched hfetched => (nomatch hfetched), fun _ _ _ => rfl⟩

/-- Both attempts return. -/
theorem late_returns : ∃ a a',
    Returns (ingest smallEnviron lateEvent) lateOutside [] a
      (ingest smallEnviron lateEvent lateOutside []).2 ∧
    Returns (ingest smallEnviron lateEvent) lateOutside
      ([] ++ (ingest smallEnviron lateEvent lateOutside []).2 ++ []) a'
      (ingest smallEnviron lateEvent lateOutside
        ([] ++ (ingest smallEnviron lateEvent lateOutside []).2 ++ [])).2 := by
  obtain ⟨a, hreturn⟩ := exists_returns (x := ingest smallEnviron lateEvent)
    (o := lateOutside) (h := []) (by decide +kernel)
  obtain ⟨a', hreturn'⟩ := exists_returns (x := ingest smallEnviron lateEvent)
    (o := lateOutside) (h := [] ++ (ingest smallEnviron lateEvent lateOutside []).2 ++ [])
    (by decide +kernel)
  exact ⟨a, a', hreturn, hreturn'⟩

/-- The retry asks for another day than the first attempt. -/
theorem late_retry_moves_window : lateEvent.knownAt ≠ "" ∧
    (∀ code, lateOutside.Answers code (lateAnswer code)) ∧ ∃ es a a' es',
      Returns (ingest smallEnviron lateEvent) lateOutside [] a es ∧
      Returns (ingest smallEnviron lateEvent) lateOutside ([] ++ es ++ []) a' es' ∧
      windows es' ≠ windows es := by
  obtain ⟨a, a', hreturn, hreturn'⟩ := late_returns
  exact ⟨by decide +kernel, late_answers, _, a, a', _, hreturn, hreturn', by decide +kernel⟩

theorem ingest_retry_iff_late : ∃ es a a' es',
    Returns (ingest smallEnviron lateEvent) lateOutside [] a es ∧
    Returns (ingest smallEnviron lateEvent) lateOutside ([] ++ es ++ []) a' es' ∧
    ((windows es' = windows es ∧
        (Store.after (bronzeDatabase smallEnviron) ⟨[], []⟩ (es ++ [] ++ es')).bronze =
          (Store.after (bronzeDatabase smallEnviron) ⟨[], []⟩ (es ++ [])).bronze) ↔
      SameDay lateOutside smallEnviron lateEvent (lateOutside.now [])
          (lateOutside.now ([] ++ es ++ [])) ∧
        ∀ zone start stop, request lateOutside smallEnviron lateEvent (lateOutside.now []) =
            .ok (zone, start, stop) →
          ∀ row ∈ requestedRows lateOutside lateEvent (lateOutside.now [])
              (lateAnswer zone.value start stop),
            MergeWindow.contains ⟨start.micros, stop.micros⟩ row.validTime = true ∧
              (Unchanged [] row → Settled
                (Store.after (bronzeDatabase smallEnviron) ⟨[], []⟩ (es ++ [])).bronze row)) := by
  obtain ⟨a, a', hreturn, hreturn'⟩ := late_returns
  exact ⟨_, a, a', _, hreturn, hreturn',
    ingest_retry_iff late_answers (by decide +kernel) hreturn hreturn' ⟨[], []⟩⟩

end Gridlens
