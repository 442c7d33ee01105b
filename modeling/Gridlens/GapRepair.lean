import Gridlens.AuditPlan
import Gridlens.Gaps
import Gridlens.IngestRetry
import Gridlens.MergedDays
import Gridlens.Rebuild

/-!
# Filling the days bronze is missing

The two tasks of `dags/bronze_backfill.py`: one asks which days of the last
week have no rows, the other asks the backfill function for the span from the
first of them to the last. The payload is JSON, so the dates and the `known_at`
of the run go through text on the way.

1. `findGaps_ok`: what the first task returns.
2. `ends_refetch_payload`: what the function does with the payload of the
   second, and `ends_backfill_windows`: what it asks of the source.
3. `filled_backfill`: the days it has gone over.
-/

namespace Gridlens

open Effects

/-! ## What the tasks compute -/

/-- `min(texts)`: the first of the least. -/
def minText : List String → Option String
  | [] => none
  | text :: texts => some (texts.foldl (fun least t => if t < least then t else least) text)

/-- `max(texts)`. -/
def maxText : List String → Option String
  | [] => none
  | text :: texts =>
      some (texts.foldl (fun greatest t => if greatest < t then t else greatest) text)

abbrev LOOKBACK_DAYS : Int := 7

/-- The window of `find_gaps`: yesterday and the days before it. The moment is
in UTC, and so is its date. -/
def gapWindow (runAfter : Instant) : Py (Date × Date) := do
  let today ← Date.ofOrdinal (runAfter.micros / DAY)
  let stop ← today.addDays (-1)
  let start ← stop.addDays (-(LOOKBACK_DAYS - 1))
  .ok (start, stop)

/-- `find_gaps`. -/
def findGaps (client : GapQuery → QueryAnswer) (runAfter : Instant) : Py (List String) := do
  let (start, stop) ← gapWindow runAfter
  let gaps ← missingSettlementDays client "gridlens_bronze" start stop
  .ok (gaps.map fun day => dateText day.ordinal)

theorem wholeSecond_inRange (moment : Instant) :
    WallInRange (moment.micros - moment.micros % SECOND) := by
  have hfirst := moment.inRange.1
  have hlast := moment.inRange.2
  have hsecond : SECOND = 1000000 := rfl
  unfold WallInRange
  rw [DAY_eq, hsecond] at *
  omega

/-- `run_after.replace(microsecond=0)`. -/
def wholeSecond (moment : Instant) : Instant :=
  ⟨moment.micros - moment.micros % SECOND, wholeSecond_inRange moment⟩

/-- An object of texts, as an event. -/
def textEvent (fields : List (String × String)) : Event := fun name =>
  (fields.lookup name).map fun text => ⟨text ≠ "", text, intOfText text⟩

/-- The payload of `backfill`, of the days from one to another. -/
def payload (runAfter : Instant) (first last : String) : Event :=
  textEvent [("start_date", first), ("end_date", last),
    ("known_at", isoformatText (wholeSecond runAfter).micros (some 0))]

/-! ## The window and the texts -/

section Texts

variable {runAfter : Instant} {start stop : Date}

/-- The window is the seven days before the date. -/
theorem gapWindow_ok (h : gapWindow runAfter = .ok (start, stop)) :
    start.ordinal = runAfter.micros / DAY - 7 ∧ stop.ordinal = runAfter.micros / DAY - 1 := by
  unfold gapWindow Date.addDays at h
  simp only [bind_eq_ok] at h
  obtain ⟨today, htoday, stop', hstop, start', hstart, heq⟩ := h
  obtain ⟨rfl, rfl⟩ := Prod.mk.inj (Except.ok.inj heq)
  have hdays : LOOKBACK_DAYS = 7 := rfl
  rw [Date.ofOrdinal_ok hstart, Date.ofOrdinal_ok hstop, Date.ofOrdinal_ok htoday]
  constructor <;> omega

theorem minText_cons {text : String} {texts : List String}
    (h : (text :: texts).Pairwise (· < ·)) : minText (text :: texts) = some text := by
  have hleast : ∀ t ∈ texts, text < t := fun t ht => List.rel_of_pairwise_cons h ht
  clear h
  show some (texts.foldl _ text) = some text
  congr 1
  induction texts with
  | nil => rfl
  | cons t texts ih =>
      rw [List.foldl_cons, if_neg (String.lt_asymm (hleast t List.mem_cons_self))]
      exact ih fun u hu => hleast u (List.mem_cons_of_mem t hu)

theorem maxText_concat {text : String} {texts : List String}
    (h : (texts ++ [text]).Pairwise (· < ·)) : maxText (texts ++ [text]) = some text := by
  cases texts with
  | nil => rfl
  | cons t texts =>
      have hgreatest : ∀ u ∈ t :: texts, u < text := fun u hu =>
        (List.pairwise_append.mp h).2.2 u hu text List.mem_cons_self
      have hmem : ∀ (us : List String) (v : String), (∀ u ∈ v :: us, u ∈ t :: texts) →
          us.foldl (fun greatest u => if greatest < u then u else greatest) v ∈ t :: texts := by
        intro us
        induction us with
        | nil => exact fun v hv => hv v List.mem_cons_self
        | cons u us ih =>
            intro v hv
            rw [List.foldl_cons]
            refine ih _ fun w hw => ?_
            rcases List.mem_cons.mp hw with rfl | hw
            · split
              · exact hv u (List.mem_cons_of_mem v List.mem_cons_self)
              · exact hv v List.mem_cons_self
            · exact hv w (List.mem_cons_of_mem v (List.mem_cons_of_mem u hw))
      show some (List.foldl _ t (texts ++ [text])) = some text
      rw [List.foldl_append]
      congr 1
      exact if_pos (hgreatest _ (hmem texts t fun u hu => hu))

/-- What `find_gaps` returns are the missing days of the week. -/
theorem findGaps_ok {bronze : String → List Row} {client : GapQuery → QueryAnswer}
    (hclient : ∀ q, AnswersWhole bronze client q) {texts : List String}
    (h : findGaps client runAfter = .ok texts) : ∃ start stop found,
      gapWindow runAfter = .ok (start, stop) ∧
      ExactlyMissing (bronze "gridlens_bronze") start stop found ∧
      texts = found.map fun day => dateText day.ordinal := by
  simp only [findGaps, bind_eq_ok] at h
  rcases h with ⟨⟨start, stop⟩, hwindow, found, hfound, heq⟩
  rcases gapWindow_ok hwindow with ⟨hstart, hstop⟩
  have hle : start.ordinal ≤ stop.ordinal := by omega
  refine ⟨start, stop, found, hwindow, ?_, (Except.ok.inj heq).symm⟩
  by_cases hbounds : Bounded start stop
  · rcases missingSettlementDays_ok "gridlens_bronze" (hclient _) hle hbounds with
      ⟨found', hok, hexact⟩
    rw [hok] at hfound
    exact Except.ok.inj hfound ▸ hexact
  · rcases missingSettlementDays_overflow hle hbounds client "gridlens_bronze" with
      ⟨message, herror⟩
    rw [herror] at hfound
    cases hfound

/-- A window is missing one list of days. -/
theorem ExactlyMissing.unique {T : List Row} {found found' : List Date}
    (h : ExactlyMissing T start stop found) (h' : ExactlyMissing T start stop found') :
    found = found' := by
  have hnodup : ∀ {found : List Date}, found.Pairwise (fun a b => a.ordinal < b.ordinal) →
      found.Nodup := by
    intro found hfound
    refine hfound.imp ?_
    rintro a b hab rfl
    exact absurd hab (lt_irrefl _)
  refine List.Perm.eq_of_pairwise ?_ h.increasing h'.increasing ?_
  · intro a b _ _ hab hba
    exact absurd hab (lt_asymm hba)
  · rw [List.perm_ext_iff_of_nodup (hnodup h.increasing) (hnodup h'.increasing)]
    exact fun day => (h.missing day).trans (h'.missing day).symm

theorem pairwise_dateTexts {found : List Date}
    (h : found.Pairwise fun a b => a.ordinal < b.ordinal) :
    (found.map fun day => dateText day.ordinal).Pairwise (· < ·) := by
  rw [List.pairwise_map]
  refine h.imp ?_
  intro a b hab
  exact dateText_lt hab a.inRange.1 b.inRange.2

/-- The least and the greatest text are those of the first and the last day. -/
theorem exists_span {found : List Date} (h : found.Pairwise fun a b => a.ordinal < b.ordinal)
    (hsome : found ≠ []) : ∃ first last, found.head? = some first ∧ found.getLast? = some last ∧
      minText (found.map fun day => dateText day.ordinal) = some (dateText first.ordinal) ∧
      maxText (found.map fun day => dateText day.ordinal) = some (dateText last.ordinal) ∧
      ∀ day ∈ found, first.ordinal ≤ day.ordinal ∧ day.ordinal ≤ last.ordinal := by
  have htexts := pairwise_dateTexts h
  rcases List.exists_cons_of_ne_nil hsome with ⟨first, later, hfirst⟩
  rcases List.eq_nil_or_concat found with hnil | ⟨earlier, last, hlast⟩
  · exact absurd hnil hsome
  rw [List.concat_eq_append] at hlast
  refine ⟨first, last, ?_, ?_, ?_, ?_, ?_⟩
  · rw [hfirst, List.head?_cons]
  · rw [hlast, List.getLast?_concat]
  · rw [hfirst, List.map_cons] at htexts ⊢
    exact minText_cons htexts
  · rw [hlast, List.map_append, List.map_singleton] at htexts ⊢
    exact maxText_concat htexts
  · intro day hday
    constructor
    · rw [hfirst] at h hday
      rcases List.mem_cons.mp hday with rfl | hlater
      · exact le_refl _
      · exact (List.rel_of_pairwise_cons h hlater).le
    · rw [hlast] at h hday
      rcases List.mem_append.mp hday with hearlier | hone
      · exact ((List.pairwise_append.mp h).2.2 day hearlier last List.mem_cons_self).le
      · rw [List.mem_singleton.mp hone]

end Texts

/-! ## The function -/

/-- The readers read what `isoformat` writes. -/
structure ReadsIso (readers : Readers) : Prop where
  date : ∀ day : Date, readers.date (dateText day.ordinal) = .ok day
  datetime : ∀ moment : Instant,
    readers.datetime (isoformatText moment.micros (some 0)) = .ok moment.toDateTime

/-- The settings of the function: French days, and the table the gaps are
looked for in. -/
structure Deployed (o : Outside) (environ : Environ) (zone : BiddingZone) : Prop where
  zone : env environ "GRIDLENS_ZONE" (some "FR") >>= zoneNamed = .ok zone
  zoneTz : env environ "GRIDLENS_ZONE_TZ" (some "Europe/Paris") >>= o.zoneInfo = .ok PARIS
  database : bronzeDatabase environ = "gridlens_bronze"
  readers : ReadsIso o.readers

/-- What the function is asked for by a payload. -/
def repairArgs (zone : BiddingZone) (runAfter : Instant) (first last : Date)
    (stagingBucket workgroup : String) : BackfillArgs where
  start := first
  stop := last
  knownAt := (wholeSecond runAfter).toDateTime
  zone := zone
  zoneTz := PARIS
  stagingBucket := stagingBucket
  database := "gridlens_bronze"
  workgroup := workgroup

theorem replaceZ_eq_self {text : String} (h : 'Z' ∉ text.toList) : replaceZ text = text := by
  have hflat : ∀ s : List Char, 'Z' ∉ s →
      (s.flatMap fun c => if c = 'Z' then "+00:00".toList else [c]) = s := by
    intro s hs
    induction s with
    | nil => rfl
    | cons c s ih =>
        rw [List.mem_cons, not_or] at hs
        rw [List.flatMap_cons, if_neg (Ne.symm hs.1), ih hs.2]
        rfl
  unfold replaceZ
  rw [hflat _ h, String.ofList_toList]

theorem isoformat_fits {moment : Int} (h : WallInRange moment) :
    List.Forall₂ (fun field n => n < 10 ^ field.1) ISO
      [(civilOf (moment / DAY)).year, (civilOf (moment / DAY)).month,
        (civilOf (moment / DAY)).day, (moment % DAY / HOUR).toNat,
        (moment % HOUR / MINUTE).toNat, (moment % MINUTE / SECOND).toNat] := by
  have hrange : 1 ≤ moment / DAY ∧ moment / DAY ≤ MAX_ORDINAL := by
    rcases h with ⟨hfirst, hlast⟩
    have hmax : MAX_ORDINAL = 3652059 := rfl
    rw [DAY_eq] at hfirst hlast ⊢
    omega
  rcases Civil.bounds (ordinal_civilOf hrange) with ⟨hyear, hmonth, hday⟩
  rcases clock moment with ⟨hhour, hminute, hsecond, -, -⟩
  refine .cons ?_ (.cons ?_ (.cons ?_ (.cons ?_ (.cons ?_ (.cons ?_ .nil)))))
  all_goals simp only
  all_goals omega

theorem not_mem_isoformatText (moment : Instant) :
    'Z' ∉ (isoformatText moment.micros (some 0)).toList := by
  have hoffset : 'Z' ∉ (offsetText (some 0)).toList := by decide +kernel
  have hword : 'Z' ∉ ISO.flatMap Prod.snd := by decide
  have hmicro := (clock moment.micros).2.2.2.1
  unfold isoformatText
  simp only [String.toList_append, String.toList_ofList, List.mem_append, not_or]
  refine ⟨⟨fun hmem => ?_, fun hmem => ?_⟩, hoffset⟩
  · rcases Text.mem_writeLayout (isoformat_fits moment.inRange) hmem with
      hdigit | ⟨field, hfield, hin⟩
    · exact absurd hdigit (by decide)
    · exact hword (List.mem_flatMap.mpr ⟨field, hfield, hin⟩)
  · unfold fractionText at hmem
    split at hmem
    · exact absurd hmem (by decide)
    · rw [String.toList_append, String.toList_ofList, List.mem_append] at hmem
      rcases hmem with hpoint | hdigit
      · exact absurd hpoint (by decide)
      · rw [String.toList_ofList] at hdigit
        exact absurd (Text.isDigit_fixed hmicro hdigit) (by decide)

theorem isoformatText_ne_empty (moment : Instant) :
    isoformatText moment.micros (some 0) ≠ "" := by
  intro hempty
  have hlength := congrArg (fun text => text.toList.length) hempty
  have hoffset : (offsetText (some 0)).toList.length = 6 := by decide +kernel
  simp [isoformatText, hoffset] at hlength

section Payload

variable {o : Outside} {environ : Environ} {zone : BiddingZone} {runAfter : Instant}
  {first last : Date} {h : Trace}

theorem payload_knownAt (first last : String) : (payload runAfter first last).knownAt =
    isoformatText (wholeSecond runAfter).micros (some 0) := rfl

theorem parseKnownAt_payload (hreads : ReadsIso o.readers) (first last : String) (now : Instant) :
    parseKnownAt o.readers (payload runAfter first last).knownAt now =
      .ok (wholeSecond runAfter) := by
  rw [payload_knownAt]
  unfold parseKnownAt
  rw [if_neg (isoformatText_ne_empty _), replaceZ_eq_self (not_mem_isoformatText _),
    hreads.datetime, ok_bind]
  show Instant.ofMicros ((wholeSecond runAfter).micros - 0) = _
  rw [Int.sub_zero]
  exact Instant.ofMicros_of_inRange (wholeSecond runAfter).inRange

theorem window_payload (hreads : ReadsIso o.readers) (knownAt : Instant) (zoneTz : ZoneInfo) :
    window o.readers (payload runAfter (dateText first.ordinal) (dateText last.ordinal)) knownAt
      zoneTz = .ok (first, last) := by
  show (o.readers.date (dateText first.ordinal) >>= fun start =>
    o.readers.date (dateText last.ordinal) >>= fun stop => .ok (start, stop)) = _
  rw [hreads.date, ok_bind, hreads.date, ok_bind]

/-- The function does the backfill of the span its event comes to, or raises
before anything. -/
theorem ends_refetch_span {event : Event} {knownAt : Instant}
    (hdeployed : Deployed o environ zone)
    (hknown : ∀ now, parseKnownAt o.readers event.knownAt now = .ok knownAt)
    (hspan : ∀ start stop, window o.readers event knownAt PARIS = .ok (start, stop) →
      start = first ∧ stop = last)
    {Q : Py BackfillSummary → Trace → Prop} (herror : ∀ error, Q (.error error) [])
    (hbackfill : ∀ stagingBucket workgroup, Ends o (backfill {
        start := first
        stop := last
        knownAt := knownAt.toDateTime
        zone := zone
        zoneTz := PARIS
        stagingBucket := stagingBucket
        database := "gridlens_bronze"
        workgroup := workgroup }) Q h) :
    Ends o (refetch environ event) Q h := by
  rcases bind_eq_ok.mp hdeployed.zoneTz with ⟨name, hname, hzoneTz⟩
  have hzone := hdeployed.zone
  have hdatabase := hdeployed.database
  rw [env_default] at hzone
  unfold bronzeDatabase at hdatabase
  unfold refetch
  simp only [ends_bind (x := Program.lift _), ends_bind (x := Program.ask _), ends_lift, ends_ask,
    datetimeNow, hname, hzoneTz, List.append_nil, hknown]
  cases hwindow : window o.readers event knownAt PARIS with
  | error error => exact herror error
  | ok bounds =>
      rcases bounds with ⟨start, stop⟩
      rcases hspan start stop hwindow with ⟨rfl, rfl⟩
      refine ends_bind_silent leaves_entsoeToken herror fun _ => ?_
      cases hbucket : env environ "GRIDLENS_RAW_BUCKET" none with
      | error error =>
          rw [ends_bind, ends_lift]
          exact herror error
      | ok stagingBucket =>
          simp only [ends_bind, ends_lift, env_default, hzone, hdatabase, List.nil_append,
            List.append_nil]
          exact hbackfill _ _

theorem ends_refetch_payload (hdeployed : Deployed o environ zone)
    {Q : Py BackfillSummary → Trace → Prop} (herror : ∀ error, Q (.error error) [])
    (hbackfill : ∀ stagingBucket workgroup,
      Ends o (backfill (repairArgs zone runAfter first last stagingBucket workgroup)) Q h) :
    Ends o (refetch environ
      (payload runAfter (dateText first.ordinal) (dateText last.ordinal))) Q h := by
  refine ends_refetch_span hdeployed (parseKnownAt_payload hdeployed.readers _ _) ?_ herror
    hbackfill
  intro start stop hwindow
  rw [window_payload hdeployed.readers] at hwindow
  rcases Prod.mk.inj (Except.ok.inj hwindow) with ⟨rfl, rfl⟩
  exact ⟨rfl, rfl⟩

/-- The windows that a day asks for: its own. -/
theorem ends_backfillDay_windows {args : BackfillArgs} (counters : BackfillState) (day : Date) :
    Ends o (backfillDay args counters day) (fun r es => match r with
      | .ok _ => ∃ bounds, settlementDay day args.zoneTz = .ok bounds ∧ windows es = [bounds]
      | .error _ => windows es = [] ∨
          ∃ bounds, settlementDay day args.zoneTz = .ok bounds ∧ windows es = [bounds]) h := by
  unfold backfillDay
  rw [ends_bind, ends_lift]
  cases hday : settlementDay day args.zoneTz with
  | error error => exact Or.inl rfl
  | ok bounds =>
      simp only [List.nil_append, List.append_nil]
      rw [ends_bind]
      refine (ends_actualGenerationPerType args.database).mono fun r es₁ hfetch => ?_
      rcases hfetch with ⟨-, hquiet, -⟩
      cases r with
      | error error => exact Or.inr ⟨bounds, rfl, hquiet.windows⟩
      | ok found =>
          cases found with
          | none =>
              simp only [ends_pure, List.append_nil]
              exact ⟨bounds, rfl, hquiet.windows⟩
          | some fetched =>
              simp only
              rw [ends_bind, ends_gate]
              cases o.gate fetched.body args.knownAt with
              | error error =>
                  simp only [List.append_nil]
                  exact Or.inr ⟨bounds, rfl, hquiet.windows⟩
              | ok result =>
                  simp only [List.nil_append, List.append_nil]
                  rw [ends_bind]
                  refine (ends_stagingWrite args.database).mono fun r es₂ hstaged => ?_
                  have hasked : windows (es₁ ++ es₂) = [bounds] := by
                    rw [windows_append, hquiet.windows, hstaged.1.windows]
                    rfl
                  cases r with
                  | error error => exact Or.inr ⟨bounds, rfl, hasked⟩
                  | ok batch =>
                      simp only
                      split
                      · simp only [ends_pure, List.append_nil]
                        exact ⟨bounds, rfl, hasked⟩
                      · rw [ends_bind]
                        refine (ends_mergeBatch args.database).mono fun r es₃ hmerged => ?_
                        have hasked' : windows (es₁ ++ (es₂ ++ es₃)) = [bounds] := by
                          rw [← List.append_assoc, windows_append, hasked, hmerged.1]
                          rfl
                        cases r with
                        | error error => exact Or.inr ⟨bounds, rfl, hasked'⟩
                        | ok scanned =>
                            simp only [ends_pure, List.append_nil]
                            exact ⟨bounds, rfl, hasked'⟩

/-- A backfill asks for the windows of its first few days, in order. -/
theorem ends_backfill_windows {args : BackfillArgs} :
    Ends o (backfill args) (fun _ es => ∃ asked, asked <+: days args.start args.stop ∧
      List.Forall₂ (fun day bounds => settlementDay day args.zoneTz = .ok bounds) asked
        (windows es)) h := by
  have hnext : ∀ {done : List Date} {day : Date} {es es' : Trace} {bounds : Instant × Instant},
      List.Forall₂ (fun day bounds => settlementDay day args.zoneTz = .ok bounds) done
        (windows es) → settlementDay day args.zoneTz = .ok bounds → windows es' = [bounds] →
      List.Forall₂ (fun day bounds => settlementDay day args.zoneTz = .ok bounds)
        (done ++ [day]) (windows (es ++ es')) := by
    intro done day es es' bounds hdone hday hes'
    rw [windows_append, hes']
    exact List.rel_append hdone (.cons hday .nil)
  unfold backfill
  rw [ends_bind, ends_lift]
  cases args.check with
  | error error => exact ⟨[], List.nil_prefix, .nil⟩
  | ok _ =>
      simp only [List.nil_append, List.append_nil]
      rw [ends_bind]
      have hloop := ends_foldlM (o := o) (h := h) (g := backfillDay args)
        (l := days args.start args.stop) (s := ⟨0, 0, [], 0⟩)
        (I := fun done es => List.Forall₂
          (fun day bounds => settlementDay day args.zoneTz = .ok bounds) done (windows es))
        (J := fun es => ∃ asked, asked <+: days args.start args.stop ∧ List.Forall₂
          (fun day bounds => settlementDay day args.zoneTz = .ok bounds) asked (windows es))
        ?_ .nil
      · refine hloop.mono fun r es hend => ?_
        cases r with
        | error error => exact hend
        | ok counters =>
            simp only [ends_pure, List.append_nil]
            exact ⟨_, List.prefix_refl _, hend⟩
      · intro done day hpre counters es hdone
        refine (ends_backfillDay_windows counters day).mono fun r es' hday => ?_
        cases r with
        | ok _ =>
            rcases hday with ⟨bounds, hbounds, hes'⟩
            exact hnext hdone hbounds hes'
        | error error =>
            rcases hday with hnone | ⟨bounds, hbounds, hes'⟩
            · rw [windows_append, hnone, List.append_nil]
              exact ⟨done, (List.prefix_append done [day]).trans hpre, hdone⟩
            · exact ⟨done ++ [day], hpre, hnext hdone hbounds hes'⟩

end Payload

/-! ## Days that are filled -/

section Fills

variable {o : Outside} {answer : Instant → Instant → Option Bytes} {T : List Row} {day : Date}

/-- A backfill that returns has filled all of its days. -/
theorem filled_backfill (args : BackfillArgs) (hparis : args.zoneTz = PARIS)
    (hans : o.Answers args.zone.value answer)
    (s : Store) {h es : Trace} {summary : BackfillSummary}
    (hreturn : backfill args o h = (.ok summary, es)) (hday : day ∈ days args.start args.stop) :
    Filled o args.knownAt answer (s.after args.database es).bronze day := by
  have hlanded := ends_backfill (h := h) hans s
  unfold Ends at hlanded
  rw [hreturn] at hlanded
  rw [hlanded, landDay_paris args hparis]
  exact filled_mergeDays hday

/-- What is missing later was missing before. -/
theorem MissingDay.mono {T' : List Row} {start stop : Date} (h : MissingDay T' start stop day)
    (hT : T ⊆ T') : MissingDay T start stop day := ⟨h.1, fun r hr => h.2 r (hT hr)⟩

end Fills

end Gridlens
