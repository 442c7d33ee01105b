import Gridlens.Outside

/-!
# The jobs that load bronze

`gridlens.handlers.ingest_entsoe`, `gridlens.lake.backfill` and
`gridlens.handlers.backfill_entsoe`, with the parts of `gridlens.lake.staging`,
`gridlens.lake.bronze` and `gridlens.contracts.quarantine` they write through.
Both fetch, parse, gate, stage and merge a settlement day; the daily ingest
does it for one day and keeps the raw document and the refused rows, a
backfill for each day of a range.
-/

namespace Gridlens

open Effects.Program (lift ask)

/-! ## `parse_known_at` and the days -/

/-- `value.replace("Z", "+00:00")`. -/
def replaceZ (value : String) : String :=
  String.ofList (value.toList.flatMap fun c => if c = 'Z' then "+00:00".toList else [c])

def parseKnownAt (readers : Readers) (value : String) (now : Instant) : Py Instant :=
  if value = "" then .ok now
  else do
    let moment ← readers.datetime (replaceZ value)
    match moment.utcoffset with
    | none => raise .ValueError [.text "known_at has no offset: ", .repr value]
    | some offset => Instant.ofMicros (moment.wall - offset)

/-- The `known_at` an event asks for. -/
def Event.knownAt (event : Event) : String := ((event "known_at").map Value.str).getD ""

/-- `moment.astimezone(zone_tz).date()`, `days` days earlier. -/
def localDate (zone : ZoneInfo) (moment : Instant) (days : Int) : Py Date := do
  let wall ← Instant.ofMicros (moment.micros + zone.fromutc moment.micros)
  let lookback ← timedelta (days * DAY)
  let wall ← Instant.ofMicros (wall.micros - lookback)
  Date.ofOrdinal (wall.micros / DAY)

/-- Every date from `start` to `stop` inclusive. -/
def days (start stop : Date) : List Date :=
  List.ofFn fun i : Fin (stop.ordinal - start.ordinal + 1).toNat =>
    ⟨start.ordinal + i, by
      have hstart := start.inRange
      have hstop := stop.inRange
      have hi := i.isLt
      omega⟩

/-! ## Reading a document -/

/-- `parse_generation(body)`. -/
def Outside.document (o : Outside) (body : Bytes) : Py Document :=
  o.fromstring body >>= parseGeneration o.readers

/-- `apply_gate(parse_generation(body), known_at)`. -/
def Outside.gate (o : Outside) (body : Bytes) (knownAt : DateTime) : Py GateResult :=
  o.document body >>= fun document => applyGate document knownAt

def gate (body : Bytes) (knownAt : DateTime) : Job GateResult := do
  lift (← ask fun o _ => o.gate body knownAt)

/-! ## Writing -/

/-- `StagingArea.write`: the batch id and the number of rows. -/
def stagingWrite (bucket : String) (records : List GenerationRecord) : Job (String × Nat) := do
  if records = [] then return ("", 0)
  else
    let id ← uuid4
    putObject bucket (.staging id records)
    return (id.hex, records.length)

/-- `S3Quarantine.write`. -/
def quarantineWrite (bucket : String) (violations : List Violation) (seenAt : Instant) :
    Job Nat := do
  -- no empty object
  if violations = [] then return 0
  else
    let id ← uuid4
    putObject bucket (.quarantine (seenAt.micros / DAY) id seenAt violations)
    return violations.length

/-- `str.isalnum`, on the plain text a batch id is. -/
def isalnum (text : String) : Bool := text ≠ "" && text.toList.all Char.isAlphanum

/-- The checks `merge_batch` makes before it sends anything. The bounds are UTC
instants, as it asks of them. -/
def checkBatch (batchId : String) (windowStart windowEnd : Instant) : Py Unit :=
  if batchId = "" then raise .ValueError [.text "batch_id is required"]
  else if isalnum batchId = false then
    raise .ValueError [.text "batch_id is not a plain hex string: ", .repr batchId]
  else if windowEnd.micros ≤ windowStart.micros then
    raise .ValueError [.text "window_end must be after window_start"]
  else .ok ()

/-- `merge_batch`: the bytes the statement scanned. -/
def mergeBatch (database workgroup batchId : String) (windowStart windowEnd : Instant) :
    Job Nat := do
  lift (checkBatch batchId windowStart windowEnd)
  let execution ← executeMerge database workgroup batchId ⟨windowStart.micros, windowEnd.micros⟩
  if execution.succeeded then return execution.dataScannedInBytes
  else
    lift (raise .BronzeLoadFailed [.text (execution.stateChangeReason.getD "no reason given")])

/-! ## `ingest_entsoe.handler` -/

/-- What the handler reports. -/
inductive IngestSummary where
  | noData (zone : BiddingZone) (validDate : Date)
  | done (zone : BiddingZone) (validDate : Date) (knownAt : Instant) (rawId : UUID)
      (rawBytes accepted quarantined gaps : Nat) (batchId : String)
      (loadedRows loadScannedBytes : Nat)

/-- The settlement day to fetch, defaulting to the last complete one. -/
def targetDay (environ : Environ) (event : Event) : Job Date := do
  match (event "valid_date").filter Value.truthy with
  | some asked => lift (← ask fun o _ => o.readers.date asked.str)
  | none =>
      let lookback ← lift (env environ "GRIDLENS_LOOKBACK_DAYS" (some "1"))
      let lookback ← lift (← ask fun o _ => o.readers.int lookback)
      let zoneTz ← lift (env environ "GRIDLENS_ZONE_TZ" (some "Europe/Paris"))
      let zoneTz ← lift (← ask fun o _ => o.zoneInfo zoneTz)
      let now ← datetimeNow
      lift (localDate zoneTz now lookback)

/-- The handler from a fetched document on. -/
def ingestFetched (environ : Environ) (event : Event) (zone : BiddingZone) (day : Date)
    (start stop : Instant) (fetched : FetchResult) : Job IngestSummary := do
  let knownAt ← lift (← ask fun o _ => parseKnownAt o.readers event.knownAt fetched.fetchedAt)
  let rawId ← uuid4
  let rawBucket ← lift (env environ "GRIDLENS_RAW_BUCKET" none)
  -- the raw document first: it is kept even when the next line raises
  putObject rawBucket (.raw zone day (knownAt.micros / SECOND) rawId fetched.body)
  let result ← gate fetched.body knownAt.toDateTime
  let quarantineBucket ← lift (env environ "GRIDLENS_QUARANTINE_BUCKET" none)
  let quarantined ← quarantineWrite quarantineBucket result.violations knownAt
  let (batchId, staged) ← stagingWrite rawBucket result.records
  let scanned ←
    if staged = 0 then pure 0
    else do
      let database ← lift (env environ "GRIDLENS_BRONZE_DATABASE" (some "gridlens_bronze"))
      let workgroup ← lift (env environ "GRIDLENS_ATHENA_WORKGROUP" (some "gridlens"))
      mergeBatch database workgroup batchId start stop
  return .done zone day knownAt rawId fetched.body.length result.accepted quarantined
    result.gaps.length batchId staged scanned

/-- `ingest_entsoe.handler(event)`, in a process with these settings. -/
def ingest (environ : Environ) (event : Event) : Job IngestSummary := do
  let zone ← lift (env environ "GRIDLENS_ZONE" (some "FR") >>= zoneNamed)
  let zoneTz ← lift (env environ "GRIDLENS_ZONE_TZ" (some "Europe/Paris"))
  let zoneTz ← lift (← ask fun o _ => o.zoneInfo zoneTz)
  let day ← targetDay environ event
  let (start, stop) ← lift (settlementDay day zoneTz)
  entsoeToken environ
  match ← actualGenerationPerType zone.value start stop with
  | none => return .noData zone day
  | some fetched => ingestFetched environ event zone day start stop fetched

/-! ## `backfill` -/

abbrev MAX_DAYS : Int := 31

/-- The arguments of `backfill`. -/
structure BackfillArgs where
  start : Date
  stop : Date
  knownAt : DateTime
  zone : BiddingZone
  zoneTz : ZoneInfo
  stagingBucket : String
  database : String
  workgroup : String

/-- The counters of the loop. -/
structure BackfillState where
  accepted : Nat
  mergedDays : Nat
  emptyDays : List Date
  scanned : Nat

/-- What `backfill` reports. -/
structure BackfillSummary where
  zone : BiddingZone
  start : Date
  stop : Date
  knownAt : DateTime
  daysMerged : Nat
  daysEmpty : List Date
  rows : Nat
  scannedBytes : Nat

/-- One day of the range. -/
def backfillDay (args : BackfillArgs) (s : BackfillState) (day : Date) : Job BackfillState := do
  let (windowStart, windowEnd) ← lift (settlementDay day args.zoneTz)
  match ← actualGenerationPerType args.zone.value windowStart windowEnd with
  | none => return { s with emptyDays := s.emptyDays ++ [day] }
  | some fetched =>
      -- of the result only the records are read
      let result ← gate fetched.body args.knownAt
      let (batchId, staged) ← stagingWrite args.stagingBucket result.records
      if staged = 0 then return { s with emptyDays := s.emptyDays ++ [day] }
      else
        let scanned ← mergeBatch args.database args.workgroup batchId windowStart windowEnd
        return { s with
          accepted := s.accepted + staged
          mergedDays := s.mergedDays + 1
          scanned := s.scanned + scanned }

/-- The checks `backfill` makes before it fetches anything. -/
def BackfillArgs.check (args : BackfillArgs) : Py Unit :=
  if args.stop.ordinal < args.start.ordinal then
    raise .ValueError [.text "end is before start"]
  else if args.stop.ordinal - args.start.ordinal + 1 > MAX_DAYS then
    raise .ValueError [.int (args.stop.ordinal - args.start.ordinal + 1),
      .text " days is more than the ", .int MAX_DAYS, .text " day limit"]
  else if args.knownAt.utcoffset ≠ some 0 then
    raise .ValueError [.text "known_at must be utc aware"]
  else .ok ()

def backfill (args : BackfillArgs) : Job BackfillSummary := do
  lift args.check
  let s ← (days args.start args.stop).foldlM (backfillDay args) ⟨0, 0, [], 0⟩
  return ⟨args.zone, args.start, args.stop, args.knownAt, s.mergedDays, s.emptyDays, s.accepted,
    s.scanned⟩

/-! ## `backfill_entsoe.handler` -/

/-- The settlement days to fetch: given outright, or counted back. -/
def window (readers : Readers) (event : Event) (knownAt : Instant) (zoneTz : ZoneInfo) :
    Py (Date × Date) :=
  match event "start_date", event "end_date", event "refetch_days" with
  | some startDate, some endDate, _ => do
      let start ← readers.date startDate.str
      let stop ← readers.date endDate.str
      .ok (start, stop)
  | _, _, some refetchDays => do
      let count ← refetchDays.int
      if count < 1 then raise .ValueError [.text "refetch_days has to be at least 1"]
      -- yesterday belongs to the ingest
      let today ← localDate zoneTz knownAt 0
      let newest ← today.addDays (-2)
      let back ← timedelta ((count - 1) * DAY)
      let oldest ← newest.addDays (-(back / DAY))
      .ok (oldest, newest)
  | _, _, none => raise .ValueError [.text "pass start_date and end_date, or refetch_days"]

/-- `backfill_entsoe.handler(event)`: the daily re-fetch, and the gap filler. -/
def refetch (environ : Environ) (event : Event) : Job BackfillSummary := do
  let zoneTz ← lift (env environ "GRIDLENS_ZONE_TZ" (some "Europe/Paris"))
  let zoneTz ← lift (← ask fun o _ => o.zoneInfo zoneTz)
  let now ← datetimeNow
  let knownAt ← lift (← ask fun o _ => parseKnownAt o.readers event.knownAt now)
  let (start, stop) ← lift (← ask fun o _ => window o.readers event knownAt zoneTz)
  entsoeToken environ
  let stagingBucket ← lift (env environ "GRIDLENS_RAW_BUCKET" none)
  let zone ← lift (env environ "GRIDLENS_ZONE" (some "FR") >>= zoneNamed)
  let database ← lift (env environ "GRIDLENS_BRONZE_DATABASE" (some "gridlens_bronze"))
  let workgroup ← lift (env environ "GRIDLENS_ATHENA_WORKGROUP" (some "gridlens"))
  backfill {
    start := start
    stop := stop
    knownAt := knownAt.toDateTime
    zone := zone
    zoneTz := zoneTz
    stagingBucket := stagingBucket
    database := database
    workgroup := workgroup }

end Gridlens
