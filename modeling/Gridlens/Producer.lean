import Gridlens.Jobs

/-!
# The stream producer

`gridlens.stream.producer.poll_once`: fetch the day or days in play, hand
every record and every refusal to the producer, and raise unless the broker
took them all. The producer keeps what it is handed in a local queue; each
`poll` and the closing `flush` serve the delivery callbacks of the messages
the broker has answered for by then, in queue order.
-/

namespace Gridlens

open Effects.Program (lift ask act)

/-! ## The producer -/

/-- The messages of one call, and the errors its delivery callback was given. -/
structure Delivery where
  tickets : List Nat
  failures : List String

/-- `producer.produce(message, on_delivery=delivered)`. -/
def produce (d : Delivery) (message : Message) : Job Delivery :=
  act fun o h =>
    ((o.produce h message).map fun _ => { d with tickets := d.tickets ++ [h.length] },
      .produced h.length message (o.produce h message))

/-- The callbacks that are due: the queued messages the broker has answered for. -/
def reports (o : Outside) (h : Trace) : List (Nat × Option String) :=
  (queueOf h).filterMap fun ticket => (o.report h ticket).map fun error => (ticket, error)

/-- `delivered(error, message)`, for the messages of this call. -/
def Delivery.delivered (d : Delivery) (report : Nat × Option String) : List String :=
  match report with
  | (ticket, some error) => if ticket ∈ d.tickets then [error] else []
  | (_, none) => []

/-- `producer.poll`: the callbacks that are due. -/
def servePoll (d : Delivery) : Job Delivery := fun o h =>
  (.ok { d with failures := d.failures ++ (reports o h).flatMap d.delivered },
    (reports o h).map fun report => .served report.1 report.2)

/-- `producer.flush`: the callbacks that are due, and how many messages wait still. -/
def flush (d : Delivery) : Job (Delivery × Nat) := do
  let d ← servePoll d
  let unsent ← ask fun _ h => (queueOf h).length
  return (d, unsent)

/-! ## `poll_once` -/

abbrev YESTERDAY_UNTIL_HOUR : Int := 3

def daysToPoll (now : Instant) (zoneTz : ZoneInfo) : Py (List Date) := do
  let local_ ← Instant.ofMicros (now.micros + zoneTz.fromutc now.micros)
  let today ← Date.ofOrdinal (local_.micros / DAY)
  if local_.micros % DAY / HOUR < YESTERDAY_UNTIL_HOUR then do
    let yesterday ← today.addDays (-1)
    .ok [yesterday, today]
  else .ok [today]

/-- `moment.replace(microsecond=0)`. -/
def Instant.toSecond (moment : Instant) : Instant where
  micros := moment.micros - moment.micros % SECOND
  inRange := by
    have h : 86400000000 ≤ moment.micros ∧ moment.micros < 3652060 * 86400000000 := moment.inRange
    show 86400000000 ≤ moment.micros - moment.micros % 1000000 ∧
      moment.micros - moment.micros % 1000000 < 3652060 * 86400000000
    omega

/-- The arguments of `poll_once`. -/
structure PollArgs where
  schemaId : Int
  now : Instant
  zone : BiddingZone
  zoneTz : ZoneInfo

/-- The local variables of the loop over the days. -/
structure PollState where
  delivery : Delivery
  published : Nat
  quarantined : Nat
  emptyDays : List Date
  /-- The `day`, `records` and `gaps` of each day with data. -/
  days : List (Date × Nat × Nat)

structure PollSummary where
  published : Nat
  quarantined : Nat
  emptyDays : List Date
  days : List (Date × Nat × Nat)
  polledAt : Instant

/-- One record, and the callbacks that have come back meanwhile. -/
def publish (args : PollArgs) (d : Delivery) (record : GenerationRecord) : Job Delivery := do
  let (key, value) ← lift (← ask fun o _ => o.encode args.schemaId record)
  let d ← produce d (.observation record key value)
  servePoll d

def pollDay (args : PollArgs) (s : PollState) (day : Date) : Job PollState := do
  let (start, stop) ← lift (settlementDay day args.zoneTz)
  match ← actualGenerationPerType args.zone.value start stop with
  | none => return { s with emptyDays := s.emptyDays ++ [day] }
  | some fetched =>
      let knownAt := fetched.fetchedAt.toSecond
      let result ← gate fetched.body knownAt.toDateTime
      let d ← result.records.foldlM (publish args) s.delivery
      -- refusals are not followed by a poll
      let d ← result.violations.foldlM (fun d violation => produce d (.refusal knownAt violation)) d
      return {
        delivery := d
        published := s.published + result.records.length
        quarantined := s.quarantined + result.violations.length
        emptyDays := s.emptyDays
        days := s.days ++ [(day, result.records.length, result.gaps.length)] }

/-- The error that counts refusals. -/
def deliveryFailed (unsent : Nat) (failures : List String) : PyError where
  kind := .DeliveryFailed
  message := [.int unsent, .text " messages still queued, ",
    .int failures.length, .text " refused: ["] ++
    [Piece.text ", "].intercalate ((failures.take 3).map fun error => [.repr error]) ++
    [.text "]"]

def pollOnce (args : PollArgs) : Job PollSummary := do
  let days ← lift (daysToPoll args.now args.zoneTz)
  let s ← days.foldlM (pollDay args) ⟨⟨[], []⟩, 0, 0, [], []⟩
  let (d, unsent) ← flush s.delivery
  if unsent ≠ 0 ∨ d.failures ≠ [] then
    lift (.error (deliveryFailed unsent d.failures))
  else return ⟨s.published, s.quarantined, s.emptyDays, s.days, args.now⟩

end Gridlens
