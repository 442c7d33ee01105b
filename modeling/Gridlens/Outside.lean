import Gridlens.Bronze
import Gridlens.Gate
import Gridlens.Effects.Program

/-!
# What the jobs ask of the outside

The jobs talk to entso-e, an object store, a query engine and a broker. Each
exchange is an `Effect`, and a job is a program over them: what the outside
answers is a function of everything that happened before and of what it is
asked, so nothing is assumed about it. A write that raises may have taken
effect, the way a request that times out may have arrived.

Objects and messages keep the values they are serialised from. The bronze
table and the staging files are replayed from the effects (`Store`), the
producer's local queue likewise (`queueOf`).
-/

namespace Gridlens

abbrev Bytes := List UInt8

/-- What a fetch returns. -/
structure FetchResult where
  body : Bytes
  fetchedAt : Instant
  statusCode : Int

/-- `uuid.uuid4()`. -/
abbrev UUID := Fin (2 ^ 128)

/-- The 32 digits of an identifier. -/
def UUID.hex (id : UUID) : String :=
  String.ofList ((List.range 32).map fun i => Nat.digitChar (id.val / 16 ^ (31 - i) % 16))

/-! ## Objects and messages -/

/-- An object, under the parts of its key. -/
inductive Object where
  /-- `entsoe/a75/zone=../valid_date=../<known_at, to the second>-<id>.xml` -/
  | raw (zone : BiddingZone) (validDate : Date) (knownAtSecond : Int) (id : UUID) (body : Bytes)
  /-- `entsoe/seen_date=../<id>.jsonl` -/
  | quarantine (seenDate : Int) (id : UUID) (seenAt : Instant) (violations : List Violation)
  /-- `staging/generation/batch_id=<id>/part.jsonl` -/
  | staging (id : UUID) (records : List GenerationRecord)

/-- A message, on the topic of its kind. -/
inductive Message where
  /-- `gridlens.entsoe.generation.v1`, with the key and the value it is encoded to. -/
  | observation (record : GenerationRecord) (key value : Bytes)
  /-- `gridlens.entsoe.generation.quarantine.v1` -/
  | refusal (seenAt : Instant) (violation : Violation)

/-! ## Effects -/

/-- How a write ends: with an answer, or with an exception. -/
inductive Outcome (α : Type) where
  | answered (a : α)
  | raised (error : PyError) (done : Bool)

def Outcome.result {α : Type} : Outcome α → Py α
  | .answered a => .ok a
  | .raised error _ => .error error

@[simp] theorem Outcome.result_eq_ok {α : Type} {x : Outcome α} {a : α} :
    x.result = .ok a ↔ x = .answered a := by
  cases x <;> simp [Outcome.result]

/-- Whether the object is there afterwards. -/
def Outcome.stored : Outcome Unit → Bool
  | .answered _ => true
  | .raised _ done => done

/-- The last status of a query, read once it is terminal. -/
structure Execution where
  succeeded : Bool
  stateChangeReason : Option String
  dataScannedInBytes : Nat

/-- Whether the statement took effect. -/
def Outcome.committed : Outcome Execution → Bool
  | .answered execution => execution.succeeded
  | .raised _ done => done

/-- One exchange with the outside. -/
inductive Effect where
  /-- A call of an entry point begins. -/
  | began
  | fetched (zone : String) (start stop : Instant) (answer : Py FetchResult)
  | put (bucket : String) (object : Object) (outcome : Outcome Unit)
  | merged (database workgroup batchId : String) (window : MergeWindow)
      (outcome : Outcome Execution)
  /-- A message handed to the producer; the ticket tells the messages apart. -/
  | produced (ticket : Nat) (message : Message) (answer : Py Unit)
  /-- A delivery callback, with the error it is given. -/
  | served (ticket : Nat) (error : Option String)

/-- What happened so far. -/
abbrev Trace := List Effect

/-- The world the jobs run in. -/
structure Outside where
  readers : Readers
  fromstring : Bytes → Py Element
  zoneInfo : String → Py ZoneInfo
  now : Trace → Instant
  uuid4 : Trace → UUID
  /-- The ssm parameter of this name, or the copy a warm process kept. -/
  token : Trace → String → Py String
  fetch : Trace → String → Instant → Instant → Py FetchResult
  putObject : Trace → String → Object → Outcome Unit
  execute : Trace → String → MergeWindow → Outcome Execution
  /-- `serialization.key` and `serialization.encode`. -/
  encode : Int → GenerationRecord → Py (Bytes × Bytes)
  produce : Trace → Message → Py Unit
  /-- What the broker has said of a message by now. -/
  report : Trace → Nat → Option (Option String)

/-- A job of the repository. -/
abbrev Job := Effects.Program Outside Effect PyError

open Effects.Program (lift ask act)

/-! ## The exchanges -/

def datetimeNow : Job Instant := ask fun o h => o.now h

def uuid4 : Job UUID := ask fun o h => o.uuid4 h

/-- `client.actual_generation_per_type(zone, start, stop)`. -/
def fetch (zone : String) (start stop : Instant) : Job (Py FetchResult) :=
  act fun o h => (.ok (o.fetch h zone start stop), .fetched zone start stop (o.fetch h zone start stop))

/-- The fetch, under the `except EntsoeNoData` each of its callers has. -/
def actualGenerationPerType (zone : String) (start stop : Instant) : Job (Option FetchResult) := do
  match ← fetch zone start stop with
  | .ok fetched => return some fetched
  | .error error => if error.kind = .EntsoeNoData then return none else lift (.error error)

def putObject (bucket : String) (object : Object) : Job Unit :=
  act fun o h =>
    ((o.putObject h bucket object).result, .put bucket object (o.putObject h bucket object))

def executeMerge (database workgroup batchId : String) (window : MergeWindow) : Job Execution :=
  act fun o h =>
    ((o.execute h batchId window).result,
      .merged database workgroup batchId window (o.execute h batchId window))

/-! ## What is left behind -/

/-- The staging files, newest first, and the bronze table of one database. -/
structure Store where
  staged : List (String × List GenerationRecord)
  bronze : List Row

/-- `SELECT .. FROM staging_generation WHERE batch_id = ..`. An object put
again replaces the one before. -/
def Store.batch (s : Store) (batchId : String) : List Row :=
  ((s.staged.lookup batchId).getD []).map stagedRow

def Store.step (database : String) (s : Store) : Effect → Store
  | .put _ (.staging id records) outcome =>
      if outcome.stored then { s with staged := (id.hex, records) :: s.staged } else s
  | .merged database' _ batchId window outcome =>
      if database' = database ∧ outcome.committed then
        { s with bronze := merge window (s.batch batchId) s.bronze }
      else s
  | _ => s

/-- Only a merge that takes effect changes the table. -/
theorem Store.step_bronze (database : String) (s : Store) (e : Effect) :
    (s.step database e).bronze = match e with
      | .merged database' _ batchId window outcome =>
          if database' = database ∧ outcome.committed then
            merge window (s.batch batchId) s.bronze
          else s.bronze
      | _ => s.bronze := by
  cases e with
  | merged database' workgroup batchId window outcome =>
      simp only [Store.step]
      split <;> rfl
  | put bucket object outcome =>
      -- staging a file is no change
      cases object with
      | staging id records =>
          simp only [Store.step]
          split <;> rfl
      | _ => rfl
  | _ => rfl

/-- No effect removes a row. -/
theorem Store.prefix_step (database : String) (s : Store) (e : Effect) :
    s.bronze <+: (s.step database e).bronze := by
  rw [Store.step_bronze]
  cases e with
  | merged database' workgroup batchId window outcome =>
      simp only
      split
      · exact Sql.prefix_mergeInsert _ _ _ _
      · exact List.prefix_refl _
  | _ => exact List.prefix_refl _

/-- What a trace leaves, starting from nothing. -/
def store (database : String) (h : Trace) : Store := h.foldl (Store.step database) ⟨[], []⟩

/-- The bronze table after a trace. -/
def bronze (database : String) (h : Trace) : List Row := (store database h).bronze

theorem store_concat (database : String) (h : Trace) (e : Effect) :
    store database (h ++ [e]) = (store database h).step database e := by
  simp [store]

/-- The messages in the producer's local queue. -/
def queueStep (queue : List Nat) : Effect → List Nat
  | .produced ticket _ (.ok _) => queue ++ [ticket]
  | .served ticket _ => queue.filter fun t => t ≠ ticket
  | _ => queue

def queueOf (h : Trace) : List Nat := h.foldl queueStep []

theorem queueOf_concat (h : Trace) (e : Effect) : queueOf (h ++ [e]) = queueStep (queueOf h) e := by
  simp [queueOf]

/-! ## Settings and events -/

/-- `os.environ`. -/
abbrev Environ := String → Option String

/-- `_env`. -/
def env (environ : Environ) (name : String) (default : Option String) : Py String :=
  match (environ name).or default with
  | some value => .ok value
  | none => raise .RuntimeError [.text name, .text " is not set"]

/-- A value of an event: what `bool`, `str` and `int` make of it. -/
structure Value where
  truthy : Bool
  str : String
  int : Py Int

/-- The event a handler is called with. -/
abbrev Event := String → Option Value

/-- `BiddingZone[name]`. -/
def zoneNamed (name : String) : Py BiddingZone :=
  match ofValue? BiddingZone.all BiddingZone.name name with
  | some zone => .ok zone
  | none => raise .KeyError [.repr name]

/-- The token, from a client that refuses an empty one. -/
def entsoeToken (environ : Environ) : Job Unit := do
  let parameter ← lift (env environ "GRIDLENS_ENTSOE_TOKEN_PARAM" (some "/gridlens/entsoe/token"))
  let token ← ask fun o h => o.token h parameter
  let token ← lift token
  if token = "" then lift (raise .ValueError [.text "token is required"])

end Gridlens
