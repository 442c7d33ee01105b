import Gridlens.EntsoeParse
import Gridlens.Records

/-!
# The contract gate

`gridlens.contracts.gate`: a parsed document is split into records, violations
and gaps. A row the contract refuses is a violation with its reason and its
original text; nothing is left out, and a position the source did not publish
is a gap.
-/

namespace Gridlens

/-- A refused row: why, and the text of everything it said. -/
structure Violation where
  reason : String
  detail : List Piece
  payload : List (String × Piece)
deriving DecidableEq

/-- A settlement period the source did not publish. -/
structure Gap where
  zone : String
  productionType : String
  direction : Direction
  validTime : Instant
  position : Int

structure GateResult where
  records : List GenerationRecord
  violations : List Violation
  gaps : List Gap

def GateResult.accepted (r : GateResult) : Nat := r.records.length

/-- `UNITS.get(unit, unit)`. -/
def canonicalUnit (unit : String) : String := if unit = "MAW" then "MW" else unit

/-! ## Payloads -/

/-- `value.isoformat()`. -/
def isoformat (value : DateTime) : Piece := .isoformat value.wall value.utcoffset

/-- `str(value)` of an optional text. -/
def strOrNone : Option String → Piece
  | some text => .str text
  | none => .none

/-- `_jsonable(candidate)`; a key the candidate lacks is not in it. -/
def jsonable (c : Candidate) : List (String × Piece) :=
  [("source", .str c.source), ("source_document_id", strOrNone c.sourceDocumentId),
    ("zone", .str c.zone), ("production_type", .str c.productionType),
    ("direction", .str c.direction), ("unit", .str c.unit),
    ("resolution_minutes", .int c.resolutionMinutes), ("valid_time", isoformat c.validTime),
    ("known_at", isoformat c.knownAt)] ++
  (match c.sourceUpdatedAt with
    | none => []
    | some none => [("source_updated_at", .none)]
    | some (some moment) => [("source_updated_at", isoformat moment)]) ++
  [("quantity_mw", .decimal c.quantityMw)]

def seriesPayload (document : Document) (series : GenerationSeries) : List (String × Piece) :=
  [("source", .str "entsoe"), ("source_document_id", .str document.mrid), ("zone", .str series.zone),
    ("production_type", .str series.productionType), ("direction", .str series.direction.value),
    ("unit", .str series.unit), ("resolution", .timedelta series.resolution),
    ("interval_start", isoformat series.intervalStart.toDateTime),
    ("points", .int series.observations.length)]

/-! ## The gate -/

/-- `f"{'.'.join(loc)}: {msg}"`. -/
def FieldError.detail (e : FieldError) : List Piece :=
  .text (String.intercalate "." e.loc) :: .text ": " :: e.msg

/-- A record, or the violation that says why it could not be built. -/
def buildRecord (candidate : Candidate) : Except Violation GenerationRecord :=
  match validate candidate with
  | .ok record => .ok record
  | .error errors =>
      .error ⟨"contract", [Piece.text "; "].intercalate (errors.map FieldError.detail),
        jsonable candidate⟩

def candidateOf (document : Document) (series : GenerationSeries) (resolutionMinutes : Int)
    (knownAt : DateTime) (observation : Observation) : Candidate where
  source := "entsoe"
  sourceDocumentId := some document.mrid
  zone := series.zone
  productionType := series.productionType
  direction := series.direction.value
  unit := canonicalUnit series.unit
  resolutionMinutes := resolutionMinutes
  validTime := observation.validTime.toDateTime
  knownAt := knownAt
  sourceUpdatedAt := none
  quantityMw := observation.quantity

/-- The record or the violation of one observation, added to the result. -/
def GateResult.add (result : GateResult) (candidate : Candidate) : GateResult :=
  match buildRecord candidate with
  | .ok record => { result with records := result.records ++ [record] }
  | .error violation => { result with violations := result.violations ++ [violation] }

def gateSeries (document : Document) (knownAt : DateTime) (result : GateResult)
    (series : GenerationSeries) : Py GateResult :=
  -- `int(total_seconds())`, then `divmod` by sixty
  let seconds := series.resolution / SECOND
  let resolutionMinutes := seconds / 60
  if seconds % 60 ≠ 0 then
    .ok { result with violations := result.violations ++
      [⟨"sub_minute_resolution",
        [.text "resolution ", .timedelta series.resolution, .text " is not a whole minute"],
        seriesPayload document series⟩] }
  else do
    let result := series.observations.foldl (fun result observation =>
      result.add (candidateOf document series resolutionMinutes knownAt observation)) result
    let gaps ← series.missingPositions.mapM fun position => do
      .ok (⟨series.zone, series.productionType, series.direction,
        ← positionTime series.intervalStart series.resolution position, position⟩ : Gap)
    .ok { result with gaps := result.gaps ++ gaps }

def applyGate (document : Document) (knownAt : DateTime) : Py GateResult :=
  document.series.foldlM (gateSeries document knownAt) ⟨[], [], []⟩

/-! ## What a record is stamped with -/

section Stamps

variable {document : Document} {knownAt : DateTime} {result result' : GateResult}

/-- Every record carries the `known_at` the gate was given. -/
def GateResult.Stamped (knownAt : DateTime) (result : GateResult) : Prop :=
  ∀ r ∈ result.records, r.knownAt.micros = knownAt.wall

theorem stamped_add {candidate : Candidate} (hc : candidate.knownAt = knownAt)
    (h : result.Stamped knownAt) : (result.add candidate).Stamped knownAt := by
  unfold GateResult.add
  split
  · rename_i record hbuild
    intro r hr
    rcases List.mem_append.mp hr with hold | hnew
    · exact h r hold
    · -- the record just built
      rw [List.mem_singleton.mp hnew]
      unfold buildRecord at hbuild
      split at hbuild
      · rename_i hvalid
        cases hbuild
        rw [← hc]
        exact (validate_ok hvalid).2.2.2.2.2
      · cases hbuild
  · exact h

theorem stamped_gateSeries {series : GenerationSeries} (h : result.Stamped knownAt)
    (hgate : gateSeries document knownAt result series = .ok result') :
    result'.Stamped knownAt := by
  have hadds : ∀ (minutes : Int) (observations : List Observation) (s : GateResult),
      s.Stamped knownAt → (observations.foldl (fun s observation =>
        s.add (candidateOf document series minutes knownAt observation)) s).Stamped knownAt := by
    intro minutes observations
    induction observations with
    | nil => exact fun _ hs => hs
    | cons observation observations ih => exact fun s hs => ih _ (stamped_add rfl hs)
  simp only [gateSeries] at hgate
  split at hgate
  · cases hgate
    exact h
  · rw [bind_eq_ok] at hgate
    rcases hgate with ⟨gaps, -, heq⟩
    cases heq
    exact hadds _ series.observations result h

theorem stamped_applyGate (hgate : applyGate document knownAt = .ok result) :
    result.Stamped knownAt :=
  foldlM_ok (fun _ _ _ hs hstep => stamped_gateSeries hs hstep)
    (fun _ hr => absurd hr List.not_mem_nil) hgate

end Stamps

end Gridlens
