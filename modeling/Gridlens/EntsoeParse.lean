import Gridlens.TimeAxis
import Gridlens.Reference
import Mathlib.Data.List.Sort

/-!
# Reading an A75 document

`gridlens.ingest.entsoe_parse`, from the element tree on. Every loop over
child elements is a fold in `Py`: the state is the function's local variables,
and the first element that raises ends it.
-/

namespace Gridlens

structure Observation where
  validTime : Instant
  position : Int
  quantity : Decimal

structure GenerationSeries where
  zone : String
  productionType : String
  direction : Direction
  unit : String
  resolution : Int
  intervalStart : Instant
  intervalEnd : Instant
  observations : List Observation
  missingPositions : List Int

structure Document where
  mrid : String
  revisionNumber : Int
  documentType : String
  processType : String
  createdAt : Instant
  series : List GenerationSeries

/-- A tag without its namespace. -/
def localName (tag : String) : String :=
  String.ofList ((tag.toList.reverse.takeWhile fun c => c ≠ '\x7d').reverse)

def instant (readers : Readers) (text : String) : Py Instant := do
  let moment ← readers.datetime text
  match moment.utcoffset with
  | none => raise .ValueError [.text "timestamp without an offset: ", .repr text]
  | some offset =>
      if offset ≠ 0 then raise .ValueError [.text "expected utc, got ", .repr text]
      else .ok ⟨moment.wall, moment.inRange⟩

/-! ## Points and periods -/

def parsePoint (readers : Readers) (node : Element) : Py (Int × Decimal) := do
  let (position, quantity) ← node.children.foldlM (fun (position, quantity) child =>
    if localName child.tag = "position" then do
      .ok (some (← readers.int child.stripped), quantity)
    else if localName child.tag = "quantity" then do
      .ok (position, some (← readers.decimal child.stripped))
    else .ok (position, quantity)) (none, none)
  match position, quantity with
  | some position, some quantity => .ok (position, quantity)
  | _, _ => raise .ValueError [.text "Point missing position or quantity"]

/-- The local variables of `_parse_period`; `quantities` in insertion order. -/
structure PeriodState where
  resolution : Option Int
  start : Option Instant
  stop : Option Instant
  quantities : List (Int × Decimal)

def PeriodState.interval (readers : Readers) (s : PeriodState) (sub : Element) : Py PeriodState :=
  if localName sub.tag = "start" then do
    .ok { s with start := some (← instant readers sub.stripped) }
  else if localName sub.tag = "end" then do
    .ok { s with stop := some (← instant readers sub.stripped) }
  else .ok s

def PeriodState.child (readers : Readers) (s : PeriodState) (child : Element) : Py PeriodState :=
  if localName child.tag = "resolution" then do
    .ok { s with resolution := some (← parseResolution child.stripped) }
  else if localName child.tag = "timeInterval" then
    child.children.foldlM (PeriodState.interval readers) s
  else if localName child.tag = "Point" then do
    let (position, quantity) ← parsePoint readers child
    if s.quantities.any fun q => q.1 = position then
      raise .ValueError [.text "position ", .int position, .text " appears twice"]
    else .ok { s with quantities := s.quantities ++ [(position, quantity)] }
  else .ok s

def parsePeriod (readers : Readers) (node : Element) (zone productionType : String)
    (direction : Direction) (unit : String) : Py GenerationSeries := do
  let s ← node.children.foldlM (PeriodState.child readers) ⟨none, none, none, []⟩
  match s.resolution, s.start, s.stop with
  | some resolution, some start, some stop => do
      let expected ← periodCount start stop resolution
      let sorted := s.quantities.insertionSort fun a b => a.1 ≤ b.1
      let beyond := (sorted.map Prod.fst).filter fun p => p > expected
      if beyond ≠ [] then
        raise .ValueError [.text "positions past the end of the interval: ", .ints beyond]
      else do
        let observations ← sorted.mapM fun (position, quantity) => do
          .ok (⟨← positionTime start resolution position, position, quantity⟩ : Observation)
        let missing := ((List.range expected.toNat).map fun i : Nat => (i : Int) + 1).filter fun p =>
          !s.quantities.any fun q => q.1 = p
        .ok ⟨zone, productionType, direction, unit, resolution, start, stop, observations, missing⟩
  | _, _, _ => raise .ValueError [.text "Period missing resolution or timeInterval"]

/-! ## Series and documents -/

/-- The local variables of `_parse_series`. -/
structure SeriesState where
  productionType : String
  unit : String
  inZone : String
  outZone : String
  periods : List Element

def SeriesState.child (s : SeriesState) (child : Element) : SeriesState :=
  if localName child.tag = "MktPSRType" then
    child.children.foldl (fun s sub =>
      if localName sub.tag = "psrType" then { s with productionType := sub.stripped } else s) s
  else if localName child.tag = "inBiddingZone_Domain.mRID" then { s with inZone := child.stripped }
  else if localName child.tag = "outBiddingZone_Domain.mRID" then
    { s with outZone := child.stripped }
  else if localName child.tag = "quantity_Measure_Unit.name" then { s with unit := child.stripped }
  else if localName child.tag = "Period" then { s with periods := s.periods ++ [child] }
  else s

/-- One `GenerationSeries` for each Period. -/
def parseSeries (readers : Readers) (node : Element) : Py (List GenerationSeries) := do
  let s := node.children.foldl SeriesState.child ⟨"", "", "", "", []⟩
  if s.periods = [] then raise .ValueError [.text "TimeSeries with no Period"]
  if s.inZone ≠ "" ∧ s.outZone ≠ "" then
    raise .ValueError [.text "TimeSeries claims both directions"]
  let (direction, zone) ←
    if s.inZone ≠ "" then .ok (Direction.generation, s.inZone)
    else if s.outZone ≠ "" then .ok (Direction.consumption, s.outZone)
    else raise .ValueError [.text "TimeSeries names no bidding zone"]
  s.periods.mapM fun period => parsePeriod readers period zone s.productionType direction s.unit

/-- The value of the last header element of this name. -/
def headerGet (header : List (String × String)) (name : String) : Option String :=
  (header.reverse.find? fun entry => entry.1 = name).map Prod.snd

def parseGeneration (readers : Readers) (root : Element) : Py Document := do
  if localName root.tag ≠ "GL_MarketDocument" then
    raise .ValueError [.text "expected GL_MarketDocument, got ", .repr (localName root.tag)]
  let (header, series) ← root.children.foldlM (fun (header, series) child =>
    if localName child.tag = "TimeSeries" then do
      .ok (header, series ++ (← parseSeries readers child))
    else if child.children.isEmpty then
      .ok (header ++ [(localName child.tag, child.stripped)], series)
    else .ok (header, series)) (([] : List (String × String)), ([] : List GenerationSeries))
  let revisionNumber ← readers.int ((headerGet header "revisionNumber").getD "0")
  let createdDateTime ← match headerGet header "createdDateTime" with
    | some text => .ok text
    | none => raise .KeyError [.repr "createdDateTime"]
  let createdAt ← instant readers createdDateTime
  .ok {
    mrid := (headerGet header "mRID").getD ""
    revisionNumber := revisionNumber
    documentType := (headerGet header "type").getD ""
    processType := (headerGet header "process.processType").getD ""
    createdAt := createdAt
    series := series }

end Gridlens
