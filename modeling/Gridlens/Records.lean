import Gridlens.Reference

/-!
# The record contract

`gridlens.contracts.records`: one settlement period of generation. A
`GenerationRecord` carries the checks it passed, so a record that breaks the
contract cannot be built. `validate` runs the checks the way the record class
does: every field is checked and every field error is reported, in field
order; the check across fields runs only when no field failed.
-/

namespace Gridlens

abbrev MAX_QUANTITY_MW : Nat := 150000

abbrev MAX_SCALE : Int := 3

/-! ## The record -/

/-- A quantity the contract accepts: finite, not negative, at most
`MAX_QUANTITY_MW`, at most `MAX_SCALE` decimal places. -/
def Plausible : Decimal → Prop
  | .finite negative digits exponent =>
      (negative = true → digits = 0) ∧ exceeds digits exponent MAX_QUANTITY_MW = false ∧
        -exponent ≤ MAX_SCALE
  | _ => False

/-- `valid_time` lies a whole number of periods after midnight. -/
abbrev OnBoundary (resolutionMinutes : Int) (validTime : Instant) : Prop :=
  validTime.micros % DAY % (resolutionMinutes * MINUTE) = 0

/-- One settlement period of generation, as it was known at `knownAt`. -/
structure GenerationRecord where
  source : Source
  sourceDocumentId : Option String
  zone : BiddingZone
  productionType : ProductionType
  direction : Direction
  unit : PowerUnit
  resolutionMinutes : Int
  validTime : Instant
  knownAt : Instant
  sourceUpdatedAt : Option Instant
  quantityMw : Decimal
  resolution_bounds : 0 < resolutionMinutes ∧ resolutionMinutes ≤ 1440
  quantity_plausible : Plausible quantityMw
  on_boundary : OnBoundary resolutionMinutes validTime
  known_after : validTime.micros ≤ knownAt.micros

/-- The keyword arguments a record is built from. `sourceUpdatedAt` is `none`
where the caller does not pass the key at all. -/
structure Candidate where
  source : String
  sourceDocumentId : Option String
  zone : String
  productionType : String
  direction : String
  unit : String
  resolutionMinutes : Int
  validTime : DateTime
  knownAt : DateTime
  sourceUpdatedAt : Option (Option DateTime)
  quantityMw : Decimal

/-! ## Field checks -/

/-- One entry of a validation error's `errors()`. -/
structure FieldError where
  loc : List String
  msg : List Piece
deriving DecidableEq, Repr

/-- The value a field check accepts, or its message. -/
abbrev Checked (α : Type) := Except (List Piece) α

/-- `'a', 'b' or 'c'`. -/
def orList : List String → List Piece
  | [] => []
  | [v] => [.repr v]
  | [v, w] => [.repr v, .text " or ", .repr w]
  | v :: vs => .repr v :: .text ", " :: orList vs

/-- A literal or an enumeration, given by value. -/
def checkMember {α : Type} (members : List α) (value : α → String) (text : String) : Checked α :=
  match ofValue? members value text with
  | some m => .ok m
  | none => .error (.text "Input should be " :: orList (members.map value))

/-- `Field(gt=0, le=1440)`. -/
def checkResolution (n : Int) : Checked { n : Int // 0 < n ∧ n ≤ 1440 } :=
  if hgt : 0 < n then
    if hle : n ≤ 1440 then .ok ⟨n, hgt, hle⟩
    else .error [.text "Input should be less than or equal to 1440"]
  else .error [.text "Input should be greater than 0"]

def mustBeUtc (value : DateTime) : Checked Instant :=
  match value.utcoffset with
  | none => .error [.text "Value error, naive datetime"]
  | some offset =>
      if offset ≠ 0 then
        .error [.text "Value error, expected utc, got offset ", .timedelta offset]
      else .ok ⟨value.wall, value.inRange⟩

def mustBeUtc? : Option (Option DateTime) → Checked (Option Instant)
  | some (some value) => (mustBeUtc value).map some
  | _ => .ok none

def plausibleQuantity (value : Decimal) : Checked { d : Decimal // Plausible d } :=
  match value with
  | .finite negative digits exponent =>
      if hneg : negative = true ∧ digits ≠ 0 then .error [.text "Value error, negative generation"]
      else if hmax : exceeds digits exponent MAX_QUANTITY_MW = true then
        .error [.text "Value error, ", .decimal (.finite negative digits exponent),
          .text " MW is beyond anything a zone produces"]
      else if hscale : -exponent > MAX_SCALE then
        .error [.text "Value error, ", .int (-exponent), .text " decimal places, more than ",
          .int MAX_SCALE]
      else .ok ⟨.finite negative digits exponent, by
        refine ⟨fun h => ?_, by simpa using hmax, by omega⟩
        by_contra hd
        exact hneg ⟨h, hd⟩⟩
  | _ => .error [.text "Input should be a finite number"]

/-- The error of one field, if its check failed. -/
def fieldError {α : Type} (field : String) : Checked α → List FieldError
  | .ok _ => []
  | .error msg => [⟨[field], msg⟩]

/-! ## `GenerationRecord(**candidate)` -/

def validate (c : Candidate) : Except (List FieldError) GenerationRecord :=
  match checkMember Source.all Source.value c.source,
    checkMember BiddingZone.all BiddingZone.value c.zone,
    checkMember ProductionType.all ProductionType.value c.productionType,
    checkMember Direction.all Direction.value c.direction,
    checkMember PowerUnit.all PowerUnit.value c.unit,
    checkResolution c.resolutionMinutes, mustBeUtc c.validTime, mustBeUtc c.knownAt,
    mustBeUtc? c.sourceUpdatedAt, plausibleQuantity c.quantityMw with
  | .ok source, .ok zone, .ok productionType, .ok direction, .ok unit, .ok resolution,
    .ok validTime, .ok knownAt, .ok sourceUpdatedAt, .ok quantity =>
      if hboundary : OnBoundary resolution validTime then
        if hknown : validTime.micros ≤ knownAt.micros then
          .ok {
            source := source
            sourceDocumentId := c.sourceDocumentId
            zone := zone
            productionType := productionType
            direction := direction
            unit := unit
            resolutionMinutes := resolution
            validTime := validTime
            knownAt := knownAt
            sourceUpdatedAt := sourceUpdatedAt
            quantityMw := quantity
            resolution_bounds := resolution.property
            quantity_plausible := quantity.property
            on_boundary := hboundary
            known_after := hknown }
        else .error [⟨[], [.text "Value error, realised value known before the period it describes"]⟩]
      else .error [⟨[], [.text "Value error, ", .isoformat validTime.micros (some 0),
        .text " is not on a ", .int resolution, .text " minute boundary"]⟩]
  | source, zone, productionType, direction, unit, resolution, validTime, knownAt,
    sourceUpdatedAt, quantity =>
      .error (fieldError "source" source ++ fieldError "zone" zone ++
        fieldError "production_type" productionType ++ fieldError "direction" direction ++
        fieldError "unit" unit ++ fieldError "resolution_minutes" resolution ++
        fieldError "valid_time" validTime ++ fieldError "known_at" knownAt ++
        fieldError "source_updated_at" sourceUpdatedAt ++ fieldError "quantity_mw" quantity)

theorem checkMember_ok {α : Type} {members : List α} {value : α → String} {text : String} {m : α}
    (h : checkMember members value text = .ok m) : value m = text := by
  unfold checkMember at h
  split at h
  · rename_i hm
    cases h
    exact ofValue?_value hm
  · cases h

theorem mustBeUtc_ok {value : DateTime} {u : Instant} (h : mustBeUtc value = .ok u) :
    value.utcoffset = some 0 ∧ u.micros = value.wall := by
  unfold mustBeUtc at h
  split at h
  · cases h
  · rename_i offset hoffset
    split at h
    · cases h
    · rename_i hzero
      cases h
      rw [hoffset, not_not.mp hzero]
      exact ⟨rfl, rfl⟩

/-- An accepted record says what its candidate said. -/
theorem validate_ok {c : Candidate} {r : GenerationRecord} (h : validate c = .ok r) :
    r.source.value = c.source ∧ r.zone.value = c.zone ∧
      r.productionType.value = c.productionType ∧ r.direction.value = c.direction ∧
      r.validTime.micros = c.validTime.wall ∧ r.knownAt.micros = c.knownAt.wall := by
  unfold validate at h
  split at h
  · rename_i hsource hzone htype hdirection _ _ hvalid hknown _ _
    split at h
    · split at h
      · cases h
        exact ⟨checkMember_ok hsource, checkMember_ok hzone, checkMember_ok htype,
          checkMember_ok hdirection, (mustBeUtc_ok hvalid).2, (mustBeUtc_ok hknown).2⟩
      · cases h
    · cases h
  · cases h

theorem plausibleQuantity_ok {value : Decimal} {q : { d : Decimal // Plausible d }}
    (h : plausibleQuantity value = .ok q) : q.1 = value := by
  unfold plausibleQuantity at h
  split at h
  · split at h
    · cases h
    · split at h
      · cases h
      · split at h
        · cases h
        · cases h
          rfl
  · cases h

/-- And the quantity its candidate had, as known at a moment in UTC. -/
theorem validate_quantity {c : Candidate} {r : GenerationRecord} (h : validate c = .ok r) :
    r.quantityMw = c.quantityMw ∧ c.knownAt.utcoffset = some 0 := by
  unfold validate at h
  split at h
  · rename_i hknown _ hquantity
    split at h
    · split at h
      · cases h
        exact ⟨plausibleQuantity_ok hquantity, (mustBeUtc_ok hknown).1⟩
      · cases h
    · cases h
  · cases h

theorem mustBeUtc?_ok {value : Option (Option DateTime)} {u : Option Instant}
    (h : mustBeUtc? value = .ok u) : u.map Instant.toDateTime = value.join := by
  unfold mustBeUtc? at h
  split at h
  · rename_i moment
    cases hmoment : mustBeUtc moment with
    | error e =>
        rw [hmoment] at h
        cases h
    | ok v =>
        rw [hmoment] at h
        cases h
        rcases mustBeUtc_ok hmoment with ⟨hoffset, hmicros⟩
        cases moment
        simp only [Instant.toDateTime, Option.map_some, Option.join_some, DateTime.mk.injEq,
          Option.some.injEq]
        exact ⟨hmicros, hoffset.symm⟩
  · rename_i hnone
    cases h
    cases value with
    | none => rfl
    | some moment =>
        cases moment with
        | none => rfl
        | some moment => exact absurd rfl (hnone moment)

theorem checkResolution_ok {n : Int} {m : { n : Int // 0 < n ∧ n ≤ 1440 }}
    (h : checkResolution n = .ok m) : m.1 = n := by
  unfold checkResolution at h
  split at h
  · split at h
    · cases h
      rfl
    · cases h
  · cases h

/-- And what is left of it: document, unit, resolution, the source's own stamp. -/
theorem validate_rest {c : Candidate} {r : GenerationRecord} (h : validate c = .ok r) :
    r.sourceDocumentId = c.sourceDocumentId ∧ r.unit.value = c.unit ∧
      r.resolutionMinutes = c.resolutionMinutes ∧
      r.sourceUpdatedAt.map Instant.toDateTime = c.sourceUpdatedAt.join := by
  unfold validate at h
  split at h
  · rename_i resolution _ _ _ _ _ _ _ _ hunit hresolution _ _ hupdated _
    split at h
    · split at h
      · cases h
        exact ⟨rfl, checkMember_ok hunit, checkResolution_ok hresolution, mustBeUtc?_ok hupdated⟩
      · cases h
    · cases h
  · cases h

/-! ## What the contract asks -/

/-- A candidate the contract has nothing against. -/
structure Candidate.Meets (c : Candidate) : Prop where
  source : c.source ∈ Source.all.map Source.value
  zone : c.zone ∈ BiddingZone.all.map BiddingZone.value
  productionType : c.productionType ∈ ProductionType.all.map ProductionType.value
  direction : c.direction ∈ Direction.all.map Direction.value
  unit : c.unit ∈ PowerUnit.all.map PowerUnit.value
  resolutionMinutes : 0 < c.resolutionMinutes ∧ c.resolutionMinutes ≤ 1440
  validTime : c.validTime.utcoffset = some 0
  knownAt : c.knownAt.utcoffset = some 0
  sourceUpdatedAt : ∀ moment ∈ c.sourceUpdatedAt.join, moment.utcoffset = some 0
  quantityMw : Plausible c.quantityMw
  onBoundary : c.validTime.wall % DAY % (c.resolutionMinutes * MINUTE) = 0
  knownAfter : c.validTime.wall ≤ c.knownAt.wall

theorem checkMember_accepts {α : Type} {members : List α} {value : α → String} {text : String} :
    (∃ m, checkMember members value text = .ok m) ↔ text ∈ members.map value := by
  unfold checkMember ofValue?
  constructor
  · rintro ⟨m, h⟩
    split at h
    · rename_i found hfound
      exact List.mem_map.mpr ⟨found, List.mem_of_find?_eq_some hfound,
        by simpa using List.find?_some hfound⟩
    · cases h
  · intro h
    rcases List.mem_map.mp h with ⟨m, hm, hvalue⟩
    split
    · rename_i found hfound
      exact ⟨found, rfl⟩
    · rename_i hnone
      exact absurd hvalue (by simpa using List.find?_eq_none.mp hnone m hm)

theorem checkResolution_accepts {n : Int} :
    (∃ m, checkResolution n = .ok m) ↔ 0 < n ∧ n ≤ 1440 := by
  constructor
  · rintro ⟨m, hm⟩
    rw [← checkResolution_ok hm]
    exact m.2
  · intro h
    unfold checkResolution
    rw [dif_pos h.1, dif_pos h.2]
    exact ⟨_, rfl⟩

theorem mustBeUtc_accepts {value : DateTime} :
    (∃ u, mustBeUtc value = .ok u) ↔ value.utcoffset = some 0 := by
  constructor
  · rintro ⟨u, hu⟩
    exact (mustBeUtc_ok hu).1
  · intro h
    refine ⟨⟨value.wall, value.inRange⟩, ?_⟩
    unfold mustBeUtc
    rw [h]
    rfl

theorem mustBeUtc?_accepts {value : Option (Option DateTime)} :
    (∃ u, mustBeUtc? value = .ok u) ↔ ∀ moment ∈ value.join, moment.utcoffset = some 0 := by
  unfold mustBeUtc?
  split
  · rename_i moment
    rw [Option.join_some]
    constructor
    · rintro ⟨u, hu⟩ moment' hmoment
      cases hmoment
      cases hvalue : mustBeUtc moment with
      | error e =>
          rw [hvalue] at hu
          cases hu
      | ok v => exact (mustBeUtc_ok hvalue).1
    · intro h
      rcases mustBeUtc_accepts.mpr (h moment rfl) with ⟨u, hu⟩
      rw [hu]
      exact ⟨some u, rfl⟩
  · rename_i hnone
    refine ⟨fun _ moment hmoment => ?_, fun _ => ⟨none, rfl⟩⟩
    exact absurd (Option.join_eq_some_iff.mp hmoment) (hnone moment)

theorem plausibleQuantity_accepts {value : Decimal} :
    (∃ q, plausibleQuantity value = .ok q) ↔ Plausible value := by
  constructor
  · rintro ⟨q, hq⟩
    rw [← plausibleQuantity_ok hq]
    exact q.2
  · intro h
    cases value with
    | finite negative digits exponent =>
        rcases h with ⟨hnegative, hmax, hscale⟩
        unfold plausibleQuantity
        simp only
        rw [dif_neg (fun hneg => hneg.2 (hnegative hneg.1)), dif_neg (by simp [hmax]),
          dif_neg (by omega)]
        exact ⟨_, rfl⟩
    | infinite negative => exact h.elim
    | nan => exact h.elim

/-- The contract accepts the candidates that meet it. -/
theorem validate_accepts_iff {c : Candidate} : (∃ r, validate c = .ok r) ↔ c.Meets := by
  constructor
  · rintro ⟨r, h⟩
    unfold validate at h
    split at h
    · rename_i hsource hzone htype hdirection hunit hresolution hvalid hknown hupdated hquantity
      split at h
      · rename_i hboundary
        split at h
        · rename_i hafter
          rw [checkResolution_ok hresolution, OnBoundary, (mustBeUtc_ok hvalid).2] at hboundary
          rw [(mustBeUtc_ok hvalid).2, (mustBeUtc_ok hknown).2] at hafter
          exact {
            source := checkMember_accepts.mp ⟨_, hsource⟩
            zone := checkMember_accepts.mp ⟨_, hzone⟩
            productionType := checkMember_accepts.mp ⟨_, htype⟩
            direction := checkMember_accepts.mp ⟨_, hdirection⟩
            unit := checkMember_accepts.mp ⟨_, hunit⟩
            resolutionMinutes := checkResolution_accepts.mp ⟨_, hresolution⟩
            validTime := mustBeUtc_accepts.mp ⟨_, hvalid⟩
            knownAt := mustBeUtc_accepts.mp ⟨_, hknown⟩
            sourceUpdatedAt := mustBeUtc?_accepts.mp ⟨_, hupdated⟩
            quantityMw := plausibleQuantity_accepts.mp ⟨_, hquantity⟩
            onBoundary := hboundary
            knownAfter := hafter }
        · cases h
      · cases h
    · cases h
  · intro h
    rcases checkMember_accepts.mpr h.source with ⟨source, hsource⟩
    rcases checkMember_accepts.mpr h.zone with ⟨zone, hzone⟩
    rcases checkMember_accepts.mpr h.productionType with ⟨productionType, htype⟩
    rcases checkMember_accepts.mpr h.direction with ⟨direction, hdirection⟩
    rcases checkMember_accepts.mpr h.unit with ⟨unit, hunit⟩
    rcases checkResolution_accepts.mpr h.resolutionMinutes with ⟨resolution, hresolution⟩
    rcases mustBeUtc_accepts.mpr h.validTime with ⟨validTime, hvalid⟩
    rcases mustBeUtc_accepts.mpr h.knownAt with ⟨knownAt, hknown⟩
    rcases mustBeUtc?_accepts.mpr h.sourceUpdatedAt with ⟨sourceUpdatedAt, hupdated⟩
    rcases plausibleQuantity_accepts.mpr h.quantityMw with ⟨quantity, hquantity⟩
    have hboundary : OnBoundary resolution validTime := by
      rw [OnBoundary, checkResolution_ok hresolution, (mustBeUtc_ok hvalid).2]
      exact h.onBoundary
    have hafter : validTime.micros ≤ knownAt.micros := by
      rw [(mustBeUtc_ok hvalid).2, (mustBeUtc_ok hknown).2]
      exact h.knownAfter
    unfold validate
    rw [hsource, hzone, htype, hdirection, hunit, hresolution, hvalid, hknown, hupdated, hquantity]
    simp only
    rw [dif_pos hboundary, dif_pos hafter]
    exact ⟨_, rfl⟩

end Gridlens
