import Gridlens.Bronze
import Gridlens.Decimals
import Gridlens.Wire.Codec

/-!
# Messages on the wire

`gridlens.stream.serialization`: a zero byte, the schema id in four bytes, and
an Avro body. The body is what the schema `generation_observation.avsc` says,
field by field, in the binary encoding of Avro (`schema`); `to_avro` and the
logical types of timestamps and decimals are around it.
-/

namespace Gridlens

open Wire

abbrev WireBytes := List UInt8

/-- `datetime(1970, 1, 1, tzinfo=UTC)`. -/
abbrev EPOCH : Int := 719163 * DAY

/-! ## The schema -/

/-- A `GenerationObservation`, as a dictionary of its fields. -/
structure AvroRecord where
  source : String
  sourceDocumentId : Option String
  zone : String
  productionType : String
  direction : String
  unit : String
  resolutionMinutes : Int
  validTime : Instant
  knownAt : Instant
  sourceUpdatedAt : Option Instant
  quantityMw : Decimal

/-- The fields under their logical types: timestamps in microseconds of the
epoch, the decimal as its thousandths. -/
abbrev AvroFields : Type :=
  String × Option String × String × String × String × String × Int × Int × Int × Option Int × Int

/-- The fields of the schema, in its order. -/
def schema : Codec AvroFields :=
  string.seq <| (nullable string).seq <| string.seq <| string.seq <| string.seq <| string.seq <|
    (signed 32).seq <| (signed 64).seq <| (signed 64).seq <| (nullable (signed 64)).seq bigint

/-- `precision` of `quantity_mw`. -/
abbrev PRECISION : Nat := 12

/-- A decimal as its digits at the scale of the schema. -/
def prepareDecimal : Decimal → Py Int
  | .finite negative digits exponent =>
      if numDigits digits > PRECISION then
        raise .ValueError [.text "The decimal precision is bigger than allowed by schema"]
      else if exponent + MAX_SCALE < 0 then
        raise .ValueError [.text "Scale provided in schema does not match the decimal"]
      else .ok ((if negative then -1 else 1) * (digits * 10 ^ (exponent + MAX_SCALE).toNat : Nat))
  | _ => raise .TypeError [.text "the exponent is no number"]

def readDecimal (unscaled : Int) : Decimal := .finite (unscaled < 0) unscaled.natAbs (-MAX_SCALE)

def AvroRecord.fields (a : AvroRecord) : Py AvroFields := do
  let quantityMw ← prepareDecimal a.quantityMw
  .ok (a.source, a.sourceDocumentId, a.zone, a.productionType, a.direction, a.unit,
    a.resolutionMinutes, a.validTime.micros - EPOCH, a.knownAt.micros - EPOCH,
    a.sourceUpdatedAt.map fun u => u.micros - EPOCH, quantityMw)

/-- A timestamp that is perhaps there. -/
def stampOf : Option Int → Py (Option Instant)
  | some micros => (Instant.ofMicros (micros + EPOCH)).map some
  | none => .ok none

def AvroRecord.ofFields : AvroFields → Py AvroRecord
  | (source, sourceDocumentId, zone, productionType, direction, unit, resolutionMinutes,
      validTime, knownAt, sourceUpdatedAt, quantityMw) => do
    let validTime ← Instant.ofMicros (validTime + EPOCH)
    let knownAt ← Instant.ofMicros (knownAt + EPOCH)
    let sourceUpdatedAt ← stampOf sourceUpdatedAt
    .ok ⟨source, sourceDocumentId, zone, productionType, direction, unit, resolutionMinutes,
      validTime, knownAt, sourceUpdatedAt, readDecimal quantityMw⟩

/-! ## `serialization` -/

abbrev MAGIC : Int := 0

/-- The size of `struct.Struct(">bI")`. -/
abbrev HEADER_SIZE : Nat := 5

/-- `HEADER.pack(MAGIC, schema_id)`. -/
def packHeader (schemaId : Int) : Py WireBytes :=
  if 0 ≤ schemaId ∧ schemaId < 2 ^ 32 then .ok (0 :: bigEndian 4 schemaId.toNat)
  else raise .StructError [.text "argument out of range"]

/-- `key`. -/
def key (record : GenerationRecord) : WireBytes :=
  ("|".intercalate [record.source.value, record.zone.value, record.productionType.value,
    record.direction.value]).toByteArray.data.toList

/-- `to_avro`. -/
def toAvro (record : GenerationRecord) : Py AvroRecord := do
  -- `QUANTUM` is a thousandth
  let quantityMw ← record.quantityMw.quantize (-MAX_SCALE)
  .ok {
    source := record.source.value
    sourceDocumentId := record.sourceDocumentId
    zone := record.zone.value
    productionType := record.productionType.value
    direction := record.direction.value
    unit := record.unit.value
    resolutionMinutes := record.resolutionMinutes
    validTime := record.validTime
    knownAt := record.knownAt
    sourceUpdatedAt := record.sourceUpdatedAt
    quantityMw := quantityMw }

/-- `encode`. -/
def encode (record : GenerationRecord) (schemaId : Int) : Py WireBytes := do
  let header ← packHeader schemaId
  let fields ← (← toAvro record).fields
  match schema.write fields with
  | some body => .ok (header ++ body)
  | none => raise .ValueError [.text "no value of the schema"]

/-- The first byte, signed. -/
def magicOf (payload : WireBytes) : Int :=
  let byte := (payload.headD 0).toNat
  if byte < 128 then byte else (byte : Int) - 256

/-- `decode`; what follows the body is not looked at. -/
def decode (payload : WireBytes) : Py (Int × AvroRecord) := do
  if payload.length < HEADER_SIZE then
    raise .WireFormatError [.int payload.length, .text " bytes is shorter than the header"]
  else if magicOf payload ≠ MAGIC then
    raise .WireFormatError [.text "magic byte ", .int (magicOf payload), .text ", expected ",
      .int MAGIC]
  else
    match schema.read (payload.drop HEADER_SIZE) with
    | none => raise .EOFError []
    | some (fields, _) => do
        .ok (ofBigEndian ((payload.drop 1).take 4), ← AvroRecord.ofFields fields)

/-! ## Nothing is lost -/

/-- The fields of a record, its quantity with three places. -/
structure AvroRecord.Holds (a : AvroRecord) (r : GenerationRecord) : Prop where
  source : a.source = r.source.value
  sourceDocumentId : a.sourceDocumentId = r.sourceDocumentId
  zone : a.zone = r.zone.value
  productionType : a.productionType = r.productionType.value
  direction : a.direction = r.direction.value
  unit : a.unit = r.unit.value
  resolutionMinutes : a.resolutionMinutes = r.resolutionMinutes
  validTime : a.validTime = r.validTime
  knownAt : a.knownAt = r.knownAt
  sourceUpdatedAt : a.sourceUpdatedAt = r.sourceUpdatedAt
  quantityMw : a.quantityMw.equals r.quantityMw = true ∧
    ∃ negative digits, a.quantityMw = .finite negative digits (-MAX_SCALE)

/-- The quantity of a record has three places without being rounded, and its
thousandths have digits to spare. -/
theorem quantize_record (r : GenerationRecord) : ∃ quantity,
    r.quantityMw.quantize (-MAX_SCALE) = .ok quantity ∧ quantity.equals r.quantityMw = true ∧
      prepareDecimal quantity = .ok r.quantityMw.thousandths ∧
      (readDecimal r.quantityMw.thousandths).equals r.quantityMw = true := by
  rcases r.quantity_finite with ⟨negative, digits, exponent, hquantity⟩
  have hcontract := r.quantity_plausible
  rw [hquantity] at hcontract ⊢
  rcases hcontract.scaled with ⟨hscale, hmax, -⟩
  refine ⟨_, quantize_plausible hcontract, equals_scaled hscale, ?_, equals_thousandths hcontract⟩
  have hdigits : numDigits (digits * 10 ^ (exponent + MAX_SCALE).toNat) ≤ PRECISION :=
    numDigits_le (by decide) (hmax.trans_lt (by decide))
  unfold prepareDecimal
  simp only
  rw [if_neg (not_lt.mpr hdigits), neg_add_cancel, if_neg (lt_irrefl _), Int.toNat_zero,
    pow_zero, Nat.mul_one]
  rfl

theorem Instant.ofMicros_shifted (u : Instant) : Instant.ofMicros (u.micros - EPOCH + EPOCH) = .ok u := by
  rw [sub_add_cancel]
  exact dif_pos u.inRange

theorem fits_instant (u : Instant) : Fits 64 (u.micros - EPOCH) := by
  rcases u.inRange with ⟨hlow, hhigh⟩
  rw [DAY_eq] at hlow hhigh
  have hepoch : EPOCH = 62135683200000000 := rfl
  have hlast : MAX_ORDINAL = 3652059 := rfl
  rw [hlast] at hhigh
  rw [hepoch]
  unfold Fits
  norm_num
  omega

/-- The fields of a record are values of the schema. -/
theorem write_schema (r : GenerationRecord) (quantity : Int) : ∃ body,
    schema.write (r.source.value, r.sourceDocumentId, r.zone.value, r.productionType.value,
      r.direction.value, r.unit.value, r.resolutionMinutes, r.validTime.micros - EPOCH,
      r.knownAt.micros - EPOCH, r.sourceUpdatedAt.map (fun u => u.micros - EPOCH),
      quantity) = some body := by
  have hupdated : ∀ m ∈ r.sourceUpdatedAt.map (fun u => u.micros - EPOCH),
      ∃ bs, (signed 64).write m = some bs := by
    intro m hm
    rcases Option.mem_map.mp hm with ⟨u, -, rfl⟩
    exact write_signed (fits_instant u)
  have hresolution : Fits 32 r.resolutionMinutes := by
    have hbounds := r.resolution_bounds
    unfold Fits
    norm_num
    omega
  rcases total_string r.source.value with ⟨_, hsource⟩
  rcases write_nullable (a := r.sourceDocumentId) fun b _ => total_string b with ⟨_, hdocument⟩
  rcases total_string r.zone.value with ⟨_, hzone⟩
  rcases total_string r.productionType.value with ⟨_, htype⟩
  rcases total_string r.direction.value with ⟨_, hdirection⟩
  rcases total_string r.unit.value with ⟨_, hunit⟩
  rcases write_signed hresolution with ⟨_, hresolution⟩
  rcases write_signed (fits_instant r.validTime) with ⟨_, hvalid⟩
  rcases write_signed (fits_instant r.knownAt) with ⟨_, hknown⟩
  rcases write_nullable hupdated with ⟨_, hupdated⟩
  rcases total_bigint quantity with ⟨_, hquantity⟩
  exact ⟨_, Codec.write_seq hsource <| Codec.write_seq hdocument <| Codec.write_seq hzone <|
    Codec.write_seq htype <| Codec.write_seq hdirection <| Codec.write_seq hunit <|
    Codec.write_seq hresolution <| Codec.write_seq hvalid <| Codec.write_seq hknown <|
    Codec.write_seq hupdated hquantity⟩

/-- What a header in front of a body is taken for. -/
theorem unpack_wire {schemaId : Int} (hid : 0 ≤ schemaId ∧ schemaId < 2 ^ 32) (body : WireBytes) :
    ¬ (0 :: bigEndian 4 schemaId.toNat ++ body).length < HEADER_SIZE ∧
      magicOf (0 :: bigEndian 4 schemaId.toNat ++ body) = MAGIC ∧
      ((ofBigEndian (((0 :: bigEndian 4 schemaId.toNat ++ body).drop 1).take 4) : Nat) : Int) =
        schemaId ∧
      (0 :: bigEndian 4 schemaId.toNat ++ body).drop HEADER_SIZE = body := by
  have hlength : (bigEndian 4 schemaId.toNat).length = 4 := length_bigEndian 4 _
  have hheader : ((0 :: bigEndian 4 schemaId.toNat ++ body).drop 1).take 4 =
      bigEndian 4 schemaId.toNat := by
    show (bigEndian 4 schemaId.toNat ++ body).take 4 = _
    rw [List.take_append_of_le_length hlength.ge, List.take_of_length_le hlength.le]
  refine ⟨?_, rfl, ?_, ?_⟩
  · have hfive : HEADER_SIZE = 5 := rfl
    rw [List.cons_append, List.length_cons, List.length_append, hlength]
    omega
  · rw [hheader, ofBigEndian_bigEndian, Nat.mod_eq_of_lt (by omega)]
    omega
  · show (bigEndian 4 schemaId.toNat ++ body).drop 4 = _
    rw [List.drop_append_of_le_length hlength.ge, List.drop_of_length_le hlength.le]
    rfl

/-- A payload with a header in front is read by its body. -/
theorem decode_wire {schemaId : Int} (hid : 0 ≤ schemaId ∧ schemaId < 2 ^ 32) (body : WireBytes) :
    decode (0 :: bigEndian 4 schemaId.toNat ++ body) =
      match schema.read body with
      | none => raise .EOFError []
      | some (fields, _) => AvroRecord.ofFields fields >>= fun a => .ok (schemaId, a) := by
  rcases unpack_wire hid body with ⟨hlong, hmagic, hshown, hrest⟩
  unfold decode
  rw [if_neg hlong, hmagic, if_neg (not_not.mpr rfl), hrest, hshown]

/-- A record comes back as it went, with its schema id. -/
theorem decode_encode (r : GenerationRecord) {schemaId : Int}
    (hid : 0 ≤ schemaId ∧ schemaId < 2 ^ 32) :
    ∃ quantity payload back, r.quantityMw.quantize (-MAX_SCALE) = .ok quantity ∧
      quantity.equals r.quantityMw = true ∧ encode r schemaId = .ok payload ∧
      decode payload = .ok (schemaId, back) ∧ back.Holds r := by
  rcases quantize_record r with ⟨quantity, hquantize, hequals, hprepare, hread⟩
  rcases write_schema r r.quantityMw.thousandths with ⟨body, hbody⟩
  have hupdated : stampOf (r.sourceUpdatedAt.map fun u => u.micros - EPOCH) =
      .ok r.sourceUpdatedAt := by
    cases r.sourceUpdatedAt with
    | none => rfl
    | some u =>
        show (Instant.ofMicros (u.micros - EPOCH + EPOCH)).map some = _
        rw [Instant.ofMicros_shifted]
        rfl
  refine ⟨quantity, 0 :: bigEndian 4 schemaId.toNat ++ body, ⟨r.source.value, r.sourceDocumentId,
    r.zone.value, r.productionType.value, r.direction.value, r.unit.value, r.resolutionMinutes,
    r.validTime, r.knownAt, r.sourceUpdatedAt, readDecimal r.quantityMw.thousandths⟩,
    hquantize, hequals, ?_, ?_, ⟨rfl, rfl, rfl, rfl, rfl, rfl, rfl, rfl, rfl, rfl, hread, _, _, rfl⟩⟩
  · unfold encode packHeader toAvro AvroRecord.fields
    rw [if_pos hid, ok_bind, hquantize, ok_bind, ok_bind, hprepare, ok_bind, ok_bind, hbody]
  · have hwhole := schema.read_write hbody []
    rw [List.append_nil] at hwhole
    rw [decode_wire hid, hwhole]
    unfold AvroRecord.ofFields
    simp only
    rw [Instant.ofMicros_shifted, ok_bind, Instant.ofMicros_shifted, ok_bind, hupdated, ok_bind]
    rfl

/-! ## One record -/

theorem halfPastSix_inRange : WallInRange 63921551400000000 := by decide

theorem learned_inRange : WallInRange 63923073842000000 := by decide

theorem quarter_bounds : 0 < (15 : Int) ∧ (15 : Int) ≤ 1440 := by decide

theorem quarter_plausible : Plausible (.finite false 288192 (-2)) :=
  ⟨fun h => absurd h (by decide), by decide, by decide⟩

theorem quarter_boundary : OnBoundary 15 ⟨63921551400000000, halfPastSix_inRange⟩ := by decide

theorem quarter_known : (63921551400000000 : Int) ≤ 63923073842000000 := by decide

/-- Run-of-river at half past six in the evening, learned later in the month. -/
def quarterRecord : GenerationRecord where
  source := .entsoe
  sourceDocumentId := some "doc-1"
  zone := .FR
  productionType := .HYDRO_RUN_OF_RIVER
  direction := .generation
  unit := .MW
  resolutionMinutes := 15
  validTime := ⟨63921551400000000, halfPastSix_inRange⟩
  knownAt := ⟨63923073842000000, learned_inRange⟩
  sourceUpdatedAt := none
  quantityMw := .finite false 288192 (-2)
  resolution_bounds := quarter_bounds
  quantity_plausible := quarter_plausible
  on_boundary := quarter_boundary
  known_after := quarter_known

theorem decode_encode_quarter : ∃ quantity payload back,
    quarterRecord.quantityMw.quantize (-MAX_SCALE) = .ok quantity ∧
      quantity.equals quarterRecord.quantityMw = true ∧ encode quarterRecord 258 = .ok payload ∧
      decode payload = .ok (258, back) ∧ back.Holds quarterRecord :=
  decode_encode quarterRecord (by decide)

end Gridlens
