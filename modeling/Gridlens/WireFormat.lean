import Gridlens.Serialization

/-!
# What `decode` accepts

A payload in the wire format is a zero byte, a schema id and one body, with
nothing left over. `decode` hands the body to a reader that takes one datum off
a stream: what the reader cannot read raises the reader's own errors, and what
it leaves is never looked at. `decode_strict_iff` says for which payloads
nothing but the wire format is accepted, and nothing but `WireFormatError`
raised.
-/

namespace Gridlens

open Wire

/-- What a reader of Avro takes for a datum. -/
inductive Datum where
  | record (record : AvroRecord)
  /-- Anything that is not a `dict`. -/
  | other

/-- `fastavro.schemaless_reader` on a stream: a datum and what of the stream it
left, or an error of its own. -/
abbrev DatumReader := WireBytes → Py (Datum × WireBytes)

/-- `decode`, by a reader. -/
def decodeBy (reader : DatumReader) (payload : WireBytes) : Py (Int × AvroRecord) := do
  if payload.length < HEADER_SIZE then
    raise .WireFormatError [.int payload.length, .text " bytes is shorter than the header"]
  else if magicOf payload ≠ MAGIC then
    raise .WireFormatError [.text "magic byte ", .int (magicOf payload), .text ", expected ",
      .int MAGIC]
  else
    match ← reader (payload.drop HEADER_SIZE) with
    | (.record record, _) => .ok (ofBigEndian ((payload.drop 1).take 4), record)
    | (.other, _) => raise .WireFormatError [.text "the body did not decode to a record"]

/-- The reader of the schema, as `decode` has it. -/
def schemaReader : DatumReader := fun stream =>
  match schema.read stream with
  | none => raise .EOFError []
  | some (fields, rest) => do .ok (.record (← AvroRecord.ofFields fields), rest)

theorem decodeBy_schemaReader (payload : WireBytes) :
    decodeBy schemaReader payload = decode payload := by
  unfold decodeBy decode schemaReader
  split
  · rfl
  · split
    · rfl
    · cases schema.read (payload.drop HEADER_SIZE) with
      | none => rfl
      | some found =>
          rcases found with ⟨fields, rest⟩
          simp only
          cases AvroRecord.ofFields fields <;> rfl

/-! ## The format -/

/-- The bytes are one body, which the reader takes for this record. -/
def Encodes (reader : DatumReader) (body : WireBytes) (record : AvroRecord) : Prop :=
  reader body = .ok (.record record, [])

/-- The payload is this schema id and one body of this record. -/
def InWireFormat (reader : DatumReader) (payload : WireBytes) (schemaId : Int)
    (record : AvroRecord) : Prop :=
  (0 ≤ schemaId ∧ schemaId < 2 ^ 32) ∧
    ∃ body, payload = 0 :: bigEndian 4 schemaId.toNat ++ body ∧ Encodes reader body record

/-- `decode` returns what is in the wire format, and refuses anything else as
such. -/
structure DecodesStrictly (reader : DatumReader) (payload : WireBytes) : Prop where
  returns : ∀ schemaId record, decodeBy reader payload = .ok (schemaId, record) →
    InWireFormat reader payload schemaId record
  raises : ∀ error, decodeBy reader payload = .error error → error.kind = .WireFormatError

section Payload

variable {reader : DatumReader} {payload body : WireBytes} {schemaId : Int}

/-- What is refused as `decode` refuses is refused as such. -/
theorem decodesStrictly_of_refused {message : List Piece}
    (h : decodeBy reader payload = raise .WireFormatError message) :
    DecodesStrictly reader payload := by
  refine ⟨fun schemaId record hok => ?_, fun error herror => ?_⟩
  · rw [h] at hok
    cases hok
  · rw [h] at herror
    cases herror
    rfl

/-- The magic byte is the zero byte. -/
theorem magicOf_eq_iff {byte : UInt8} (rest : WireBytes) :
    magicOf (byte :: rest) = MAGIC ↔ byte = 0 := by
  have hlt : byte.toNat < 256 := byte.toNat_lt
  have hzero : byte = 0 ↔ byte.toNat = 0 := by
    rw [← UInt8.toNat_inj]
    rfl
  rw [hzero]
  show (if byte.toNat < 128 then (byte.toNat : Int) else byte.toNat - 256) = 0 ↔ _
  split_ifs <;> omega

/-- A payload with a header is one that `encode` could have begun. -/
theorem exists_header (hlong : HEADER_SIZE ≤ payload.length) (hmagic : magicOf payload = MAGIC) :
    ∃ schemaId : Int, (0 ≤ schemaId ∧ schemaId < 2 ^ 32) ∧
      payload = 0 :: bigEndian 4 schemaId.toNat ++ payload.drop HEADER_SIZE := by
  cases payload with
  | nil => exact absurd hlong (by decide)
  | cons byte rest =>
      cases (magicOf_eq_iff rest).mp hmagic
      have hfour : (rest.take 4).length = 4 := by
        have hrest : HEADER_SIZE ≤ rest.length + 1 := hlong
        have hfive : HEADER_SIZE = 5 := rfl
        rw [List.length_take]
        omega
      have hbytes := bigEndian_ofBigEndian (rest.take 4)
      have hbound := ofBigEndian_lt (rest.take 4)
      rw [hfour] at hbytes hbound
      refine ⟨ofBigEndian (rest.take 4), ⟨by omega, by omega⟩, ?_⟩
      show 0 :: rest = 0 :: (bigEndian 4 (ofBigEndian (rest.take 4)) ++ rest.drop 4)
      rw [hbytes, List.take_append_drop]

/-- The header leaves the body. -/
theorem header_injective {schemaId' : Int} {body' : WireBytes}
    (h : (0 : UInt8) :: bigEndian 4 schemaId.toNat ++ body =
      0 :: bigEndian 4 schemaId'.toNat ++ body') : body = body' := by
  have htail : bigEndian 4 schemaId.toNat ++ body = bigEndian 4 schemaId'.toNat ++ body' :=
    (List.cons.inj h).2
  exact (List.append_inj htail (by rw [length_bigEndian, length_bigEndian])).2

/-- A payload with a header in front is read by its body. -/
theorem decodeBy_wire (reader : DatumReader) (hid : 0 ≤ schemaId ∧ schemaId < 2 ^ 32)
    (body : WireBytes) :
    decodeBy reader (0 :: bigEndian 4 schemaId.toNat ++ body) =
      (reader body >>= fun found =>
        match found with
        | (.record record, _) => .ok (schemaId, record)
        | (.other, _) => raise .WireFormatError [.text "the body did not decode to a record"]) := by
  rcases unpack_wire hid body with ⟨hlong, hmagic, hshown, hrest⟩
  unfold decodeBy
  rw [if_neg hlong, hmagic, if_neg (not_not.mpr rfl), hrest, hshown]

/-- With a header in front it is a question of the body. -/
theorem decodesStrictly_wire_iff
    (hown : ∀ stream error, reader stream = .error error → error.kind ≠ .WireFormatError)
    (hid : 0 ≤ schemaId ∧ schemaId < 2 ^ 32) (body : WireBytes) :
    DecodesStrictly reader (0 :: bigEndian 4 schemaId.toNat ++ body) ↔
      (∃ rest, reader body = .ok (.other, rest)) ∨ ∃ record, Encodes reader body record := by
  have hdecode := decodeBy_wire reader hid body
  cases hread : reader body with
  | error error =>
      rw [hread] at hdecode
      refine iff_of_false (fun hstrict => ?_) ?_
      · exact hown body error hread (hstrict.raises error hdecode)
      · rintro (⟨rest, hother⟩ | ⟨record, hrecord⟩)
        · cases hother
        · rw [Encodes, hread] at hrecord
          cases hrecord
  | ok found =>
      rcases found with ⟨datum, rest⟩
      rw [hread] at hdecode
      cases datum with
      | other => exact iff_of_true (decodesStrictly_of_refused hdecode) (Or.inl ⟨rest, rfl⟩)
      | record record =>
          have hok : decodeBy reader (0 :: bigEndian 4 schemaId.toNat ++ body) =
              .ok (schemaId, record) := hdecode
          constructor
          · intro hstrict
            rcases hstrict.returns _ _ hok with ⟨-, body', hbody, hencodes⟩
            cases header_injective hbody
            exact Or.inr ⟨record, hencodes⟩
          · rintro (⟨rest, hother⟩ | ⟨record', hrecord⟩)
            · cases hother
            · refine ⟨fun schemaId' record' h => ?_, fun error h => ?_⟩
              · rw [hok] at h
                cases h
                rw [Encodes, hread] at hrecord
                cases hrecord
                exact ⟨hid, body, rfl, hread⟩
              · rw [hok] at h
                cases h

end Payload

/-- `decode` is as strict as the wire format exactly where it refuses the
payload, or what follows the header is one body. -/
theorem decode_strict_iff (reader : DatumReader)
    (hown : ∀ stream error, reader stream = .error error → error.kind ≠ .WireFormatError)
    (payload : WireBytes) :
    DecodesStrictly reader payload ↔
      (payload.length < HEADER_SIZE ∨ payload.head? ≠ some 0) ∨
        (∃ rest, reader (payload.drop HEADER_SIZE) = .ok (.other, rest)) ∨
        ∃ record, Encodes reader (payload.drop HEADER_SIZE) record := by
  rcases Nat.lt_or_ge payload.length HEADER_SIZE with hshort | hlong
  · have hraise : decodeBy reader payload = raise .WireFormatError [.int payload.length,
        .text " bytes is shorter than the header"] := if_pos hshort
    exact iff_of_true (decodesStrictly_of_refused hraise) (Or.inl (Or.inl hshort))
  · rw [or_iff_right (not_lt.mpr hlong)]
    by_cases hmagic : magicOf payload = MAGIC
    · rcases exists_header hlong hmagic with ⟨schemaId, hid, hpayload⟩
      have hhead : payload.head? = some 0 := by
        rw [hpayload]
        rfl
      rw [or_iff_right (not_not.mpr hhead), ← decodesStrictly_wire_iff hown hid, ← hpayload]
    · have hhead : payload.head? ≠ some 0 := by
        intro hzero
        rcases List.head?_eq_some_iff.mp hzero with ⟨rest, rfl⟩
        exact hmagic rfl
      have hraise : decodeBy reader payload = raise .WireFormatError [.text "magic byte ",
          .int (magicOf payload), .text ", expected ", .int MAGIC] := by
        unfold decodeBy
        rw [if_neg (not_lt.mpr hlong), if_pos hmagic]
      exact iff_of_true (decodesStrictly_of_refused hraise) (Or.inl hhead)

theorem ofMicros_error {n : Int} {error : PyError} (h : Instant.ofMicros n = .error error) :
    error.kind = .OverflowError := by
  unfold Instant.ofMicros at h
  split at h
  · cases h
  · cases h
    rfl

/-- A body that cannot be a record has a timestamp there is no `datetime` for. -/
theorem ofFields_error {fields : AvroFields} {error : PyError}
    (h : AvroRecord.ofFields fields = .error error) : error.kind = .OverflowError := by
  rcases fields with ⟨_, _, _, _, _, _, _, validTime, knownAt, sourceUpdatedAt, _⟩
  unfold AvroRecord.ofFields at h
  simp only at h
  cases hvalid : Instant.ofMicros (validTime + EPOCH) with
  | error error' =>
      rw [hvalid] at h
      cases h
      exact ofMicros_error hvalid
  | ok valid =>
      rw [hvalid, ok_bind] at h
      cases hknown : Instant.ofMicros (knownAt + EPOCH) with
      | error error' =>
          rw [hknown] at h
          cases h
          exact ofMicros_error hknown
      | ok known =>
          rw [hknown, ok_bind] at h
          cases sourceUpdatedAt with
          | none => cases h
          | some micros =>
              have hstamp : stampOf (some micros) =
                  (Instant.ofMicros (micros + EPOCH)).map some := rfl
              rw [hstamp] at h
              cases hupdated : Instant.ofMicros (micros + EPOCH) with
              | error error' =>
                  rw [hupdated] at h
                  cases h
                  exact ofMicros_error hupdated
              | ok updated =>
                  rw [hupdated] at h
                  cases h

/-- The reader of the schema has errors of its own. -/
theorem schemaReader_error {stream : WireBytes} {error : PyError}
    (h : schemaReader stream = .error error) : error.kind ≠ .WireFormatError := by
  unfold schemaReader at h
  split at h
  · cases h
    decide
  · rename_i fields rest _
    cases hfields : AvroRecord.ofFields fields with
    | error error' =>
        rw [hfields] at h
        cases h
        rw [ofFields_error hfields]
        decide
    | ok record =>
        rw [hfields] at h
        cases h

/-- A header, and no body. -/
def headless : WireBytes := [0, 0, 0, 0, 7]

theorem decode_strict_headless : DecodesStrictly schemaReader headless ↔
    (headless.length < HEADER_SIZE ∨ headless.head? ≠ some 0) ∨
      (∃ rest, schemaReader (headless.drop HEADER_SIZE) = .ok (.other, rest)) ∨
      ∃ record, Encodes schemaReader (headless.drop HEADER_SIZE) record :=
  decode_strict_iff schemaReader (fun _ _ => schemaReader_error) headless

/-! ## A body too short, and a byte too many -/

/-- The body of an encoded record is read from whatever follows it. -/
theorem encode_reads (r : GenerationRecord) {schemaId : Int}
    (hid : 0 ≤ schemaId ∧ schemaId < 2 ^ 32) :
    ∃ body record, encode r schemaId = .ok (0 :: bigEndian 4 schemaId.toNat ++ body) ∧
      ∀ rest, schemaReader (body ++ rest) = .ok (.record record, rest) := by
  rcases quantize_record r with ⟨quantity, hquantize, -, hprepare, -⟩
  rcases write_schema r r.quantityMw.thousandths with ⟨body, hbody⟩
  rcases decode_encode r hid with ⟨_, payload, record, -, -, hencode, hdecode, -⟩
  have hpayload : encode r schemaId = .ok (0 :: bigEndian 4 schemaId.toNat ++ body) := by
    unfold encode packHeader toAvro AvroRecord.fields
    rw [if_pos hid, ok_bind, hquantize, ok_bind, ok_bind, hprepare, ok_bind, ok_bind, hbody]
  rw [hencode] at hpayload
  cases hpayload
  refine ⟨body, record, hencode, fun rest => ?_⟩
  have hwhole := schema.read_write hbody []
  rw [List.append_nil] at hwhole
  rw [decode_wire hid, hwhole] at hdecode
  unfold schemaReader
  rw [schema.read_write hbody rest]
  rcases bind_eq_ok.mp hdecode with ⟨read, hread, hsame⟩
  cases hsame
  simp only [hread, ok_bind]

/-- What is appended to an encoded record is not noticed. -/
theorem not_decodesStrictly_append (r : GenerationRecord) {schemaId : Int}
    (hid : 0 ≤ schemaId ∧ schemaId < 2 ^ 32) {rest : WireBytes} (hrest : rest ≠ []) :
    ∃ payload, encode r schemaId = .ok payload ∧
      ¬ DecodesStrictly schemaReader (payload ++ rest) := by
  rcases encode_reads r hid with ⟨body, record, hencode, hreads⟩
  refine ⟨_, hencode, ?_⟩
  have hjoin : 0 :: bigEndian 4 schemaId.toNat ++ body ++ rest =
      0 :: bigEndian 4 schemaId.toNat ++ (body ++ rest) := List.append_assoc _ _ _
  rw [hjoin, decodesStrictly_wire_iff (fun _ _ => schemaReader_error) hid]
  rintro (⟨_, hother⟩ | ⟨record', hencodes⟩)
  · rw [hreads rest] at hother
    cases hother
  · rw [Encodes, hreads rest] at hencodes
    cases hencodes
    exact hrest rfl

/-- No body at all raises what the reader raises, and a byte behind the record
is let through. -/
theorem loose_payloads_decode : ¬ DecodesStrictly schemaReader headless ∧
    ∃ payload, encode quarterRecord 258 = .ok payload ∧
      ¬ DecodesStrictly schemaReader (payload ++ [0]) := by
  refine ⟨fun hstrict => ?_, not_decodesStrictly_append quarterRecord (by decide) (by decide)⟩
  have hraise : decodeBy schemaReader headless = raise .EOFError [] := rfl
  cases hstrict.raises _ hraise

end Gridlens
