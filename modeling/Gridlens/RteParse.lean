import Mathlib.Data.List.Infix
import Gridlens.Decimals
import Gridlens.Gate

/-!
# Reading an RTE payload

`gridlens.ingest.rte_parse`, from the parsed json on. RTE signs its values
where entso-e publishes two series, so the sign of a value becomes the
direction of its record, and it marks no positions, so a period it leaves out
is found by walking the window.
-/

namespace Gridlens

/-! ## Json values -/

/-- What `json.loads` returns. A container and a number carry what `str` makes
of them; the keys of an object are distinct. -/
inductive Json where
  | null
  | bool (value : Bool)
  | number (str : String) (zero : Bool)
  | string (value : String)
  | array (str : String) (items : List Json)
  | object (str : String) (fields : List (String × Json))

namespace Json

/-- `str(value)`. -/
def str : Json → String
  | null => "None"
  | bool value => if value then "True" else "False"
  | number str _ => str
  | string value => value
  | array str _ => str
  | object str _ => str

/-- `bool(value)`. -/
def truthy : Json → Bool
  | null => false
  | bool value => value
  | number _ zero => !zero
  | string value => value ≠ ""
  | array _ items => !items.isEmpty
  | object _ fields => !fields.isEmpty

/-- `value.get(key)`. -/
def get (key : String) : Json → Py (Option Json)
  | object _ fields => .ok (fields.lookup key)
  | _ => raise .AttributeError [.text "object has no attribute 'get'"]

/-- `value[key]`. -/
def getItem (key : String) : Json → Py Json
  | object _ fields =>
      match fields.lookup key with
      | some value => .ok value
      | none => raise .KeyError [.repr key]
  | _ => raise .TypeError [.text "indices must be integers"]

/-- `key in value`. -/
def contains (key : String) : Json → Py Bool
  | object _ fields => .ok (fields.lookup key).isSome
  | array _ items => .ok (items.any fun item => match item with
      | string value => value = key
      | _ => false)
  | string value => .ok (decide (key.toList <:+: value.toList))
  | _ => raise .TypeError [.text "argument is not iterable"]

/-- `for item in value`. -/
def items : Json → Py (List Json)
  | array _ items => .ok items
  | object _ fields => .ok (fields.map fun field => string field.1)
  | string value => .ok (value.toList.map fun c => string (String.ofList [c]))
  | _ => raise .TypeError [.text "object is not iterable"]

/-- `repr(value)`, where no text has a quote. -/
def reprOf : Json → String
  | .string value => "'" ++ value ++ "'"
  | value => value.str

/-- A list, with its text. -/
def listOf (items : List Json) : Json :=
  .array ("[" ++ ", ".intercalate (items.map reprOf) ++ "]") items

/-- A dictionary, with its text. -/
def dictOf (fields : List (String × Json)) : Json :=
  .object ("\x7b" ++ ", ".intercalate (fields.map fun f => "'" ++ f.1 ++ "': " ++ f.2.reprOf) ++ "\x7d")
    fields

end Json

/-! ## Times and spans -/

/-- `_instant`. -/
def Json.instant (readers : Readers) : Json → Py Instant
  | string text => do
      let moment ← readers.datetime text
      match moment.utcoffset with
      | none => raise .ValueError [.text "timestamp without an offset: ", .repr text]
      | some offset => Instant.ofMicros (moment.wall - offset)
  | _ => raise .TypeError [.text "fromisoformat: argument must be str"]

/-- `_optional_instant`. -/
def optionalInstant (readers : Readers) : Option Json → Py (Option Instant)
  | some text => if text.truthy then (text.instant readers).map some else .ok none
  | none => .ok none

/-- Two digits. -/
def twoDigits (n : Int) : String := if n < 10 then "0" ++ toString n else toString n

/-- `str(span)`. -/
def timedeltaStr (span : Int) : String :=
  let days := span / DAY
  let rest := span % DAY
  let micros := toString (rest % SECOND)
  (if days = 0 then "" else
    toString days ++ (if days.natAbs = 1 then " day, " else " days, ")) ++
  toString (rest / HOUR) ++ ":" ++ twoDigits (rest % HOUR / MINUTE) ++ ":" ++
    twoDigits (rest % MINUTE / SECOND) ++
  (if rest % SECOND = 0 then "" else
    "." ++ String.ofList (List.replicate (6 - micros.length) '0') ++ micros)

/-- The text of a list of strings. -/
def strings (l : List String) : List Piece :=
  .text "[" :: [Piece.text ", "].intercalate (l.map fun s => [.repr s]) ++ [.text "]"]

/-- `v["end_date"]` less `v["start_date"]`, where there is an `end_date`. -/
def spanOf (readers : Readers) (v : Json) : Py (Option Int) := do
  if ← v.contains "end_date" then
    let stop ← (← v.getItem "end_date").instant readers
    let start ← (← v.getItem "start_date").instant readers
    .ok (some (stop.micros - start.micros))
  else .ok none

/-- `_expected`: every step from the start that lies before the end. Each one
is followed by an addition, the last of which leaves the window. -/
def expected (start stop : Instant) (resolution : Int) : Py (List Instant) :=
  if stop.micros ≤ start.micros then .ok []
  else if resolution = 0 then raise .MemoryError []
  else if resolution < 0 then raise .OverflowError [.text "date value out of range"]
  else do
    let count := ((stop.micros - start.micros + resolution - 1) / resolution).toNat
    let moments ← (List.range (count + 1)).mapM fun i : Nat =>
      Instant.ofMicros (start.micros + i * resolution)
    .ok moments.dropLast

/-! ## Entries -/

abbrev RESOURCE : String := "actual_generations_per_production_type"

abbrev TOTAL : String := "TOTAL"

/-- RTE names the sectors, entso-e numbers them. -/
def PRODUCTION_TYPES : List (String × ProductionType) :=
  [("BIOMASS", .BIOMASS), ("FOSSIL_GAS", .GAS), ("FOSSIL_HARD_COAL", .HARD_COAL),
    ("FOSSIL_OIL", .OIL), ("FOSSIL_BROWN_COAL", .LIGNITE),
    ("HYDRO_PUMPED_STORAGE", .HYDRO_PUMPED_STORAGE),
    ("HYDRO_RUN_OF_RIVER_AND_POUNDAGE", .HYDRO_RUN_OF_RIVER),
    ("HYDRO_WATER_RESERVOIR", .HYDRO_RESERVOIR), ("NUCLEAR", .NUCLEAR), ("SOLAR", .SOLAR),
    ("WASTE", .WASTE), ("WIND_OFFSHORE", .WIND_OFFSHORE), ("WIND_ONSHORE", .WIND_ONSHORE),
    ("EXCHANGE", .OTHER)]

/-- `str(entry.get("production_type", ""))`. -/
def rawType (entry : Json) : Py String := do
  .ok ((← entry.get "production_type").getD (.string "")).str

/-- The dictionary of the values by their `start_date`. -/
def presentOf (readers : Readers) (items : List Json) : Py (List (Instant × Json)) :=
  items.mapM fun v => do .ok (← (← v.getItem "start_date").instant readers, v)

/-- `present.get(moment)`; of two values with one start the last one stays. -/
def lookupPresent (present : List (Instant × Json)) (moment : Instant) : Option Json :=
  (present.reverse.find? fun p => p.1 = moment).map Prod.snd

/-- The direction a signed value has. -/
def directionOf (negative : Bool) : Direction := if negative then .consumption else .generation

/-- The keyword arguments a record is built from. -/
def rteCandidate (zone : BiddingZone) (knownAt : DateTime) (productionType : ProductionType)
    (resolution : Int) (moment : Instant) (negative : Bool) (updated : Option Instant)
    (magnitude : Decimal) : Candidate where
  source := "rte"
  sourceDocumentId := none
  zone := zone.value
  productionType := productionType.value
  direction := (directionOf negative).value
  unit := "MW"
  -- `int(resolution.total_seconds() // 60)`
  resolutionMinutes := resolution / MINUTE
  validTime := moment.toDateTime
  knownAt := knownAt
  sourceUpdatedAt := some (updated.map Instant.toDateTime)
  quantityMw := magnitude

section Normalise

variable (readers : Readers) (zone : BiddingZone) (knownAt : DateTime)

/-- One moment of the window. -/
def normaliseMoment (productionType : ProductionType) (resolution : Int)
    (present : List (Instant × Json)) (result : GateResult) (moment : Instant) : Py GateResult :=
  match lookupPresent present moment with
  | none =>
      .ok { result with gaps := result.gaps ++
        [⟨zone.value, productionType.value, .generation, moment, 0⟩] }
  | some value => do
      let quantity ← readers.decimal (← value.getItem "value").str
      let negative ← quantity.isNegative
      let updated ← optionalInstant readers (← value.get "updated_date")
      let magnitude ← quantity.abs
      .ok (result.add
        (rteCandidate zone knownAt productionType resolution moment negative updated magnitude))

/-- The values of an entry that has some. -/
def normaliseValues (entry : Json) (raw : String) (productionType : ProductionType)
    (result : GateResult) (values : Json) : Py GateResult := do
  let items ← values.items
  let spans := ((← items.mapM (spanOf readers)).filterMap id).dedup
  match spans with
  | [resolution] => do
      let present ← presentOf readers items
      let start ← (← entry.getItem "start_date").instant readers
      let stop ← (← entry.getItem "end_date").instant readers
      (← expected start stop resolution).foldlM
        (normaliseMoment readers zone knownAt productionType resolution present) result
  | spans =>
      .ok { result with violations := result.violations ++
        [⟨"mixed_resolution",
          [.text raw, .text " carries spans "] ++
            strings ((spans.map timedeltaStr).mergeSort (· ≤ ·)),
          [("production_type", .str raw), ("source", .str "rte")]⟩] }

/-- `_normalise_entry`. -/
def normaliseEntry (result : GateResult) (entry : Json) : Py GateResult := do
  let raw ← rawType entry
  match PRODUCTION_TYPES.lookup raw with
  | none =>
      .ok { result with violations := result.violations ++
        [⟨"unknown_production_type", [.repr raw, .text " has no entsoe equivalent"],
          [("production_type", .str raw), ("source", .str "rte")]⟩] }
  | some productionType =>
      match ← entry.get "values" with
      | some values =>
          if values.truthy then
            normaliseValues readers zone knownAt entry raw productionType result values
          else .ok result
      | none => .ok result

/-- The aggregate sits in the same list as its components. -/
def isTotal (entry : Json) : Py Bool := do
  .ok (match ← entry.get "production_type" with
    | some (.string text) => text = TOTAL
    | _ => false)

/-- `payload[RESOURCE]`, as the loop takes it. A list of other things than
texts may not sort, and raises either way. -/
def entries (payload : Json) : Py (List Json) := do
  if ← payload.contains RESOURCE then (← payload.getItem RESOURCE).items
  else
    let keys := (← payload.items).map Json.str
    raise .ValueError ([.text "expected a ", .text RESOURCE, .text " payload, got "] ++
      strings (keys.mergeSort (· ≤ ·)))

def parseActualGeneration (payload : Json) : Py GateResult := do
  (← entries payload).foldlM (fun result entry => do
    if ← isTotal entry then .ok result
    else normaliseEntry readers zone knownAt result entry) ⟨[], [], []⟩

end Normalise

/-! ## What a record of a payload says -/

/-- The entry gives this decimal for the period that starts at the moment. -/
def Gives (readers : Readers) (entry : Json) (moment : Instant) (quantity : Decimal) : Prop :=
  ∃ values items present value text, entry.get "values" = .ok (some values) ∧
    values.items = .ok items ∧ presentOf readers items = .ok present ∧
    lookupPresent present moment = some value ∧ value.getItem "value" = .ok text ∧
    readers.decimal text.str = .ok quantity

theorem Gives.unique {readers : Readers} {entry : Json} {moment : Instant} {q q' : Decimal}
    (h : Gives readers entry moment q) (h' : Gives readers entry moment q') : q = q' := by
  obtain ⟨values, items, present, value, text, hvalues, hitems, hpresent, hvalue, htext, hq⟩ := h
  obtain ⟨values', items', present', value', text', hvalues', hitems', hpresent', hvalue', htext',
    hq'⟩ := h'
  rw [hvalues] at hvalues'
  obtain rfl := Option.some.inj (Except.ok.inj hvalues')
  rw [hitems] at hitems'
  obtain rfl := Except.ok.inj hitems'
  rw [hpresent] at hpresent'
  obtain rfl := Except.ok.inj hpresent'
  rw [hvalue] at hvalue'
  obtain rfl := Option.some.inj hvalue'
  rw [htext] at htext'
  obtain rfl := Except.ok.inj htext'
  rw [hq] at hq'
  exact Except.ok.inj hq'

/-- The production type an entry is about. -/
def productionTypeOf (entry : Json) : Option ProductionType :=
  match rawType entry with
  | .ok raw => PRODUCTION_TYPES.lookup raw
  | .error _ => none

/-- What a record took from its entry. -/
structure TakenFrom (readers : Readers) (zone : BiddingZone) (knownAt : DateTime) (entry : Json)
    (quantity : Decimal) (r : GenerationRecord) : Prop where
  productionType : productionTypeOf entry = some r.productionType
  source : r.source = .rte
  zone : r.zone = zone
  knownAt : r.knownAt.micros = knownAt.wall
  gives : Gives readers entry r.validTime quantity
  direction : quantity.isNegative = .ok (r.direction = .consumption)
  magnitude : quantity.abs = .ok r.quantityMw

section Read

variable {readers : Readers} {zone : BiddingZone} {knownAt : DateTime} {entry : Json}
  {result result' : GateResult}

/-- An accepted record of a candidate made of an entry. -/
theorem takenFrom_built {productionType : ProductionType} {resolution : Int} {moment : Instant}
    {negative : Bool} {updated : Option Instant} {quantity magnitude : Decimal}
    {r : GenerationRecord} (htype : productionTypeOf entry = some productionType)
    (hgives : Gives readers entry moment quantity) (hnegative : quantity.isNegative = .ok negative)
    (hmagnitude : quantity.abs = .ok magnitude)
    (hvalid : validate (rteCandidate zone knownAt productionType resolution moment negative updated
      magnitude) = .ok r) : r.validTime = moment ∧ TakenFrom readers zone knownAt entry quantity r := by
  obtain ⟨hsource, hzone, hproduction, hdirection, htime, hknown⟩ := validate_ok hvalid
  have hquantity := (validate_quantity hvalid).1
  have hmoment : r.validTime = moment := Instant.ext htime
  have hdirection : r.direction = directionOf negative := Direction.value_injective hdirection
  refine ⟨hmoment, ?_, Source.value_injective hsource, BiddingZone.value_injective hzone, hknown,
    hmoment ▸ hgives, ?_, ?_⟩
  · rw [htype, ProductionType.value_injective hproduction]
  · rw [hnegative, hdirection]
    cases negative <;> rfl
  · rw [hquantity]
    exact hmagnitude

theorem micros_moments {start resolution : Int} {l : List Nat} {us : List Instant}
    (h : List.Forall₂ (fun (i : Nat) u => Instant.ofMicros (start + i * resolution) = .ok u) l us) :
    us.map Instant.micros = l.map fun i : Nat => start + i * resolution := by
  induction h with
  | nil => rfl
  | cons hu _ ih => rw [List.map_cons, List.map_cons, ih, Instant.ofMicros_ok hu]

/-- No moment of a window comes twice. -/
theorem nodup_expected {start stop : Instant} {resolution : Int} {moments : List Instant}
    (h : expected start stop resolution = .ok moments) : moments.Nodup := by
  unfold expected at h
  split at h
  · obtain rfl := Except.ok.inj h
    exact List.nodup_nil
  · split at h
    · cases h
    · split at h
      · cases h
      · rename_i hzero hnegative
        obtain ⟨all, hall, heq⟩ := bind_eq_ok.mp h
        obtain rfl := Except.ok.inj heq
        have hinjective : Function.Injective fun i : Nat => start.micros + i * resolution := by
          intro i j hij
          have hmul : (i : Int) * resolution = j * resolution := by
            simp only at hij
            omega
          exact Int.ofNat_inj.mp (Int.eq_of_mul_eq_mul_right hzero hmul)
        have hnodup : (all.map Instant.micros).Nodup := by
          rw [micros_moments (mapM_eq_ok.mp hall)]
          exact List.nodup_range.map hinjective
        exact (List.dropLast_sublist all).nodup hnodup.of_map

/-- The records of an entry: what each took from it, and one period each. -/
def RecordsOf (readers : Readers) (zone : BiddingZone) (knownAt : DateTime) (entry : Json)
    (records : List GenerationRecord) : Prop :=
  (∀ r ∈ records, ∃ quantity, TakenFrom readers zone knownAt entry quantity r) ∧
    (records.map GenerationRecord.validTime).Nodup

theorem recordsOf_nil : RecordsOf readers zone knownAt entry [] :=
  ⟨fun _ hr => (nomatch hr), List.nodup_nil⟩

theorem normaliseMoment_ok {productionType : ProductionType} {resolution : Int}
    {present : List (Instant × Json)} {values : Json} {items : List Json} {moment : Instant}
    (htype : productionTypeOf entry = some productionType)
    (hvalues : entry.get "values" = .ok (some values)) (hitems : values.items = .ok items)
    (hpresent : presentOf readers items = .ok present)
    (h : normaliseMoment readers zone knownAt productionType resolution present result moment
      = .ok result') :
    ∃ records, ((records.map GenerationRecord.validTime).Sublist [moment] ∧
      ∀ r ∈ records, ∃ quantity, TakenFrom readers zone knownAt entry quantity r) ∧
      result'.records = result.records ++ records := by
  unfold normaliseMoment at h
  split at h
  · -- a gap
    obtain rfl := Except.ok.inj h
    exact ⟨[], ⟨List.nil_sublist _, fun _ hr => (nomatch hr)⟩, (List.append_nil _).symm⟩
  · rename_i value hvalue
    obtain ⟨text, htext, h⟩ := bind_eq_ok.mp h
    obtain ⟨quantity, hquantity, h⟩ := bind_eq_ok.mp h
    obtain ⟨negative, hnegative, h⟩ := bind_eq_ok.mp h
    obtain ⟨updatedDate, -, h⟩ := bind_eq_ok.mp h
    obtain ⟨updated, -, h⟩ := bind_eq_ok.mp h
    obtain ⟨magnitude, hmagnitude, h⟩ := bind_eq_ok.mp h
    obtain rfl := Except.ok.inj h
    have hgives : Gives readers entry moment quantity :=
      ⟨values, items, present, value, text, hvalues, hitems, hpresent, hvalue, htext, hquantity⟩
    unfold GateResult.add buildRecord
    cases hvalid : validate (rteCandidate zone knownAt productionType resolution moment negative
        updated magnitude) with
    | error errors =>
        exact ⟨[], ⟨List.nil_sublist _, fun _ hr => (nomatch hr)⟩, (List.append_nil _).symm⟩
    | ok r =>
        obtain ⟨htime, htaken⟩ := takenFrom_built htype hgives hnegative hmagnitude hvalid
        refine ⟨[r], ⟨?_, fun r' hr' => ⟨quantity, ?_⟩⟩, rfl⟩
        · rw [List.map_singleton, htime]
        · rw [List.mem_singleton.mp hr']
          exact htaken

/-- Records at a moment each, in the order of the moments. -/
theorem flatten_sublist {α β : Type} {f : β → α} {l : List α} {bss : List (List β)}
    {P : β → Prop}
    (h : List.Forall₂ (fun a bs => (bs.map f).Sublist [a] ∧ ∀ b ∈ bs, P b) l bss) :
    (bss.flatten.map f).Sublist l ∧ ∀ b ∈ bss.flatten, P b := by
  induction h with
  | nil => exact ⟨List.nil_sublist _, fun _ hb => (nomatch hb)⟩
  | cons hone _ ih =>
      obtain ⟨hsub, hall⟩ := ih
      rw [List.flatten_cons, List.map_append]
      refine ⟨hone.1.append hsub, fun b hb => ?_⟩
      rcases List.mem_append.mp hb with hb | hb
      · exact hone.2 b hb
      · exact hall b hb

theorem normaliseEntry_ok
    (h : normaliseEntry readers zone knownAt result entry = .ok result') :
    ∃ records, RecordsOf readers zone knownAt entry records ∧
      result'.records = result.records ++ records := by
  unfold normaliseEntry at h
  obtain ⟨raw, hraw, h⟩ := bind_eq_ok.mp h
  have hnone : ∀ r : GateResult, r.records = result.records → ∃ records,
      RecordsOf readers zone knownAt entry records ∧ r.records = result.records ++ records :=
    fun r hr => ⟨[], recordsOf_nil, by rw [hr, List.append_nil]⟩
  split at h
  · obtain rfl := Except.ok.inj h
    exact hnone _ rfl
  · rename_i productionType hlookup
    have htype : productionTypeOf entry = some productionType := by
      rw [productionTypeOf, hraw]
      exact hlookup
    obtain ⟨found, hfound, h⟩ := bind_eq_ok.mp h
    split at h
    · rename_i values
      split at h
      · unfold normaliseValues at h
        obtain ⟨items, hitems, h⟩ := bind_eq_ok.mp h
        obtain ⟨spans, -, h⟩ := bind_eq_ok.mp h
        simp only at h
        split at h
        · obtain ⟨present, hpresent, h⟩ := bind_eq_ok.mp h
          obtain ⟨startText, -, h⟩ := bind_eq_ok.mp h
          obtain ⟨start, -, h⟩ := bind_eq_ok.mp h
          obtain ⟨stopText, -, h⟩ := bind_eq_ok.mp h
          obtain ⟨stop, -, h⟩ := bind_eq_ok.mp h
          obtain ⟨moments, hmoments, h⟩ := bind_eq_ok.mp h
          obtain ⟨bss, hbss, hrecords⟩ := foldlM_appends (g := GateResult.records)
            (fun _ _ _ hstep => normaliseMoment_ok htype hfound hitems hpresent hstep) h
          obtain ⟨hsub, hall⟩ := flatten_sublist hbss
          exact ⟨bss.flatten, ⟨hall, hsub.nodup (nodup_expected hmoments)⟩, hrecords⟩
        · -- mixed spans
          obtain rfl := Except.ok.inj h
          exact hnone _ rfl
      · obtain rfl := Except.ok.inj h
        exact hnone _ rfl
    · obtain rfl := Except.ok.inj h
      exact hnone _ rfl

/-- The records of a payload are those of its entries, in order. -/
theorem parseActualGeneration_ok {payload : Json}
    (h : parseActualGeneration readers zone knownAt payload = .ok result) :
    ∃ es bss, entries payload = .ok es ∧
      List.Forall₂ (RecordsOf readers zone knownAt) es bss ∧ result.records = bss.flatten := by
  unfold parseActualGeneration at h
  obtain ⟨es, hes, h⟩ := bind_eq_ok.mp h
  have hone : ∀ (s : GateResult) (entry : Json) (s' : GateResult), (do
      if ← isTotal entry then .ok s else normaliseEntry readers zone knownAt s entry) = .ok s' →
      ∃ records, RecordsOf readers zone knownAt entry records ∧
        s'.records = s.records ++ records := by
    intro s entry s' hstep
    obtain ⟨total, -, hstep⟩ := bind_eq_ok.mp hstep
    split at hstep
    · obtain rfl := Except.ok.inj hstep
      exact ⟨[], recordsOf_nil, (List.append_nil _).symm⟩
    · exact normaliseEntry_ok hstep
  obtain ⟨bss, hbss, hrecords⟩ := foldlM_appends (g := GateResult.records) hone h
  exact ⟨es, bss, hes, hbss, by rw [hrecords, List.nil_append]⟩

theorem taken_of_mem {payload : Json}
    (h : parseActualGeneration readers zone knownAt payload = .ok result) {r : GenerationRecord}
    (hr : r ∈ result.records) : ∃ es entry quantity, entries payload = .ok es ∧ entry ∈ es ∧
      TakenFrom readers zone knownAt entry quantity r := by
  obtain ⟨es, bss, hes, hbss, hrecords⟩ := parseActualGeneration_ok h
  rw [hrecords] at hr
  obtain ⟨records, hmem, hr⟩ := List.mem_flatten.mp hr
  obtain ⟨entry, hentry, hof⟩ := exists_of_mem_right hbss hmem
  obtain ⟨quantity, htaken⟩ := hof.1 r hr
  exact ⟨es, entry, quantity, hes, hentry, htaken⟩

/-- No two entries are about one production type. -/
def TypesOnce (payload : Json) : Prop :=
  ∀ es, entries payload = .ok es → (es.filterMap productionTypeOf).Nodup

/-- What a record is about. -/
def GenerationRecord.period (r : GenerationRecord) : ProductionType × Instant :=
  (r.productionType, r.validTime)

/-- A payload with each type once gives each period of a type one record. -/
theorem nodup_periods {payload : Json}
    (h : parseActualGeneration readers zone knownAt payload = .ok result)
    (honce : TypesOnce payload) : (result.records.map GenerationRecord.period).Nodup := by
  obtain ⟨es, bss, hes, hbss, hrecords⟩ := parseActualGeneration_ok h
  have htypes := honce es hes
  rw [hrecords]
  clear hes hrecords honce h
  induction hbss with
  | nil => exact List.nodup_nil
  | @cons entry records es bss hof hrest ih =>
      rw [List.flatten_cons, List.map_append, List.nodup_append]
      have hsub : (es.filterMap productionTypeOf).Sublist
          ((entry :: es).filterMap productionTypeOf) :=
        (List.sublist_cons_self entry es).filterMap _
      refine ⟨?_, ih (hsub.nodup htypes), ?_⟩
      · -- within an entry the moments differ
        have htimes : ((records.map GenerationRecord.period).map Prod.snd).Nodup := by
          rw [List.map_map]
          exact hof.2
        exact htimes.of_map
      · -- between entries the types do
        intro i hi j hj hij
        obtain ⟨r, hr, rfl⟩ := List.mem_map.mp hi
        obtain ⟨r', hr', rfl⟩ := List.mem_map.mp hj
        obtain ⟨quantity, htaken⟩ := hof.1 r hr
        obtain ⟨records', hmem, hr'⟩ := List.mem_flatten.mp hr'
        obtain ⟨entry', hentry', hof'⟩ := exists_of_mem_right hrest hmem
        obtain ⟨quantity', htaken'⟩ := hof'.1 r' hr'
        have hsame : r.productionType = r'.productionType := congrArg Prod.fst hij
        rw [List.filterMap_cons_some htaken.productionType, List.nodup_cons] at htypes
        apply htypes.1
        rw [hsame]
        exact List.mem_filterMap.mpr ⟨entry', hentry', htaken'.productionType⟩

end Read

/-! ## The sign of a value -/

/-- What is rounded to 28 digits has 28 of them. -/
theorem le_roundDigits {digits : Nat} (h : 10 ^ 28 ≤ digits) :
    10 ^ 27 ≤ (roundDigits digits).1 := by
  have hne : digits ≠ 0 := by omega
  have hlog : 28 ≤ Nat.log 10 digits := Nat.le_log_of_pow_le (by omega) h
  have hpow : 10 ^ 27 * 10 ^ (numDigits digits - 28) ≤ digits := by
    have hlen : 27 + (numDigits digits - 28) = Nat.log 10 digits := by
      rw [numDigits]
      omega
    rw [← Nat.pow_add, hlen]
    exact Nat.pow_log_le_self 10 hne
  have hquotient : 10 ^ 27 ≤ digits / 10 ^ (numDigits digits - 28) :=
    (Nat.le_div_iff_mul_le (Nat.pow_pos (by omega))).mpr hpow
  unfold roundDigits
  simp only
  generalize digits / 10 ^ (numDigits digits - 28) = quotient at hquotient ⊢
  split_ifs <;> simp only <;> omega

/-- A magnitude the contract accepts was not rounded. -/
theorem abs_finite {negative : Bool} {digits : Nat} {exponent : Int} {magnitude : Decimal}
    (h : (Decimal.finite negative digits exponent).abs = .ok magnitude)
    (hcontract : Plausible magnitude) : magnitude = .finite false digits exponent := by
  unfold Decimal.abs at h
  simp only at h
  by_cases hsmall : digits < 10 ^ 28
  · rw [if_pos hsmall] at h
    split at h
    · cases h
    · rw [← Except.ok.inj h]
      simp
  · -- twenty-eight digits with at most three behind the point are too many
    rw [if_neg hsmall] at h
    split at h
    · cases h
    · rw [← Except.ok.inj h] at hcontract
      obtain ⟨-, hexceeds, hscale⟩ := hcontract
      have hdigits := le_roundDigits (not_lt.mp hsmall)
      generalize (roundDigits digits).1 = d at hexceeds hdigits
      generalize exponent + (roundDigits digits).2 = e at hexceeds hscale
      exfalso
      unfold exceeds at hexceeds
      rw [decide_eq_false_iff_not, not_lt] at hexceeds
      have hscale : (-e).toNat ≤ 3 := Int.toNat_le.mpr hscale
      have hthree : (10 : Nat) ^ (-e).toNat ≤ 10 ^ 3 := Nat.pow_le_pow_right (by omega) hscale
      have hone : 1 ≤ (10 : Nat) ^ e.toNat := Nat.one_le_pow _ _ (by omega)
      have hle : d ≤ d * 10 ^ e.toNat := Nat.le_mul_of_pos_right d (by omega)
      have hmax : MAX_QUANTITY_MW * 10 ^ (-e).toNat ≤ 150000 * 10 ^ 3 :=
        Nat.mul_le_mul_left _ hthree
      omega

end Gridlens
