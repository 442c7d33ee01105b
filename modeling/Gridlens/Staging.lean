import Gridlens.Bronze
import Gridlens.Calendar
import Gridlens.Numerals
import Gridlens.Text.Json

/-!
# Staging

`gridlens.lake.staging`: a batch as a file of JSON, a line for each record and
every field a text, and the casts of `_STAGED` in `gridlens.lake.bronze`, which
make rows of the lines again. The two are halves of one codec: what the merge
sees of a record is `stagedRow` (`staged_unchanged`).
-/

namespace Gridlens

open Text

/-! ## `serialise` -/

/-- `_instant`; a record's moments are in UTC already. -/
def instantText : Option Instant → Option String
  | some moment => some (String.ofList (strftime moment.micros))
  | none => none

/-- The dictionary of a record. -/
def stagedFields (r : GenerationRecord) : List (String × Option String) :=
  [("source", some r.source.value), ("source_document_id", r.sourceDocumentId),
    ("zone", some r.zone.value), ("production_type", some r.productionType.value),
    ("direction", some r.direction.value), ("unit", some r.unit.value),
    ("resolution_minutes", some (String.ofList (strInt r.resolutionMinutes))),
    ("valid_time", instantText (some r.validTime)), ("known_at", instantText (some r.knownAt)),
    ("source_updated_at", instantText r.sourceUpdatedAt),
    ("quantity_mw", some (String.ofList r.quantityMw.str))]

def textOrNull : Option String → Text.Json
  | some text => .str text
  | none => .null

def stagedLine (r : GenerationRecord) : List Char :=
  dumps (.object ((stagedFields r).map fun f => (f.1, textOrNull f.2)))

def serialiseRecords (records : List GenerationRecord) : ByteArray :=
  writeLines (records.map stagedLine)

/-! ## `_STAGED` -/

/-- A column of the staging table: a text or null. -/
def column (line : Text.Json) (name : String) : Option (Option String) :=
  match line.get? name with
  | some (.str text) => some (some text)
  | some (.object _) => none
  | some .null | none => some none

/-- A column a row cannot do without. -/
def required (line : Text.Json) (name : String) : Option String := (column line name).join

/-- `CAST(text AS integer)`. -/
def castInteger (text : List Char) : Option Int :=
  match readInt text with
  | some n => if -2 ^ 31 ≤ n ∧ n < 2 ^ 31 then some n else none
  | none => none

/-- A number less its last digits, rounded half up. -/
def roundHalfUp (digits drop : Nat) : Nat := (2 * digits + 10 ^ drop) / (2 * 10 ^ drop)

/-- `CAST(text AS decimal(precision, scale))`, as a multiple of the last place. -/
def castDecimal (precision : Nat) (scale : Int) (text : List Char) : Option Int :=
  match Decimal.ofText text with
  | some (.finite negative digits exponent) =>
      let unscaled := if 0 ≤ exponent + scale then digits * 10 ^ (exponent + scale).toNat
        else roundHalfUp digits (-(exponent + scale)).toNat
      if unscaled < 10 ^ precision then some ((if negative then -1 else 1) * (unscaled : Int))
      else none
  | _ => none

/-- The row the select makes of a line, every column cast. -/
def castRow (line : List Char) : Option Row := do
  let line ← loads line
  let source ← required line "source"
  let sourceDocumentId ← column line "source_document_id"
  let zone ← required line "zone"
  let productionType ← required line "production_type"
  let direction ← required line "direction"
  let unit ← required line "unit"
  let resolutionMinutes ← castInteger (← required line "resolution_minutes").toList
  let validTime ← castTimestamp (← required line "valid_time").toList
  let knownAt ← castTimestamp (← required line "known_at").toList
  let sourceUpdatedAt ← (← column line "source_updated_at").mapM fun text =>
    castTimestamp text.toList
  let quantityMw ← castDecimal 12 3 (← required line "quantity_mw").toList
  some {
    source := source
    sourceDocumentId := sourceDocumentId
    zone := zone
    productionType := productionType
    direction := direction
    unit := unit
    resolutionMinutes := resolutionMinutes
    validTime := validTime
    knownAt := knownAt
    sourceUpdatedAt := sourceUpdatedAt
    quantityMw := quantityMw }

/-! ## Nothing changes on the way -/

/-- A row with the eleven columns of a record. -/
structure Row.Holds (row : Row) (r : GenerationRecord) : Prop where
  source : row.source = r.source.value
  sourceDocumentId : row.sourceDocumentId = r.sourceDocumentId
  zone : row.zone = r.zone.value
  productionType : row.productionType = r.productionType.value
  direction : row.direction = r.direction.value
  unit : row.unit = r.unit.value
  resolutionMinutes : row.resolutionMinutes = r.resolutionMinutes
  validTime : row.validTime = r.validTime.micros
  knownAt : row.knownAt = r.knownAt.micros
  sourceUpdatedAt : row.sourceUpdatedAt = r.sourceUpdatedAt.map Instant.micros
  quantityMw : (Decimal.ofThousandths row.quantityMw).equals r.quantityMw = true

theorem castDecimal_str (r : GenerationRecord) :
    castDecimal 12 3 r.quantityMw.str = some r.quantityMw.thousandths := by
  rcases r.quantity_finite with ⟨negative, digits, exponent, hquantity⟩
  have hcontract := r.quantity_plausible
  rw [hquantity] at hcontract ⊢
  rcases hcontract.scaled with ⟨hscale, hmax, -⟩
  unfold castDecimal
  rw [ofText_str]
  simp only
  -- at most three decimals, so nothing is rounded; at most 150000 MW, so twelve digits do
  rw [if_pos hscale, if_pos (hmax.trans_lt (by decide))]
  rfl

theorem castInteger_str (r : GenerationRecord) :
    castInteger (strInt r.resolutionMinutes) = some r.resolutionMinutes := by
  rcases r.resolution_bounds with ⟨hlow, hhigh⟩
  unfold castInteger
  rw [readInt_strInt]
  exact if_pos ⟨by omega, by omega⟩

theorem stagedRow_holds (r : GenerationRecord) : (stagedRow r).Holds r :=
  ⟨rfl, rfl, rfl, rfl, rfl, rfl, rfl, rfl, rfl, rfl, r.equals_thousandths⟩

/-- A line is read as the columns it was written from. -/
theorem loads_stagedLine (r : GenerationRecord) : ∃ line, loads (stagedLine r) = some line ∧
    ∀ name value, (name, value) ∈ stagedFields r → column line name = some value := by
  refine ⟨_, loads_dumps _, fun name value hmem => ?_⟩
  -- the keys are those of the dictionary, whatever the record
  have hkeys : (((stagedFields r).map fun f => (f.1, textOrNull f.2)).map Prod.fst).Nodup := by
    show ["source", "source_document_id", "zone", "production_type", "direction", "unit",
      "resolution_minutes", "valid_time", "known_at", "source_updated_at", "quantity_mw"].Nodup
    decide
  have hfield : (name, textOrNull value) ∈ (stagedFields r).map fun f => (f.1, textOrNull f.2) :=
    List.mem_map.mpr ⟨(name, value), hmem, rfl⟩
  unfold column
  rw [get?_sortKeys hkeys hfield]
  cases value <;> rfl

theorem castTimestamp_instant (moment : Instant) :
    castTimestamp (String.ofList (strftime moment.micros)).toList = some moment.micros := by
  rw [String.toList_ofList]
  exact castTimestamp_strftime moment.inRange

theorem mapM_castTimestamp (moment : Option Instant) :
    (instantText moment).mapM (fun text => castTimestamp text.toList) =
      some (moment.map Instant.micros) := by
  cases moment with
  | none => rfl
  | some moment =>
      show (castTimestamp _).map some = _
      rw [castTimestamp_instant]
      rfl

/-- Every column of a line is cast to that of its record. -/
theorem castRow_stagedLine (r : GenerationRecord) : castRow (stagedLine r) = some (stagedRow r) := by
  rcases loads_stagedLine r with ⟨line, hline, hcolumn⟩
  have hrequired : ∀ name text, (name, some text) ∈ stagedFields r →
      required line name = some text := by
    intro name text hmem
    rw [required, hcolumn name (some text) hmem, Option.join_some]
  have hminutes : castInteger (String.ofList (strInt r.resolutionMinutes)).toList =
      some r.resolutionMinutes := by
    rw [String.toList_ofList]
    exact castInteger_str r
  have hquantity : castDecimal 12 3 (String.ofList r.quantityMw.str).toList =
      some r.quantityMw.thousandths := by
    rw [String.toList_ofList]
    exact castDecimal_str r
  -- column by column, in the order of the select
  unfold castRow
  unfold stagedFields at hcolumn hrequired
  refine (some_bind hline _).trans ?_
  refine (some_bind (hrequired "source" _ (by simp; rfl)) _).trans ?_
  refine (some_bind (hcolumn "source_document_id" r.sourceDocumentId (by simp)) _).trans ?_
  refine (some_bind (hrequired "zone" _ (by simp; rfl)) _).trans ?_
  refine (some_bind (hrequired "production_type" _ (by simp; rfl)) _).trans ?_
  refine (some_bind (hrequired "direction" _ (by simp; rfl)) _).trans ?_
  refine (some_bind (hrequired "unit" _ (by simp; rfl)) _).trans ?_
  refine (some_bind (hrequired "resolution_minutes" _ (by simp; rfl)) _).trans ?_
  refine (some_bind hminutes _).trans ?_
  refine (some_bind (hrequired "valid_time" _ (by simp [instantText]; rfl)) _).trans ?_
  refine (some_bind (castTimestamp_instant r.validTime) _).trans ?_
  refine (some_bind (hrequired "known_at" _ (by simp [instantText]; rfl)) _).trans ?_
  refine (some_bind (castTimestamp_instant r.knownAt) _).trans ?_
  refine (some_bind (hcolumn "source_updated_at" (instantText r.sourceUpdatedAt) (by simp)) _).trans ?_
  refine (some_bind (mapM_castTimestamp r.sourceUpdatedAt) _).trans ?_
  refine (some_bind (hrequired "quantity_mw" _ (by simp; rfl)) _).trans ?_
  exact some_bind hquantity _

/-- Every record is one line of the staging file, in order; the line is cast
without an error to a row with all the record says. -/
theorem staged_unchanged (records : List GenerationRecord) :
    ∃ ls, readLines (serialiseRecords records) = some ls ∧
      List.Forall₂ (fun l r => ∃ row, castRow l = some row ∧ row.Holds r ∧ row = stagedRow r)
        ls records := by
  refine ⟨records.map stagedLine, ?_, ?_⟩
  · refine readLines_writeLines fun l hl => ?_
    rcases List.mem_map.mp hl with ⟨r, -, rfl⟩
    exact newline_notMem_dumps _
  · rw [List.forall₂_map_left_iff]
    exact List.forall₂_same.mpr fun r _ =>
      ⟨stagedRow r, castRow_stagedLine r, stagedRow_holds r, rfl⟩

end Gridlens
