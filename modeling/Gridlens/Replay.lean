import Mathlib.Data.List.Perm.Basic
import Gridlens.Calendar
import Gridlens.Numerals
import Gridlens.RteParse
import Gridlens.Text.Json

/-!
# Replaying what was refused

`_jsonable` in `gridlens.contracts.gate` keeps the original text of everything,
so that a quarantined row can be read back and replayed, and `serialise` in
`gridlens.contracts.quarantine` writes the rows out. The file gives back what it
was given (`readViolation_violationLine`). The texts do not always: `None` is
kept as the text of it, which is a document id like any other and no time at
all (`replays_iff`). No candidate made of an entso-e document has one; every
candidate made of an RTE entry has.
-/

namespace Gridlens

open Text (Layout fixed writeLayout writeLines readLines dumps loads)

/-! ## Texts -/

/-- The fields of a date and a clock in `isoformat`. -/
def ISO : Layout := [(4, ['-']), (2, ['-']), (2, ['T']), (2, [':']), (2, [':']), (2, [])]

/-- Microseconds behind a point, where there are some. -/
def fractionText (micros : Int) : String :=
  if micros % SECOND = 0 then ""
  else "." ++ String.ofList (fixed 10 6 (micros % SECOND).toNat)

def offsetText : Option Int → String
  | none => ""
  | some offset =>
      let span : Int := offset.natAbs
      (if offset < 0 then "-" else "+") ++ twoDigits (span / HOUR) ++ ":" ++
        twoDigits (span % HOUR / MINUTE) ++
        (if span % MINUTE = 0 then "" else ":" ++ twoDigits (span % MINUTE / SECOND)) ++
        fractionText span

/-- `moment.isoformat()`. -/
def isoformatText (wall : Int) (utcoffset : Option Int) : String :=
  let date := civilOf (wall / DAY)
  String.ofList (writeLayout 10 ISO
    [date.year, date.month, date.day, (wall % DAY / HOUR).toNat, (wall % HOUR / MINUTE).toNat,
      (wall % MINUTE / SECOND).toNat]) ++ fractionText wall ++ offsetText utcoffset

/-- The text of a part of a message, `repr` being that of the language. -/
def Piece.render (repr : String → String) : Piece → String
  | .text s => s
  | .str s => s
  | .repr s => repr s
  | .int n => String.ofList (strInt n)
  | .ints l => "[" ++ ", ".intercalate (l.map fun n => String.ofList (strInt n)) ++ "]"
  | .isoformat wall utcoffset => isoformatText wall utcoffset
  | .timedelta micros => timedeltaStr micros
  | .decimal d => String.ofList d.str
  | .none => "None"

/-- The dictionary `_jsonable` returns. -/
def payloadTexts (repr : String → String) (payload : List (String × Piece)) :
    List (String × String) :=
  payload.map fun f => (f.1, f.2.render repr)

/-! ## `build_record` on texts -/

/-- How the record class reads the text of a field that is not a text. -/
structure RecordModel where
  int : String → Option Int
  datetime : String → Option DateTime
  decimal : String → Option Decimal

def FIELDS : List String :=
  ["source", "source_document_id", "zone", "production_type", "direction", "unit",
    "resolution_minutes", "valid_time", "known_at", "source_updated_at", "quantity_mw"]

/-- The keyword arguments in a dictionary of texts. Two of them may be missing,
and there are no others. -/
def candidateOfTexts (m : RecordModel) (texts : List (String × String)) : Option Candidate := do
  if texts.any fun f => f.1 ∉ FIELDS then none
  let source ← texts.lookup "source"
  let zone ← texts.lookup "zone"
  let productionType ← texts.lookup "production_type"
  let direction ← texts.lookup "direction"
  let unit ← texts.lookup "unit"
  let resolutionMinutes ← m.int (← texts.lookup "resolution_minutes")
  let validTime ← m.datetime (← texts.lookup "valid_time")
  let knownAt ← m.datetime (← texts.lookup "known_at")
  let sourceUpdatedAt ← (texts.lookup "source_updated_at").mapM m.datetime
  let quantityMw ← m.decimal (← texts.lookup "quantity_mw")
  some {
    source := source
    sourceDocumentId := texts.lookup "source_document_id"
    zone := zone
    productionType := productionType
    direction := direction
    unit := unit
    resolutionMinutes := resolutionMinutes
    validTime := validTime
    knownAt := knownAt
    sourceUpdatedAt := sourceUpdatedAt.map some
    quantityMw := quantityMw }

/-- The record `build_record` makes of texts, if it makes one. -/
def buildFromTexts (m : RecordModel) (texts : List (String × String)) : Option GenerationRecord :=
  (candidateOfTexts m texts).bind fun c => (buildRecord c).toOption

/-- The texts of a candidate make the record it makes, or none if it makes
none. -/
def Replays (m : RecordModel) (repr : String → String) (c : Candidate) : Prop :=
  buildFromTexts m (payloadTexts repr (jsonable c)) = (buildRecord c).toOption

/-- The texts of a candidate's values are read as the values, and `"None"` is
no time. -/
structure RecordModel.Reads (m : RecordModel) (c : Candidate) : Prop where
  resolutionMinutes : m.int (String.ofList (strInt c.resolutionMinutes)) = some c.resolutionMinutes
  validTime : m.datetime (isoformatText c.validTime.wall c.validTime.utcoffset) = some c.validTime
  knownAt : m.datetime (isoformatText c.knownAt.wall c.knownAt.utcoffset) = some c.knownAt
  sourceUpdatedAt : ∀ moment ∈ c.sourceUpdatedAt.join,
    m.datetime (isoformatText moment.wall moment.utcoffset) = some moment
  quantityMw : m.decimal (String.ofList c.quantityMw.str) = some c.quantityMw
  noTime : m.datetime "None" = none

section Replay

variable {m : RecordModel} {repr : String → String} {c : Candidate}

theorem keys_jsonable (c : Candidate) : (jsonable c).map Prod.fst =
    if c.sourceUpdatedAt = none then FIELDS.erase "source_updated_at" else FIELDS := by
  unfold jsonable
  rcases c.sourceUpdatedAt with _ | _ | updated <;> rfl

theorem keys_sublist (c : Candidate) : ((jsonable c).map Prod.fst).Sublist FIELDS := by
  rw [keys_jsonable]
  split
  · exact List.erase_sublist
  · exact List.Sublist.refl _

theorem lookup_payloadTexts {name : String} {piece : Piece} (hmem : (name, piece) ∈ jsonable c) :
    (payloadTexts repr (jsonable c)).lookup name = some (piece.render repr) := by
  refine Text.lookup_of_mem ?_ (List.mem_map.mpr ⟨_, hmem, rfl⟩)
  have hnodup : FIELDS.Nodup := by decide
  rw [payloadTexts, List.map_map]
  exact hnodup.sublist (keys_sublist c)

/-- The time the source gives, as its text is read. -/
theorem updated_payloadTexts (hreads : m.Reads c) :
    ((payloadTexts repr (jsonable c)).lookup "source_updated_at").mapM m.datetime =
      if c.sourceUpdatedAt = some none then none else some c.sourceUpdatedAt.join := by
  cases hupdated : c.sourceUpdatedAt with
  | none =>
      have habsent : (payloadTexts repr (jsonable c)).lookup "source_updated_at" = none := by
        rw [List.lookup_eq_none_iff]
        simp [payloadTexts, jsonable, hupdated]
      rw [habsent, if_neg (by simp)]
      rfl
  | some moment =>
      cases moment with
      | none =>
          have hmem : ("source_updated_at", Piece.none) ∈ jsonable c := by simp [jsonable, hupdated]
          rw [lookup_payloadTexts hmem, if_pos rfl]
          show (m.datetime "None").map some = none
          rw [hreads.noTime]
          rfl
      | some moment =>
          have hmem : ("source_updated_at", isoformat moment) ∈ jsonable c := by
            simp [jsonable, hupdated]
          rw [lookup_payloadTexts hmem, if_neg (by simp)]
          show (m.datetime (isoformatText moment.wall moment.utcoffset)).map some = _
          rw [hreads.sourceUpdatedAt moment (by simp [hupdated])]
          rfl

/-- What is read back of a candidate. -/
theorem candidateOfTexts_jsonable (hreads : m.Reads c) :
    candidateOfTexts m (payloadTexts repr (jsonable c)) =
      if c.sourceUpdatedAt = some none then none
      else some { c with sourceDocumentId := some (c.sourceDocumentId.getD "None") } := by
  have hlookup : ∀ name piece, (name, piece) ∈ jsonable c →
      (payloadTexts repr (jsonable c)).lookup name = some (piece.render repr) :=
    fun name piece hmem => lookup_payloadTexts hmem
  have hknown : ∀ f ∈ payloadTexts repr (jsonable c), f.1 ∈ FIELDS := by
    intro f hf
    rcases List.mem_map.mp hf with ⟨g, hg, rfl⟩
    exact (keys_sublist c).subset (List.mem_map_of_mem hg)
  unfold candidateOfTexts
  rw [if_neg (by simpa using hknown)]
  refine (some_bind (hlookup "source" (.str c.source) (by simp [jsonable])) _).trans ?_
  refine (some_bind (hlookup "zone" (.str c.zone) (by simp [jsonable])) _).trans ?_
  refine (some_bind (hlookup "production_type" (.str c.productionType) (by simp [jsonable])) _).trans ?_
  refine (some_bind (hlookup "direction" (.str c.direction) (by simp [jsonable])) _).trans ?_
  refine (some_bind (hlookup "unit" (.str c.unit) (by simp [jsonable])) _).trans ?_
  refine (some_bind (hlookup "resolution_minutes" (.int c.resolutionMinutes) (by simp [jsonable])) _).trans ?_
  refine (some_bind hreads.resolutionMinutes _).trans ?_
  refine (some_bind (hlookup "valid_time" (isoformat c.validTime) (by simp [jsonable])) _).trans ?_
  refine (some_bind hreads.validTime _).trans ?_
  refine (some_bind (hlookup "known_at" (isoformat c.knownAt) (by simp [jsonable])) _).trans ?_
  refine (some_bind hreads.knownAt _).trans ?_
  rw [updated_payloadTexts hreads]
  by_cases hnone : c.sourceUpdatedAt = some none
  · rw [if_pos hnone, if_pos hnone]
    rfl
  · rw [if_neg hnone, if_neg hnone]
    refine (some_bind rfl _).trans ?_
    refine (some_bind (hlookup "quantity_mw" (.decimal c.quantityMw) (by simp [jsonable])) _).trans ?_
    refine (some_bind hreads.quantityMw _).trans ?_
    have hdocument : (payloadTexts repr (jsonable c)).lookup "source_document_id" =
        some (c.sourceDocumentId.getD "None") := by
      rw [hlookup "source_document_id" (strOrNone c.sourceDocumentId) (by simp [jsonable])]
      cases c.sourceDocumentId <;> rfl
    have hjoin : c.sourceUpdatedAt.join.map some = c.sourceUpdatedAt := by
      cases hupdated : c.sourceUpdatedAt with
      | none => rfl
      | some moment =>
          cases moment with
          | none => exact absurd hupdated hnone
          | some moment => rfl
    rw [hdocument, hjoin]
    rfl

theorem toOption_buildRecord (c : Candidate) : (buildRecord c).toOption = (validate c).toOption := by
  unfold buildRecord
  split <;> simp_all [Except.toOption]

/-- A refused candidate makes no record. -/
theorem toOption_eq_none (h : ¬ c.Meets) : (buildRecord c).toOption = none := by
  rw [toOption_buildRecord]
  cases hvalid : validate c with
  | ok r => exact absurd (validate_accepts_iff.mp ⟨r, hvalid⟩) h
  | error e => rfl

theorem toOption_eq_some (h : c.Meets) : ∃ r, (buildRecord c).toOption = some r ∧
    r.sourceDocumentId = c.sourceDocumentId := by
  rcases validate_accepts_iff.mpr h with ⟨r, hr⟩
  refine ⟨r, ?_, (validate_rest hr).1⟩
  rw [toOption_buildRecord, hr]
  rfl

/-- Nothing the contract asks is about the document. -/
theorem meets_document {text : Option String} :
    Candidate.Meets { c with sourceDocumentId := text } ↔ c.Meets :=
  ⟨fun h => ⟨h.1, h.2, h.3, h.4, h.5, h.6, h.7, h.8, h.9, h.10, h.11, h.12⟩,
    fun h => ⟨h.1, h.2, h.3, h.4, h.5, h.6, h.7, h.8, h.9, h.10, h.11, h.12⟩⟩

/-- A candidate is replayed as the record it makes unless it carries a `None`,
and then only if the contract refuses it. -/
theorem replays_iff_of_reads (hreads : m.Reads c) : Replays m repr c ↔
    ¬ c.Meets ∨ (c.sourceDocumentId ≠ none ∧ c.sourceUpdatedAt ≠ some none) := by
  unfold Replays buildFromTexts
  rw [candidateOfTexts_jsonable hreads]
  by_cases hmeets : c.Meets
  · rcases toOption_eq_some hmeets with ⟨r, hr, hdocument⟩
    rw [hr]
    by_cases hnone : c.sourceUpdatedAt = some none
    · rw [if_pos hnone]
      simp [hmeets, hnone]
    · rw [if_neg hnone]
      cases hgiven : c.sourceDocumentId with
      | some text =>
          have hsame : { c with sourceDocumentId := some ((some text).getD "None") } = c := by
            rw [Option.getD_some, ← hgiven]
          rw [hsame]
          simp [hr, hnone]
      | none =>
          -- the document is called "None" when it is replayed
          rcases toOption_eq_some ((@meets_document c (some "None")).mpr hmeets) with
            ⟨r', hr', hdocument'⟩
          have hother : r' ≠ r := by
            rintro rfl
            rw [hdocument, hgiven] at hdocument'
            cases hdocument'
          simp [hr', hother, hmeets]
  · rw [toOption_eq_none hmeets]
    refine ⟨fun _ => Or.inl hmeets, fun _ => ?_⟩
    split
    · rfl
    · exact toOption_eq_none fun h => hmeets (meets_document.mp h)

end Replay

/-! ## The quarantine file -/

/-- A violation as the file has it: texts, under distinct keys. -/
structure ViolationTexts where
  reason : String
  detail : String
  payload : List (String × String)

def Violation.texts (repr : String → String) (v : Violation) : ViolationTexts :=
  ⟨v.reason, String.join (v.detail.map (Piece.render repr)), payloadTexts repr v.payload⟩

def violationLine (seenAt : DateTime) (v : ViolationTexts) : List Char :=
  dumps (.object
    [("seen_at", .str (isoformatText seenAt.wall seenAt.utcoffset)), ("reason", .str v.reason),
      ("detail", .str v.detail), ("payload", .object (v.payload.map fun f => (f.1, .str f.2)))])

/-- `serialise`. -/
def serialiseViolations (repr : String → String) (violations : List Violation)
    (seenAt : DateTime) : ByteArray :=
  writeLines (violations.map fun v => violationLine seenAt (v.texts repr))

def strOf : Text.Json → Option String
  | .str text => some text
  | _ => none

def fieldsOf : Text.Json → Option (List (String × String))
  | .object fields => fields.mapM fun f => (strOf f.2).map fun text => (f.1, text)
  | _ => none

/-- A line of the file: when it was seen, and the violation. -/
def readViolation (line : List Char) : Option (String × ViolationTexts) := do
  let line ← loads line
  let seenAt ← strOf (← line.get? "seen_at")
  let reason ← strOf (← line.get? "reason")
  let detail ← strOf (← line.get? "detail")
  let payload ← fieldsOf (← line.get? "payload")
  some (seenAt, ⟨reason, detail, payload⟩)

/-- The same violation; the order of a dictionary is no matter. -/
structure ViolationTexts.Same (v w : ViolationTexts) : Prop where
  reason : v.reason = w.reason
  detail : v.detail = w.detail
  payload : v.payload.Perm w.payload

theorem fieldsOf_sortKeys (payload : List (String × String)) :
    ∃ sorted, fieldsOf (Text.Json.object (payload.map fun f => (f.1, .str f.2))).sortKeys =
      some sorted ∧ sorted.Perm payload := by
  rcases Text.sortKeys_object (payload.map fun f => (f.1, Text.Json.str f.2)) with
    ⟨fields, hfields, hperm⟩
  rw [List.map_map] at hperm
  have hpairs : List.Forall₂ (fun (f : String × Text.Json) g => f = (g.1, .str g.2))
      (payload.map fun f => (f.1, Text.Json.str f.2)) payload :=
    List.forall₂_map_left_iff.mpr (List.forall₂_same.mpr fun _ _ => rfl)
  rcases List.perm_comp_forall₂ hperm hpairs with ⟨sorted, hsorted, hback⟩
  refine ⟨sorted, ?_, hback⟩
  rw [hfields]
  unfold fieldsOf
  simp only
  clear hfields hperm hback
  induction hsorted with
  | nil => rfl
  | cons hone _ ih =>
      rw [List.mapM_cons, ih, hone]
      rfl

theorem readViolation_violationLine (seenAt : DateTime) (v : ViolationTexts) :
    ∃ w, readViolation (violationLine seenAt v) =
      some (isoformatText seenAt.wall seenAt.utcoffset, w) ∧ w.Same v := by
  rcases fieldsOf_sortKeys v.payload with ⟨sorted, hsorted, hperm⟩
  refine ⟨⟨v.reason, v.detail, sorted⟩, ?_, rfl, rfl, hperm⟩
  have hget : ∀ name value, (name, value) ∈ [("seen_at",
      Text.Json.str (isoformatText seenAt.wall seenAt.utcoffset)), ("reason", .str v.reason),
      ("detail", .str v.detail), ("payload", .object (v.payload.map fun f => (f.1, .str f.2)))] →
      (Text.Json.object [("seen_at", .str (isoformatText seenAt.wall seenAt.utcoffset)),
        ("reason", .str v.reason), ("detail", .str v.detail),
        ("payload", .object (v.payload.map fun f => (f.1, .str f.2)))]).sortKeys.get? name =
          some value.sortKeys := by
    intro name value hmem
    refine Text.get?_sortKeys ?_ hmem
    show ["seen_at", "reason", "detail", "payload"].Nodup
    decide
  unfold readViolation violationLine
  refine (some_bind (Text.loads_dumps _) _).trans ?_
  refine (some_bind (hget "seen_at" _ (by simp; rfl)) _).trans ?_
  refine (some_bind rfl _).trans ?_
  refine (some_bind (hget "reason" _ (by simp; rfl)) _).trans ?_
  refine (some_bind rfl _).trans ?_
  refine (some_bind (hget "detail" _ (by simp; rfl)) _).trans ?_
  refine (some_bind rfl _).trans ?_
  refine (some_bind (hget "payload" _ (by simp; rfl)) _).trans ?_
  exact some_bind hsorted _

/-- The file is read back as the violations it was given, line by line. -/
def GivesBack (repr : String → String) (violations : List Violation) (seenAt : DateTime) : Prop :=
  ∃ ls, readLines (serialiseViolations repr violations seenAt) = some ls ∧
    List.Forall₂ (fun l (v : Violation) => ∃ w, readViolation l =
      some (isoformatText seenAt.wall seenAt.utcoffset, w) ∧ w.Same (v.texts repr)) ls violations

theorem givesBack (repr : String → String) (violations : List Violation) (seenAt : DateTime) :
    GivesBack repr violations seenAt := by
  refine ⟨_, Text.readLines_writeLines fun l hl => ?_, ?_⟩
  · rcases List.mem_map.mp hl with ⟨v, -, rfl⟩
    exact Text.newline_notMem_dumps _
  · rw [List.forall₂_map_left_iff]
    exact List.forall₂_same.mpr fun v _ => readViolation_violationLine seenAt _

/-! ## What is replayed -/

section Normalisers

variable {m : RecordModel} {repr : String → String} {c : Candidate}

/-- What is quarantined can be read back, and replayed as the record it would
make exactly where the contract refuses it or it carries no `None`. -/
theorem replays_iff (hreads : m.Reads c) (violations : List Violation) (seenAt : DateTime) :
    (Replays m repr c ∧ GivesBack repr violations seenAt) ↔
      ¬ c.Meets ∨ (c.sourceDocumentId ≠ none ∧ c.sourceUpdatedAt ≠ some none) := by
  have hreplays : Replays m repr c ↔ _ := replays_iff_of_reads hreads
  rw [← hreplays]
  exact ⟨And.left, fun h => ⟨h, givesBack repr violations seenAt⟩⟩

/-- Every candidate of an entso-e document is replayed. -/
theorem entsoe_replays {document : Document} {series : GenerationSeries} {minutes : Int}
    {knownAt : DateTime} {observation : Observation}
    (hreads : m.Reads (candidateOf document series minutes knownAt observation)) :
    Replays m repr (candidateOf document series minutes knownAt observation) :=
  (replays_iff_of_reads hreads).mpr (Or.inr ⟨nofun, nofun⟩)

/-- A candidate of an RTE entry is not, unless it is refused again. -/
theorem rte_replays_iff {zone : BiddingZone} {knownAt : DateTime} {productionType : ProductionType}
    {resolution : Int} {moment : Instant} {negative : Bool} {updated : Option Instant}
    {magnitude : Decimal}
    (hreads : m.Reads (rteCandidate zone knownAt productionType resolution moment negative updated
      magnitude)) :
    Replays m repr (rteCandidate zone knownAt productionType resolution moment negative updated
      magnitude) ↔ ¬ (rteCandidate zone knownAt productionType resolution moment negative updated
        magnitude).Meets := by
  rw [replays_iff_of_reads hreads]
  exact ⟨fun h => h.elim id fun hdocument => absurd rfl hdocument.1, Or.inl⟩

end Normalisers

/-! ## An hour from RTE -/

/-- A time in UTC, as `isoformat` writes it to the second. -/
def readUtc (text : String) : Option DateTime :=
  match Text.readLayout 10 ISO text.toList with
  | some ([year, month, day, hour, minute, second], ['+', '0', '0', ':', '0', '0']) =>
      match Civil.ordinal ⟨year, month, day⟩ with
      | some ordinal =>
          let wall := ordinal * DAY + hour * HOUR + minute * MINUTE + second * SECOND
          if h : WallInRange wall then some ⟨wall, some 0, h⟩ else none
      | none => none
  | _ => none

def textModel : RecordModel where
  int text := readInt text.toList
  datetime := readUtc
  decimal text := Decimal.ofText text.toList

/-- A quoted text, as `repr` gives it where nothing needs an escape. -/
def quoted (text : String) : String := "'" ++ text ++ "'"

/-- So many hours after the midnight that opens 26 August 2026. -/
def augustHour (hours : Nat) : Int := 739854 * DAY + hours * HOUR

theorem augustNoon_inRange : WallInRange (augustHour 12) := by decide

theorem augustOne_inRange : WallInRange (augustHour 13) := by decide

theorem augustTwo_inRange : WallInRange (augustHour 14) := by decide

/-- The hour at noon, changed at one and fetched at two. -/
def rteHour : Candidate :=
  rteCandidate .FR ⟨augustHour 14, some 0, augustTwo_inRange⟩ .NUCLEAR HOUR
    ⟨augustHour 12, augustNoon_inRange⟩ false (some ⟨augustHour 13, augustOne_inRange⟩)
    (.finite false 41250 0)

theorem rteHour_reads : textModel.Reads rteHour where
  resolutionMinutes := by decide +kernel
  validTime := by decide +kernel
  knownAt := by decide +kernel
  sourceUpdatedAt := by
    intro moment hmoment
    cases hmoment
    decide +kernel
  quantityMw := by decide +kernel
  noTime := by decide +kernel

theorem rteHour_meets : rteHour.Meets where
  source := by decide +kernel
  zone := by decide +kernel
  productionType := by decide +kernel
  direction := by decide +kernel
  unit := by decide +kernel
  resolutionMinutes := by decide
  validTime := rfl
  knownAt := rfl
  sourceUpdatedAt := by
    intro moment hmoment
    cases hmoment
    rfl
  quantityMw := ⟨nofun, by decide +kernel, by decide⟩
  onBoundary := by decide
  knownAfter := by decide

/-- A sector RTE has and entso-e does not. -/
def unknownSector : Violation :=
  ⟨"unknown_production_type", [.repr "TIDAL", .text " has no entsoe equivalent"],
    [("production_type", .str "TIDAL"), ("source", .str "rte")]⟩

theorem replays_iff_rteHour : GivesBack quoted [unknownSector] rteHour.knownAt ∧
    ¬ (Replays textModel quoted rteHour ∧ GivesBack quoted [unknownSector] rteHour.knownAt) := by
  refine ⟨givesBack _ _ _, fun h => ?_⟩
  rcases (replays_iff rteHour_reads [unknownSector] rteHour.knownAt).mp h with hrefused | hgiven
  · exact hrefused rteHour_meets
  · exact hgiven.1 rfl

/-- The record has no document, and the one its texts make has the document
`None`. -/
theorem rteHour_gains_document : textModel.Reads rteHour ∧ ¬ Replays textModel quoted rteHour ∧
    (∃ r, (buildRecord rteHour).toOption = some r ∧ r.sourceDocumentId = none) ∧
    ∃ r, buildFromTexts textModel (payloadTexts quoted (jsonable rteHour)) = some r ∧
      r.sourceDocumentId = some "None" := by
  have hfails : ¬ Replays textModel quoted rteHour := by
    rw [replays_iff_of_reads rteHour_reads]
    rintro (hrefused | hgiven)
    · exact hrefused rteHour_meets
    · exact hgiven.1 rfl
  refine ⟨rteHour_reads, hfails, toOption_eq_some rteHour_meets, ?_⟩
  unfold buildFromTexts
  rw [candidateOfTexts_jsonable rteHour_reads, if_neg (by decide +kernel)]
  exact toOption_eq_some ((@meets_document rteHour (some "None")).mpr rteHour_meets)

end Gridlens
