import Gridlens.Jobs
import Gridlens.Manifest
import Gridlens.Numerals
import Gridlens.QueryResults
import Gridlens.Replay
import Gridlens.Teardown

/-!
# What a restatement audit is about

`production_run` and `schema_for` of `gridlens.quality.restatement`, and the
two ends between which a run of `restatement_audit` carries its plan: `plan`
writes the production run down as texts, `_inputs` reads it back in every later
task. What comes out is what went in (`inputs_plan`), the microseconds and the
snapshot id past `2**53` included.
-/

namespace Gridlens

open Text (Layout fixed readFixed writeLayout readLayout)

/-! ## Moments -/

/-- A date and a clock to the second, with `separator` between them. -/
def MOMENT (separator : Char) : Layout :=
  [(4, ['-']), (2, ['-']), (2, [separator]), (2, [':']), (2, [':']), (2, [])]

/-- Microseconds behind a point, where there is one. -/
def readMicros : List Char → Option (Nat × List Char)
  | '.' :: s => readFixed 10 6 0 s
  | s => some (0, s)

/-- In UTC, or nowhere. -/
def readUtcOffset (s : List Char) : Option (Option Int) :=
  if s = [] then some none
  else if s = "+00:00".toList then some (some 0)
  else none

def readMoment (separator : Char) (s : List Char) : Option (Int × Option Int) :=
  match readLayout 10 (MOMENT separator) s with
  | some ([year, month, day, hour, minute, second], s) => do
      let (micros, s) ← readMicros s
      let offset ← readUtcOffset s
      let ordinal ← Civil.ordinal ⟨year, month, day⟩
      if hour < 24 ∧ minute < 60 ∧ second < 60 then
        some (ordinal * DAY + hour * HOUR + minute * MINUTE + second * SECOND + micros, offset)
      else none
  | _ => none

/-- `datetime.fromisoformat(text)`, of what athena casts a timestamp to and of
what `isoformat` makes of a moment in UTC. -/
def fromIsoformat (text : String) : Py DateTime :=
  match (readMoment ' ' text.toList).or (readMoment 'T' text.toList) with
  | some (wall, offset) =>
      if h : WallInRange wall then .ok ⟨wall, offset, h⟩
      else raise .ValueError [.text "year is out of range"]
  | none => raise .ValueError [.text "Invalid isoformat string: ", .repr text]

/-- `.replace(tzinfo=UTC)`. -/
def DateTime.inUtc (moment : DateTime) : Instant := ⟨moment.wall, moment.inRange⟩

/-! ## `production_run` -/

structure ProductionRun where
  gitSha : String
  snapshotId : Int
  learnedUpTo : Instant
deriving DecidableEq, Repr

/-- `LATEST_RUN`: the newest row of the manifest, as texts. -/
def latestRun (manifest : List ManifestRow) : List Cells :=
  ((manifest.insertionSort fun r s => s.runStartedAt ≤ r.runStartedAt).take 1).map fun row =>
    [some row.gitSha, row.bronzeSnapshotId.map fun id => String.ofList (strInt id),
      row.bronzeCommittedAt.map fun moment => String.ofList (strftime moment)]

/-- `str.isdigit`, on the text of a number. -/
def isdigit (text : String) : Bool := text ≠ "" && text.toList.all Char.isDigit

/-- `int(text)`. -/
def intOfText (text : String) : Py Int :=
  match readInt text.toList with
  | some n => .ok n
  | none => raise .ValueError [.text "invalid literal for int() with base 10: ", .repr text]

/-- What `production_run` makes of the rows. -/
def runOfRows : List (List String) → Py ProductionRun
  | [] =>
      raise .AuditFailed [.text "run_manifest is empty, so there is no production to audit"]
  | [gitSha, snapshotId, committedAt] :: _ =>
      -- parsing them is the check that they are a number and a timestamp
      if isdigit snapshotId = false then
        raise .AuditFailed [.text "snapshot id ", .repr snapshotId, .text " is not a number"]
      else do
        let id ← intOfText snapshotId
        let moment ← fromIsoformat committedAt
        .ok ⟨gitSha, id, moment.inUtc⟩
  | _ :: _ => raise .ValueError [.text "not enough values to unpack"]

def productionRun (answer : QueryAnswer) : Py ProductionRun := auditRows answer >>= runOfRows

/-! ## `schema_for` -/

abbrev AUDIT_PREFIX : String := "gridlens_audit_"

/-- `"%Y%m%d"`. -/
def COMPACT_DATE : Layout := [(4, []), (2, []), (2, [])]

def schemaFor (runDay : Date) : String :=
  let c := civilOf runDay.ordinal
  AUDIT_PREFIX ++ String.ofList (writeLayout 10 COMPACT_DATE [c.year, c.month, c.day])

/-! ## `plan` and `_inputs` -/

/-- `_run_day`, of the moment the run is scheduled behind. -/
def auditDay (runAfter : Instant) : Py Date := localDate PARIS runAfter 0

/-- What `plan` returns. -/
structure Planned where
  schema : String
  gitSha : String
  snapshotId : String
  learnedUpTo : String
deriving DecidableEq, Repr

def plan (runAfter : Instant) (answer : QueryAnswer) : Py Planned := do
  let day ← auditDay runAfter
  let _ ← lastMonth day
  let run ← productionRun answer
  .ok ⟨schemaFor day, run.gitSha, String.ofList (strInt run.snapshotId),
    isoformatText run.learnedUpTo.micros (some 0)⟩

/-- `_inputs`. -/
def inputs (runAfter : Instant) (planned : Planned) : Py (Window × ProductionRun) := do
  let snapshotId ← intOfText planned.snapshotId
  let moment ← fromIsoformat planned.learnedUpTo
  let day ← auditDay runAfter
  let window ← lastMonth day
  .ok (window, ⟨planned.gitSha, snapshotId, moment.inUtc⟩)

/-! ## What is written is read back -/

section Moments

variable {moment : Int}

/-- The date and the clock of a moment, and what stands behind them. -/
theorem readMoment_fields (h : WallInRange moment) (separator : Char) {rest s : List Char}
    {offset : Option Int} (hmicros : readMicros rest = some ((moment % SECOND).toNat, s))
    (hoffset : readUtcOffset s = some offset) :
    readMoment separator (writeLayout 10 (MOMENT separator)
      [(civilOf (moment / DAY)).year, (civilOf (moment / DAY)).month,
        (civilOf (moment / DAY)).day, (moment % DAY / HOUR).toNat,
        (moment % HOUR / MINUTE).toNat, (moment % MINUTE / SECOND).toNat] ++ rest) =
      some (moment, offset) := by
  have hrange : 1 ≤ moment / DAY ∧ moment / DAY ≤ MAX_ORDINAL := by
    rcases h with ⟨hfirst, hlast⟩
    have hmax : MAX_ORDINAL = 3652059 := rfl
    rw [DAY_eq] at hfirst hlast ⊢
    omega
  have hordinal := ordinal_civilOf hrange
  rcases Civil.bounds hordinal with ⟨hyear, hmonth, hday⟩
  rcases clock moment with ⟨hhour, hminute, hsecond, -, htotal⟩
  unfold readMoment
  generalize civilOf (moment / DAY) = date at *
  generalize (moment % DAY / HOUR).toNat = hour at *
  generalize (moment % HOUR / MINUTE).toNat = minute at *
  generalize (moment % MINUTE / SECOND).toNat = second at *
  have hfits : List.Forall₂ (fun field n => n < 10 ^ field.1) (MOMENT separator)
      [date.year, date.month, date.day, hour, minute, second] := by
    refine .cons ?_ (.cons ?_ (.cons ?_ (.cons ?_ (.cons ?_ (.cons ?_ .nil)))))
    all_goals simp only
    all_goals omega
  rw [Text.readLayout_writeLayout (by omega) hfits rest]
  simp only
  rw [some_bind hmicros]
  simp only
  rw [some_bind hoffset, some_bind hordinal, if_pos ⟨hhour, hminute, hsecond⟩, htotal]

theorem readMicros_fraction (moment : Int) (s : List Char) :
    readMicros ('.' :: (fixed 10 6 (moment % SECOND).toNat ++ s)) =
      some ((moment % SECOND).toNat, s) := by
  have hmicro := (clock moment).2.2.2.1
  show readFixed 10 6 0 (fixed 10 6 (moment % SECOND).toNat ++ s) = _
  rw [Text.readFixed_fixed (by omega) hmicro, Nat.zero_mul, Nat.zero_add]

/-- The other separator is where the two texts differ. -/
theorem readMoment_other {separator other : Char} (hne : other ≠ separator) {ns : List Nat}
    (hfits : List.Forall₂ (fun field n => n < 10 ^ field.1) (MOMENT separator) ns)
    (rest : List Char) : readMoment other (writeLayout 10 (MOMENT separator) ns ++ rest) = none := by
  unfold MOMENT at hfits
  rcases hfits with _ | ⟨hyear, hfits⟩
  rcases hfits with _ | ⟨hmonth, hfits⟩
  rcases hfits with _ | ⟨hday, hclock⟩
  rename_i year month day clock
  have hnone : readLayout 10 (MOMENT other)
      (writeLayout 10 (MOMENT separator) (year :: month :: day :: clock) ++ rest) = none := by
    simp only [MOMENT, writeLayout, readLayout, List.append_assoc]
    rw [Text.readFixed_fixed (by omega) hyear]
    simp only [Option.bind_eq_bind, Option.bind_some, Text.dropWord_append]
    rw [Text.readFixed_fixed (by omega) hmonth]
    simp only [Option.bind_some, Text.dropWord_append]
    rw [Text.readFixed_fixed (by omega) hday]
    simp [Text.dropWord, hne]
  unfold readMoment
  rw [hnone]

theorem readMoment_isoformat (h : WallInRange moment) :
    readMoment 'T' (isoformatText moment (some 0)).toList = some (moment, some 0) := by
  have htail : (fractionText moment).toList ++ "+00:00".toList =
      if moment % SECOND = 0 then "+00:00".toList
      else '.' :: (fixed 10 6 (moment % SECOND).toNat ++ "+00:00".toList) := by
    unfold fractionText
    split
    · rfl
    · simp
  have hmicros : readMicros ((fractionText moment).toList ++ "+00:00".toList) =
      some ((moment % SECOND).toNat, "+00:00".toList) := by
    rw [htail]
    split
    · rename_i hzero
      rw [hzero]
      rfl
    · exact readMicros_fraction moment _
  have hread := readMoment_fields h 'T' hmicros rfl
  rw [← hread]
  congr 1
  have hoffset : (offsetText (some 0)).toList = "+00:00".toList := by decide +kernel
  unfold isoformatText
  rw [String.toList_append, String.toList_append, hoffset, String.toList_ofList, List.append_assoc]
  rfl

/-- A moment in UTC, from its text. -/
theorem fromIsoformat_isoformat (h : WallInRange moment) :
    fromIsoformat (isoformatText moment (some 0)) = .ok ⟨moment, some 0, h⟩ := by
  have hblank : readMoment ' ' (isoformatText moment (some 0)).toList = none := by
    have hrange : 1 ≤ moment / DAY ∧ moment / DAY ≤ MAX_ORDINAL := by
      rcases h with ⟨hfirst, hlast⟩
      have hmax : MAX_ORDINAL = 3652059 := rfl
      rw [DAY_eq] at hfirst hlast ⊢
      omega
    rcases Civil.bounds (ordinal_civilOf hrange) with ⟨hyear, hmonth, hday⟩
    rcases clock moment with ⟨hhour, hminute, hsecond, -, -⟩
    unfold isoformatText
    rw [String.toList_append, String.toList_append, String.toList_ofList, List.append_assoc]
    refine @readMoment_other 'T' ' ' (by decide) _ ?_ _
    refine .cons ?_ (.cons ?_ (.cons ?_ (.cons ?_ (.cons ?_ (.cons ?_ .nil)))))
    all_goals simp only
    all_goals omega
  unfold fromIsoformat
  rw [hblank, readMoment_isoformat h, Option.none_or]
  exact dif_pos h

end Moments

theorem intOfText_strInt (n : Int) : intOfText (String.ofList (strInt n)) = .ok n := by
  unfold intOfText
  rw [String.toList_ofList, readInt_strInt]

theorem isAlphanum_fixed {width n : Nat} (hn : n < 10 ^ width) {c : Char}
    (hc : c ∈ fixed 10 width n) : c.isAlphanum = true := by
  rw [Char.isAlphanum, Text.isDigit_fixed hn hc, Bool.or_true]

theorem schemaFor_toList (day : Date) : (schemaFor day).toList = AUDIT_PREFIX.toList ++
    (fixed 10 4 (civilOf day.ordinal).year ++ (fixed 10 2 (civilOf day.ordinal).month ++
      fixed 10 2 (civilOf day.ordinal).day)) := by
  simp [schemaFor, COMPACT_DATE, writeLayout]

/-- The name is one that the teardown script agrees to drop. -/
theorem checkSchema_schemaFor (day : Date) :
    Teardown.checkSchema Char.isAlphanum (schemaFor day) = .ok () := by
  rcases civilOf_fits day.inRange with _ | ⟨hyear, hfits⟩
  rcases hfits with _ | ⟨hmonth, hfits⟩
  rcases hfits with _ | ⟨hday, -⟩
  have hprefix : (Teardown.PREFIXES.any fun p =>
      decide (p.toList <+: (schemaFor day).toList) && decide (schemaFor day ≠ p)) = true := by
    refine List.any_eq_true.mpr ⟨AUDIT_PREFIX, by decide, ?_⟩
    rw [Bool.and_eq_true, decide_eq_true_eq, decide_eq_true_eq, schemaFor_toList]
    refine ⟨List.prefix_append _ _, fun heq => ?_⟩
    have hlength := congrArg (fun name => name.toList.length) heq
    simp only [schemaFor_toList, List.length_append, Text.length_fixed] at hlength
    omega
  have hword : (AUDIT_PREFIX.toList.all fun c => c.isAlphanum || decide (c = '_')) = true := by
    decide +kernel
  have hchars : ((schemaFor day).toList.all fun c => c.isAlphanum || decide (c = '_')) = true := by
    rw [List.all_eq_true, schemaFor_toList]
    intro c hc
    rcases List.mem_append.mp hc with hc | hc
    · exact List.all_eq_true.mp hword c hc
    · rw [Bool.or_eq_true]
      left
      rcases List.mem_append.mp hc with hc | hc
      · exact isAlphanum_fixed hyear hc
      · rcases List.mem_append.mp hc with hc | hc
        · exact isAlphanum_fixed hmonth hc
        · exact isAlphanum_fixed hday hc
  unfold Teardown.checkSchema
  rw [if_neg (not_not.mpr hprefix), if_neg (not_not.mpr hchars)]

/-- Every task of a run works on the window and the production run that `plan`
found. -/
theorem inputs_of_plan {runAfter : Instant} {answer : QueryAnswer} {planned : Planned}
    (h : plan runAfter answer = .ok planned) : ∃ day window run,
      auditDay runAfter = .ok day ∧ lastMonth day = .ok window ∧
      productionRun answer = .ok run ∧ planned.schema = schemaFor day ∧
      inputs runAfter planned = .ok (window, run) := by
  simp only [plan, bind_eq_ok] at h
  rcases h with ⟨day, hday, window, hwindow, run, hrun, heq⟩
  cases heq
  refine ⟨day, window, run, hday, hwindow, hrun, rfl, ?_⟩
  unfold inputs
  rw [intOfText_strInt, ok_bind, fromIsoformat_isoformat run.learnedUpTo.inRange, ok_bind, hday,
    ok_bind, hwindow, ok_bind]
  rfl

end Gridlens
