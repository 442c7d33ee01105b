import Gridlens.Python

/-!
# Resolutions, time zones and settlement days

`gridlens.timeaxis`: the duration grammar, the guard against ambiguous wall
clocks, the settlement day as a half-open UTC interval, and positions on a
period's grid. The second part is Europe/Paris, as UTC+1 with summer time
between the EU changeovers, and the date SQL reads off a UTC timestamp there.

`start_le_iff_le_parisDate` ties the two sides: an instant is at or after the
start of a Paris day exactly when its Paris date is that day or a later one.
-/

namespace Gridlens

/-! ## `parse_resolution` -/

/-- The code points of the decimal digits zero that `\d` and `int` know. -/
def digitZeros : List Nat :=
  [0x30, 0x660, 0x6F0, 0x7C0, 0x966, 0x9E6, 0xA66, 0xAE6, 0xB66, 0xBE6, 0xC66, 0xCE6, 0xD66,
    0xDE6, 0xE50, 0xED0, 0xF20, 0x1040, 0x1090, 0x17E0, 0x1810, 0x1946, 0x19D0, 0x1A80, 0x1A90,
    0x1B50, 0x1BB0, 0x1C40, 0x1C50, 0xA620, 0xA8D0, 0xA900, 0xA9D0, 0xA9F0, 0xAA50, 0xABF0,
    0xFF10, 0x104A0, 0x10D30, 0x11066, 0x110F0, 0x11136, 0x111D0, 0x112F0, 0x11450, 0x114D0,
    0x11650, 0x116C0, 0x11730, 0x118E0, 0x11950, 0x11C50, 0x11D50, 0x11DA0, 0x11F50, 0x16A60,
    0x16AC0, 0x16B50, 0x1D7CE, 0x1D7D8, 0x1D7E2, 0x1D7EC, 0x1D7F6, 0x1E140, 0x1E2F0, 0x1E4F0,
    0x1E950, 0x1FBF0]

/-- The value of a decimal digit, of whatever script. -/
def digitValue (c : Char) : Option Nat :=
  (digitZeros.find? fun z => z ≤ c.toNat && c.toNat < z + 10).map fun z => c.toNat - z

/-- `int(digits)` on a run of digits; longer runs than the interpreter's limit
are refused. -/
def intOfDigits (digits : List Char) : Py Int :=
  if digits.length ≤ 4300 then
    .ok (digits.foldl (fun n c => 10 * n + (digitValue c).getD 0) 0 : Nat)
  else raise .ValueError [.text "Exceeds the limit (4300 digits) for integer string conversion"]

/-- One optional group `(?:(\d+)U)?` of the pattern: its digits, and the rest. -/
def takeComponent (unit : Char) (s : List Char) : Option (List Char) × List Char :=
  match s.takeWhile (fun c => (digitValue c).isSome), s.dropWhile (fun c => (digitValue c).isSome) with
  | d :: ds, c :: rest => if c = unit then (some (d :: ds), rest) else (none, s)
  | _, _ => (none, s)

/-- `^P(?:(\d+)D)?(?:T(?:(\d+)H)?(?:(\d+)M)?)?$`: the three groups. The end
anchor lets one closing newline through. -/
def matchDuration (value : String) :
    Option (Option (List Char) × Option (List Char) × Option (List Char)) :=
  match value.toList with
  | 'P' :: s =>
      let (days, s) := takeComponent 'D' s
      let (hours, minutes, s) :=
        match s with
        | 'T' :: s =>
            let (hours, s) := takeComponent 'H' s
            let (minutes, s) := takeComponent 'M' s
            (hours, minutes, s)
        | s => (none, none, s)
      if s = [] ∨ s = ['\n'] then some (days, hours, minutes) else none
  | _ => none

/-- `int(group or 0)`. -/
def intOfGroup : Option (List Char) → Py Int
  | some digits => intOfDigits digits
  | none => .ok 0

/-- A `timedelta` holds at most 999999999 days either way. -/
def timedelta (micros : Int) : Py Int :=
  if -999999999 ≤ micros / DAY ∧ micros / DAY ≤ 999999999 then .ok micros
  else raise .OverflowError [.text "must have magnitude <= 999999999"]

def parseResolution (value : String) : Py Int :=
  match matchDuration value with
  | none => raise .ValueError [.text "unsupported resolution: ", .repr value]
  | some (days, hours, minutes) => do
      let days ← intOfGroup days
      let hours ← intOfGroup hours
      let minutes ← intOfGroup minutes
      let total ← timedelta (days * DAY + hours * HOUR + minutes * MINUTE)
      if total ≤ 0 then raise .ValueError [.text "unsupported resolution: ", .repr value]
      else .ok total

/-! ## Zones and settlement days -/

/-- A `tzinfo`: the offset at a UTC instant, and the offset of a wall-clock
reading with its `fold`. -/
structure ZoneInfo where
  fromutc : Int → Int
  utcoffset : Int → Bool → Int

/-- A `datetime` in a named zone, or a naive one. -/
structure LocalTime where
  wall : Int
  fold : Bool
  tzinfo : Option ZoneInfo

/-- `moment.astimezone(UTC)` for a moment in `zone`. -/
def toUtc (zone : ZoneInfo) (wall : Int) (fold : Bool) : Py Instant :=
  Instant.ofMicros (wall - zone.utcoffset wall fold)

/-- Refuse a local time that is doubled or missing. -/
def assertUnambiguous (moment : LocalTime) : Py Unit :=
  match moment.tzinfo with
  | none => raise .ValueError [.text "naive datetime"]
  | some zone => do
      let utc ← toUtc zone moment.wall moment.fold
      let roundtrip ← Instant.ofMicros (utc.micros + zone.fromutc utc.micros)
      -- the round trip goes first: a skipped reading also has two offsets
      let reading := .isoformat moment.wall (zone.utcoffset moment.wall moment.fold)
      if roundtrip.micros ≠ moment.wall then
        raise .AmbiguousLocalTime [reading, .text " does not exist"]
      if zone.utcoffset moment.wall moment.fold ≠ zone.utcoffset moment.wall true then
        raise .AmbiguousLocalTime [reading, .text " happens twice"]
      else .ok ()

/-- The local calendar day as a half-open UTC interval. -/
def settlementDay (day : Date) (zone : ZoneInfo) : Py (Instant × Instant) := do
  let next ← day.addDays 1
  let start := day.ordinal * DAY
  let stop := next.ordinal * DAY
  assertUnambiguous ⟨start, false, some zone⟩
  assertUnambiguous ⟨stop, false, some zone⟩
  let startUtc ← toUtc zone start false
  let stopUtc ← toUtc zone stop false
  .ok (startUtc, stopUtc)

/-! ## Positions -/

def periodCount (start stop : Instant) (resolution : Int) : Py Int :=
  let span := stop.micros - start.micros
  if span ≤ 0 then raise .ValueError [.text "end must be after start"]
  else if span % resolution ≠ 0 then
    raise .ValueError [.timedelta span, .text " does not divide into whole ",
      .timedelta resolution, .text " periods"]
  else .ok (span / resolution)

/-- Positions are 1-based and are an offset, never an index into a list. -/
def positionTime (intervalStart : Instant) (resolution position : Int) : Py Instant :=
  if position < 1 then raise .ValueError [.text "positions are 1-based, got ", .int position]
  else Instant.ofMicros (intervalStart.micros + (position - 1) * resolution)

/-! ## Europe/Paris -/

/-- Days in the years before `year`. -/
def daysBeforeYear (year : Int) : Int :=
  let y := year - 1
  y * 365 + y / 4 - y / 100 + y / 400

/-- The year of an ordinal, by cycles of 400, 100, 4 and 1 years. -/
def yearOf (ordinal : Int) : Int :=
  let n := ordinal - 1
  let n400 := n / 146097
  let n := n % 146097
  let n100 := n / 36524
  let n := n % 36524
  let n4 := n / 1461
  let n := n % 1461
  let n1 := n / 365
  let year := n400 * 400 + n100 * 100 + n4 * 4 + n1 + 1
  if n1 = 4 ∨ n100 = 4 then year - 1 else year

/-- Whether February has 29 days. -/
def isLeap (year : Int) : Bool := year % 4 = 0 && (year % 100 ≠ 0 || year % 400 = 0)

/-- The day of the year of an ordinal, counted from zero. -/
def dayOfYear (ordinal : Int) : Int := ordinal - 1 - daysBeforeYear (yearOf ordinal)

/-- The last Sunday of the month that ends `daysThrough` days into the year,
leap day aside. -/
def lastSunday (year : Int) (daysThrough : Int) : Int :=
  let last := daysBeforeYear year + daysThrough + if isLeap year then 1 else 0
  -- ordinal 7 is a Sunday
  last - last % 7

/-- Whether EU summer time holds at a UTC instant: from 01:00 UTC on the last
Sunday of March to 01:00 UTC on the last Sunday of October. -/
def summerTime (u : Int) : Bool :=
  -- the date it was an hour ago changes at 01:00
  let n := (u - HOUR) / DAY
  let year := yearOf n
  lastSunday year 90 ≤ n && n < lastSunday year 304

def parisOffset (u : Int) : Int := if summerTime u then 2 * HOUR else HOUR

/-- Europe/Paris. In a doubled or skipped hour `fold` 0 reads the offset before
the changeover and `fold` 1 the one after. -/
def PARIS : ZoneInfo where
  fromutc := parisOffset
  utcoffset wall fold := parisOffset (if fold then wall - HOUR else wall - 2 * HOUR)

/-- `CAST(u AT TIME ZONE 'Europe/Paris' AS date)`, as an ordinal. -/
def parisDate (u : Int) : Int := (u + parisOffset u) / DAY

/-- The UTC instant a Paris day starts at. -/
def parisMidnight (ordinal : Int) : Int := ordinal * DAY - parisOffset (ordinal * DAY - 2 * HOUR)

theorem parisOffset_cases (u : Int) : parisOffset u = HOUR ∨ parisOffset u = 2 * HOUR := by
  unfold parisOffset
  cases summerTime u
  · exact Or.inl rfl
  · exact Or.inr rfl

/-- The offset only changes at 01:00 UTC. -/
theorem parisOffset_congr {u v : Int} (h : (u - HOUR) / DAY = (v - HOUR) / DAY) :
    parisOffset u = parisOffset v := by
  unfold parisOffset summerTime
  rw [h]

/-- No changeover falls in the hours around a Paris midnight. -/
theorem parisOffset_near_midnight {n u : Int} (h₁ : n * DAY - 2 * HOUR ≤ u)
    (h₂ : u ≤ n * DAY - HOUR) : parisOffset u = parisOffset (n * DAY - 2 * HOUR) := by
  apply parisOffset_congr
  rw [HOUR_eq, DAY_eq] at *
  omega

/-- The start of a Paris day in UTC, against the Paris date SQL computes. -/
theorem start_le_iff_le_parisDate (n u : Int) : parisMidnight n ≤ u ↔ n ≤ parisDate u := by
  unfold parisMidnight parisDate
  have hu := parisOffset_cases u
  have hn := parisOffset_cases (n * DAY - 2 * HOUR)
  rw [Int.le_ediv_iff_mul_le (by decide)]
  by_cases hnear : n * DAY - 2 * HOUR ≤ u ∧ u ≤ n * DAY - HOUR
  · -- within the hour where the two offsets could matter they are equal
    rw [parisOffset_near_midnight hnear.1 hnear.2]
    omega
  · generalize parisOffset u = ou at *
    generalize parisOffset (n * DAY - 2 * HOUR) = on at *
    rw [HOUR_eq, DAY_eq] at *
    omega

/-- A Paris day is the instants from its own start to the next day's. -/
theorem parisDate_eq_iff (n u : Int) :
    parisDate u = n ↔ parisMidnight n ≤ u ∧ u < parisMidnight (n + 1) := by
  have h₁ := start_le_iff_le_parisDate n u
  have h₂ := start_le_iff_le_parisDate (n + 1) u
  constructor
  · intro h
    exact ⟨h₁.mpr h.ge, not_le.mp fun hle => by have := h₂.mp hle; omega⟩
  · intro h
    have := h₁.mp h.1
    have : ¬ n + 1 ≤ parisDate u := fun hle => absurd (h₂.mpr hle) (not_le.mpr h.2)
    omega

/-- The bounds `settlement_day` returns for Paris. -/
theorem settlementDay_paris {day : Date} {start stop : Instant}
    (h : settlementDay day PARIS = .ok (start, stop)) :
    start.micros = parisMidnight day.ordinal ∧ stop.micros = parisMidnight (day.ordinal + 1) := by
  simp only [settlementDay, bind_eq_ok] at h
  rcases h with ⟨next, hnext, -, -, -, -, startUtc, hstart, stopUtc, hstop, heq⟩
  cases heq
  have hn := Date.ofOrdinal_ok hnext
  constructor
  · exact Instant.ofMicros_ok hstart
  · rw [← hn]
    exact Instant.ofMicros_ok hstop

end Gridlens
