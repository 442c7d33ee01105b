import Mathlib.Data.List.TakeWhile
import Gridlens.TimeAxis

/-!
# The resolutions that are read

`parse_resolution` reads a duration with a pattern, and the pattern reads more
than the grammar it stands for: digits of any script, a `T` with nothing behind
it, and one newline at the end. What it cannot turn into numbers raises, and
what comes out too long raises something else.

A `Written` is a text the pattern matches, taken apart (`matchDuration_iff`).
`reads_grammar_iff` says for which texts `parse_resolution` does what the
grammar says all the same.
-/

namespace Gridlens

/-! ## What the pattern matches -/

/-- Digits of whatever script, at least one. -/
abbrev IsDigitRun (digits : List Char) : Prop :=
  digits ≠ [] ∧ ∀ c ∈ digits, (digitValue c).isSome = true

abbrev DigitRun := { digits : List Char // IsDigitRun digits }

/-- A component, if it is there: its digits and its unit. -/
def component (unit : Char) : Option DigitRun → List Char
  | some run => run.1 ++ [unit]
  | none => []

/-- A text the pattern matches: the days, the hours and minutes if there is a
`T`, and whether a newline closes it. -/
structure Written where
  days : Option DigitRun
  time : Option (Option DigitRun × Option DigitRun)
  newline : Bool

namespace Written

def timeText : Option (Option DigitRun × Option DigitRun) → List Char
  | some (hours, minutes) => 'T' :: (component 'H' hours ++ component 'M' minutes)
  | none => []

def closing (newline : Bool) : List Char := if newline then ['\n'] else []

def text (w : Written) : List Char :=
  'P' :: (component 'D' w.days ++ (timeText w.time ++ closing w.newline))

def hours (w : Written) : Option DigitRun := w.time.bind Prod.fst

def minutes (w : Written) : Option DigitRun := w.time.bind Prod.snd

/-- The components that are there. -/
def runs (w : Written) : List DigitRun := w.days.toList ++ w.hours.toList ++ w.minutes.toList

/-- The number the digits stand for. -/
def count : Option DigitRun → Int
  | some run => (run.1.foldl (fun n c => 10 * n + (digitValue c).getD 0) 0 : Nat)
  | none => 0

/-- The days, hours and minutes together. -/
def total (w : Written) : Int :=
  count w.days * DAY + count w.hours * HOUR + count w.minutes * MINUTE

/-- More digits than the interpreter turns into a number. -/
def Long (w : Written) : Prop := ∃ run ∈ w.runs, 4300 < run.1.length

/-- `P`, perhaps days, perhaps `T` with hours or minutes or both behind it; a
component at least, digits in ascii, and nothing else. -/
structure Strict (w : Written) : Prop where
  closed : w.newline = false
  ascii : ∀ run ∈ w.runs, ∀ c ∈ run.1, c.isDigit = true
  behindT : w.time.isSome = true → w.hours.isSome = true ∨ w.minutes.isSome = true
  some : w.runs ≠ []

end Written

/-- A `timedelta` can be this long. -/
abbrev Representable (total : Int) : Prop := -999999999 ≤ total / DAY ∧ total / DAY ≤ 999999999

/-- The text is in the grammar and stands for this long. -/
def InGrammar (value : String) (total : Int) : Prop :=
  ∃ w : Written, w.text = value.toList ∧ w.Strict ∧ w.total = total

/-- `parse_resolution` on this text does what the grammar says: it returns the
duration the text stands for, if that is positive and there is such a duration,
and raises `ValueError` otherwise. -/
structure ReadsGrammar (value : String) : Prop where
  returns : ∀ total, parseResolution value = .ok total ↔
    InGrammar value total ∧ 0 < total ∧ Representable total
  raises : ∀ error, parseResolution value = .error error → error.kind = .ValueError

/-! ## Taking a text apart -/

section Parts

variable {unit : Char} {s rest : List Char}

/-- No component of this unit comes next. -/
abbrev NoComponent (unit : Char) (s : List Char) : Prop := takeComponent unit s = (none, s)

/-- The digits of a component, and what follows them. -/
theorem span_run (run : DigitRun) (hunit : digitValue unit = none) (rest : List Char) :
    (component unit (some run) ++ rest).takeWhile (fun c => (digitValue c).isSome) = run.1 ∧
      (component unit (some run) ++ rest).dropWhile (fun c => (digitValue c).isSome) =
        unit :: rest := by
  rcases run with ⟨digits, hsome, hdigits⟩
  have hstop : ¬ (digitValue unit).isSome = true := by
    rw [hunit]
    exact Bool.false_ne_true
  have htext : component unit (some ⟨digits, hsome, hdigits⟩) ++ rest = digits ++ unit :: rest := by
    show digits ++ [unit] ++ rest = _
    rw [List.append_assoc, List.singleton_append]
  have htake := List.takeWhile_cons_of_neg (p := fun c => (digitValue c).isSome) (l := rest) hstop
  have hdrop := List.dropWhile_cons_of_neg (p := fun c => (digitValue c).isSome) (l := rest) hstop
  rw [htext, List.takeWhile_append_of_pos hdigits, htake, List.append_nil,
    List.dropWhile_append_of_pos hdigits, hdrop]
  exact ⟨rfl, rfl⟩

theorem takeComponent_component (run : Option DigitRun) (hunit : digitValue unit = none)
    (hrest : NoComponent unit rest) :
    takeComponent unit (component unit run ++ rest) = (run.map Subtype.val, rest) := by
  cases run with
  | none => exact hrest
  | some run =>
      rcases span_run run hunit rest with ⟨htake, hdrop⟩
      unfold takeComponent
      rw [htake, hdrop]
      cases hdigits : run.1 with
      | nil => exact absurd hdigits run.2.1
      | cons d ds => simp [hdigits]

/-- What `takeComponent` takes is a component, and it is what it says. -/
theorem takeComponent_eq (unit : Char) (s : List Char) :
    ∃ run : Option DigitRun, (takeComponent unit s).1 = run.map Subtype.val ∧
      s = component unit run ++ (takeComponent unit s).2 := by
  have hsplit := List.takeWhile_append_dropWhile (p := fun c => (digitValue c).isSome) (l := s)
  have hdigits : ∀ c ∈ s.takeWhile (fun c => (digitValue c).isSome), (digitValue c).isSome = true :=
    fun c hc => List.mem_takeWhile_imp (p := fun c => (digitValue c).isSome) hc
  unfold takeComponent
  generalize s.takeWhile (fun c => (digitValue c).isSome) = digits at *
  generalize s.dropWhile (fun c => (digitValue c).isSome) = after at *
  split
  · rename_i d ds c rest
    split
    · rename_i hunit
      refine ⟨some ⟨d :: ds, List.cons_ne_nil d ds, hdigits⟩, rfl, ?_⟩
      show s = d :: ds ++ [unit] ++ rest
      rw [← hsplit, hunit, List.append_assoc, List.singleton_append]
    · exact ⟨none, rfl, rfl⟩
  · exact ⟨none, rfl, rfl⟩

/-- A text that starts with no digit has no component in front. -/
theorem noComponent_of_head (h : ∀ c ∈ s.head?, digitValue c = none) : NoComponent unit s := by
  have hnone : s.takeWhile (fun c => (digitValue c).isSome) = [] := by
    cases s with
    | nil => rfl
    | cons c s =>
        have hc : (digitValue c).isSome = false := by rw [h c rfl]; rfl
        exact List.takeWhile_cons_of_neg (by simp [hc])
  unfold NoComponent takeComponent
  rw [hnone]

/-- Nor has one whose digits have another unit. -/
theorem noComponent_of_unit {other : Char} (run : DigitRun) (hother : digitValue other = none)
    (hne : other ≠ unit) : NoComponent unit (component other (some run) ++ rest) := by
  rcases span_run run hother rest with ⟨htake, hdrop⟩
  unfold NoComponent takeComponent
  rw [htake, hdrop]
  cases hdigits : run.1 with
  | nil => exact absurd hdigits run.2.1
  | cons d ds => simp [hne]

/-- What follows the days begins with no digit. -/
theorem noComponent_time (time : Option (Option DigitRun × Option DigitRun)) (newline : Bool) :
    NoComponent unit (Written.timeText time ++ Written.closing newline) := by
  apply noComponent_of_head
  cases time with
  | some parts =>
      rintro c ⟨⟩
      decide
  | none => cases newline with
    | true =>
        rintro c ⟨⟩
        decide
    | false => rintro c ⟨⟩

/-- What follows the hours has none. -/
theorem noComponent_minutes (minutes : Option DigitRun) (newline : Bool) :
    NoComponent 'H' (component 'M' minutes ++ Written.closing newline) := by
  cases minutes with
  | some run => exact noComponent_of_unit run (by decide) (by decide)
  | none => exact noComponent_time none newline

theorem takeComponent_days (w : Written) :
    takeComponent 'D' (component 'D' w.days ++ (Written.timeText w.time ++
      Written.closing w.newline)) =
      (w.days.map Subtype.val, Written.timeText w.time ++ Written.closing w.newline) :=
  takeComponent_component w.days (by decide) (noComponent_time w.time w.newline)

theorem takeComponent_hours (hours minutes : Option DigitRun) (newline : Bool) :
    takeComponent 'H' (component 'H' hours ++ (component 'M' minutes ++ Written.closing newline)) =
      (hours.map Subtype.val, component 'M' minutes ++ Written.closing newline) :=
  takeComponent_component hours (by decide) (noComponent_minutes minutes newline)

theorem takeComponent_minutes (minutes : Option DigitRun) (newline : Bool) :
    takeComponent 'M' (component 'M' minutes ++ Written.closing newline) =
      (minutes.map Subtype.val, Written.closing newline) :=
  takeComponent_component minutes (by decide) (noComponent_time none newline)

theorem map_val_inj {run run' : Option DigitRun} (h : run.map Subtype.val = run'.map Subtype.val) :
    run = run' := Option.map_injective Subtype.val_injective h

theorem closing_inj {newline newline' : Bool}
    (h : Written.closing newline = Written.closing newline') : newline = newline' := by
  cases newline <;> cases newline' <;> simp_all [Written.closing]

/-- The digits of each group, as the pattern captures them. -/
def Written.groups (w : Written) : Option (List Char) × Option (List Char) × Option (List Char) :=
  (w.days.map Subtype.val, w.hours.map Subtype.val, w.minutes.map Subtype.val)

end Parts

section Text

variable {value : String} {w w' : Written}

/-- A text is taken apart in one way. -/
theorem text_injective (h : w.text = w'.text) : w = w' := by
  rcases w with ⟨days, time, newline⟩
  rcases w' with ⟨days', time', newline'⟩
  have hparts := (takeComponent_days ⟨days, time, newline⟩).symm.trans
    ((congrArg (takeComponent 'D') (List.cons.inj h).2).trans
      (takeComponent_days ⟨days', time', newline'⟩))
  rcases Prod.mk.inj hparts with ⟨hdays, hrest⟩
  cases map_val_inj hdays
  cases time with
  | none => cases time' with
    | none =>
        cases closing_inj hrest
        rfl
    | some parts' =>
        -- one has a `T` where the other ends
        cases newline <;> simp [Written.timeText, Written.closing] at hrest
  | some parts => cases time' with
    | none => cases newline' <;> simp [Written.timeText, Written.closing] at hrest
    | some parts' =>
        rcases parts with ⟨hours, minutes⟩
        rcases parts' with ⟨hours', minutes'⟩
        simp only [Written.timeText, List.cons_append, List.append_assoc, List.cons.injEq,
          true_and] at hrest
        have hhours := (takeComponent_hours hours minutes newline).symm.trans
          ((congrArg (takeComponent 'H') hrest).trans (takeComponent_hours hours' minutes' newline'))
        rcases Prod.mk.inj hhours with ⟨hhours, hbehind⟩
        cases map_val_inj hhours
        have hminutes := (takeComponent_minutes minutes newline).symm.trans
          ((congrArg (takeComponent 'M') hbehind).trans (takeComponent_minutes minutes' newline'))
        rcases Prod.mk.inj hminutes with ⟨hminutes, hend⟩
        cases map_val_inj hminutes
        cases closing_inj hend
        rfl

theorem closing_accepted (newline : Bool) :
    Written.closing newline = [] ∨ Written.closing newline = ['\n'] := by
  cases newline with
  | true => exact Or.inr rfl
  | false => exact Or.inl rfl

theorem matchDuration_text (h : w.text = value.toList) : matchDuration value = some w.groups := by
  unfold matchDuration
  rw [← h]
  unfold Written.text
  simp only
  rw [takeComponent_days]
  rcases w with ⟨days, time, newline⟩
  cases time with
  | none =>
      have hcloses := closing_accepted newline
      rw [show Written.timeText none ++ Written.closing newline = Written.closing newline from rfl]
      cases newline <;> rfl
  | some parts =>
      rcases parts with ⟨hours, minutes⟩
      rw [show Written.timeText (some (hours, minutes)) ++ Written.closing newline =
        'T' :: (component 'H' hours ++ (component 'M' minutes ++ Written.closing newline)) by
          simp [Written.timeText]]
      simp only
      rw [takeComponent_hours]
      simp only
      rw [takeComponent_minutes]
      simp only
      rw [if_pos (closing_accepted newline)]
      rfl

theorem exists_closing {s : List Char} (h : s = [] ∨ s = ['\n']) :
    ∃ newline, s = Written.closing newline := by
  rcases h with rfl | rfl
  · exact ⟨false, rfl⟩
  · exact ⟨true, rfl⟩

/-- The pattern matches no other text. -/
theorem exists_text_of_matchDuration
    {groups : Option (List Char) × Option (List Char) × Option (List Char)}
    (h : matchDuration value = some groups) : ∃ w : Written, w.text = value.toList := by
  unfold matchDuration at h
  split at h
  · rename_i s hs
    rcases takeComponent_eq 'D' s with ⟨days, -, hdays⟩
    generalize takeComponent 'D' s = first at h hdays
    rcases first with ⟨captured, rest⟩
    simp only at h hdays
    rw [hs, hdays]
    by_cases hT : ∃ behind, rest = 'T' :: behind
    · rcases hT with ⟨behind, rfl⟩
      rcases takeComponent_eq 'H' behind with ⟨hours, -, hhours⟩
      simp only at h
      rcases takeComponent_eq 'M' (takeComponent 'H' behind).2 with ⟨minutes, -, hminutes⟩
      rw [hhours, hminutes]
      generalize (takeComponent 'M' (takeComponent 'H' behind).2).2 = left at h ⊢
      split at h
      · rename_i hleft
        rcases exists_closing hleft with ⟨newline, rfl⟩
        refine ⟨⟨days, some (hours, minutes), newline⟩, ?_⟩
        simp [Written.text, Written.timeText]
      · cases h
    · split at h
      · rename_i behind
        exact absurd ⟨behind, rfl⟩ hT
      · simp only at h
        split at h
        · rename_i hleft
          rcases exists_closing hleft with ⟨newline, rfl⟩
          exact ⟨⟨days, none, newline⟩, rfl⟩
        · cases h
  · cases h

/-! ## What is returned -/

theorem intOfGroup_short {run : Option DigitRun} (h : ∀ r ∈ run, r.1.length ≤ 4300) :
    intOfGroup (run.map Subtype.val) = .ok (Written.count run) := by
  cases run with
  | none => rfl
  | some run => exact if_pos (h run rfl)

theorem intOfGroup_ok {run : Option DigitRun} {n : Int}
    (h : intOfGroup (run.map Subtype.val) = .ok n) : ∀ r ∈ run, r.1.length ≤ 4300 := by
  rintro r hr
  cases hr
  change intOfDigits r.1 = .ok n at h
  unfold intOfDigits at h
  split at h
  · assumption
  · cases h

theorem intOfGroup_error {group : Option (List Char)} {error : PyError}
    (h : intOfGroup group = .error error) : error.kind = .ValueError := by
  cases group with
  | none => cases h
  | some digits =>
      change intOfDigits digits = .error error at h
      unfold intOfDigits at h
      split at h
      · cases h
      · cases h
        rfl

theorem mem_runs {w : Written} {run : DigitRun} :
    run ∈ w.runs ↔ run ∈ w.days ∨ run ∈ w.hours ∨ run ∈ w.minutes := by
  unfold Written.runs
  rw [List.mem_append, List.mem_append, Option.mem_toList, Option.mem_toList, Option.mem_toList,
    or_assoc]
  exact Iff.rfl

/-- Short components come to their total, and then it is a question of its size. -/
theorem parseResolution_short (h : w.text = value.toList) (hshort : ¬ w.Long) :
    parseResolution value = timedelta w.total >>= fun total =>
      if total ≤ 0 then raise .ValueError [.text "unsupported resolution: ", .repr value]
      else .ok total := by
  have hrun : ∀ run ∈ w.runs, run.1.length ≤ 4300 := fun run hmem =>
    not_lt.mp fun hlong => hshort ⟨run, hmem, hlong⟩
  unfold parseResolution
  rw [matchDuration_text h]
  unfold Written.groups
  simp only
  rw [intOfGroup_short fun r hr => hrun r (mem_runs.mpr (Or.inl hr)), ok_bind,
    intOfGroup_short fun r hr => hrun r (mem_runs.mpr (Or.inr (Or.inl hr))), ok_bind,
    intOfGroup_short fun r hr => hrun r (mem_runs.mpr (Or.inr (Or.inr hr))), ok_bind]
  rfl

/-- A long one raises before anything else does. -/
theorem parseResolution_long (h : w.text = value.toList) (hlong : w.Long) :
    ∃ error, parseResolution value = .error error ∧ error.kind = .ValueError := by
  unfold parseResolution
  rw [matchDuration_text h]
  unfold Written.groups
  simp only
  cases hdays : intOfGroup (w.days.map Subtype.val) with
  | error error => exact ⟨error, rfl, intOfGroup_error hdays⟩
  | ok days =>
      rw [ok_bind]
      cases hhours : intOfGroup (w.hours.map Subtype.val) with
      | error error => exact ⟨error, rfl, intOfGroup_error hhours⟩
      | ok hours =>
          rw [ok_bind]
          cases hminutes : intOfGroup (w.minutes.map Subtype.val) with
          | error error => exact ⟨error, rfl, intOfGroup_error hminutes⟩
          | ok minutes =>
              -- then none of them was long
              rcases hlong with ⟨run, hmem, hrun⟩
              rcases mem_runs.mp hmem with hmem | hmem | hmem
              · exact absurd hrun (not_lt.mpr (intOfGroup_ok hdays run hmem))
              · exact absurd hrun (not_lt.mpr (intOfGroup_ok hhours run hmem))
              · exact absurd hrun (not_lt.mpr (intOfGroup_ok hminutes run hmem))

/-- No pattern, no resolution. -/
theorem parseResolution_unmatched (h : matchDuration value = none) : parseResolution value =
    raise .ValueError [.text "unsupported resolution: ", .repr value] := by
  unfold parseResolution
  rw [h]

theorem count_nonneg (run : Option DigitRun) : 0 ≤ Written.count run := by
  cases run with
  | none => exact le_refl 0
  | some run => exact Int.natCast_nonneg _

theorem total_nonneg (w : Written) : 0 ≤ w.total := by
  have hdays := count_nonneg w.days
  have hhours := count_nonneg w.hours
  have hminutes := count_nonneg w.minutes
  have hminute : MINUTE = 60000000 := rfl
  unfold Written.total
  rw [DAY_eq, HOUR_eq, hminute]
  omega

/-- What stands in the grammar is one text taken apart. -/
theorem inGrammar_iff (h : w.text = value.toList) {total : Int} :
    InGrammar value total ↔ w.Strict ∧ w.total = total := by
  constructor
  · rintro ⟨w', hw', hstrict, htotal⟩
    cases text_injective (h.trans hw'.symm)
    exact ⟨hstrict, htotal⟩
  · rintro ⟨hstrict, htotal⟩
    exact ⟨w, h, hstrict, htotal⟩

/-! ## When the grammar is what is read -/

/-- The text stands for no time at all; or it is in the grammar, stands for a
duration there is, and has no component too long for the interpreter; or it
has one, and is not in the grammar or stands for no duration there is. -/
def Written.Plain (w : Written) : Prop :=
  w.total = 0 ∨ (¬ w.Long ∧ w.Strict ∧ Representable w.total) ∨
    (w.Long ∧ ¬ (w.Strict ∧ Representable w.total))

theorem timedelta_ok {total : Int} (h : Representable total) : timedelta total = .ok total :=
  if_pos h

theorem timedelta_error {total : Int} (h : ¬ Representable total) :
    timedelta total = raise .OverflowError [.text "must have magnitude <= 999999999"] := if_neg h

/-- A text the pattern matches, without a long component. -/
theorem readsGrammar_short (h : w.text = value.toList) (hshort : ¬ w.Long) :
    ReadsGrammar value ↔ w.total = 0 ∨ (w.Strict ∧ Representable w.total) := by
  have hparse := parseResolution_short h hshort
  have hnonneg := total_nonneg w
  by_cases hrep : Representable w.total
  · rw [timedelta_ok hrep, ok_bind] at hparse
    rcases eq_or_lt_of_le hnonneg with hzero | hpos
    · rw [if_pos hzero.ge] at hparse
      refine iff_of_true ⟨fun total => ?_, fun error herror => ?_⟩ (Or.inl hzero.symm)
      · rw [hparse, inGrammar_iff h]
        refine iff_of_false nofun ?_
        rintro ⟨⟨-, rfl⟩, hpos, -⟩
        exact absurd hzero hpos.ne
      · rw [hparse] at herror
        cases herror
        rfl
    · rw [if_neg (not_le.mpr hpos)] at hparse
      constructor
      · intro hreads
        exact Or.inr ⟨((inGrammar_iff h).mp ((hreads.returns w.total).mp hparse).1).1, hrep⟩
      · intro hplain
        have hstrict : w.Strict := by
          rcases hplain with hzero | hplain
          · omega
          · exact hplain.1
        refine ⟨fun total => ?_, fun error herror => ?_⟩
        · rw [hparse, inGrammar_iff h]
          constructor
          · rintro ⟨⟩
            exact ⟨⟨hstrict, rfl⟩, hpos, hrep⟩
          · rintro ⟨⟨-, rfl⟩, -⟩
            rfl
        · rw [hparse] at herror
          cases herror
  · rw [timedelta_error hrep] at hparse
    refine iff_of_false (fun hreads => ?_) ?_
    · cases hreads.raises _ hparse
    · rintro (hzero | ⟨-, hrep'⟩)
      · rw [hzero] at hrep
        exact hrep (by decide)
      · exact hrep hrep'

/-- One with a long component. -/
theorem readsGrammar_long (h : w.text = value.toList) (hlong : w.Long) :
    ReadsGrammar value ↔ w.total = 0 ∨ ¬ (w.Strict ∧ Representable w.total) := by
  rcases parseResolution_long h hlong with ⟨error, hparse, hkind⟩
  have hnonneg := total_nonneg w
  constructor
  · intro hreads
    by_contra hnot
    rw [not_or, not_not] at hnot
    have hreturns := (hreads.returns w.total).mpr
      ⟨(inGrammar_iff h).mpr ⟨hnot.2.1, rfl⟩, by omega, hnot.2.2⟩
    rw [hparse] at hreturns
    cases hreturns
  · intro hplain
    refine ⟨fun total => ?_, fun error' herror => ?_⟩
    · rw [hparse, inGrammar_iff h]
      refine iff_of_false nofun ?_
      rintro ⟨⟨hstrict, rfl⟩, hpos, hrep⟩
      rcases hplain with hzero | hplain
      · omega
      · exact hplain ⟨hstrict, hrep⟩
    · rw [hparse] at herror
      cases herror
      exact hkind

end Text

/-- `parse_resolution` does what the grammar says for a text exactly where the
pattern does not match it, or matches it and it is plain. -/
theorem readsGrammar_iff (value : String) :
    ReadsGrammar value ↔ ∀ w : Written, w.text = value.toList → w.Plain := by
  cases hmatch : matchDuration value with
  | none =>
      have hnone : ∀ w : Written, w.text ≠ value.toList := by
        intro w hw
        rw [matchDuration_text hw] at hmatch
        cases hmatch
      refine iff_of_true ⟨fun total => ?_, fun error herror => ?_⟩ fun w hw => absurd hw (hnone w)
      · rw [parseResolution_unmatched hmatch]
        refine iff_of_false nofun ?_
        rintro ⟨⟨w, hw, -⟩, -⟩
        exact hnone w hw
      · rw [parseResolution_unmatched hmatch] at herror
        cases herror
        rfl
  | some groups =>
      rcases exists_text_of_matchDuration hmatch with ⟨w, hw⟩
      have hone : (∀ w' : Written, w'.text = value.toList → w'.Plain) ↔ w.Plain := by
        constructor
        · intro hall
          exact hall w hw
        · intro hplain w' hw'
          cases text_injective (hw'.trans hw.symm)
          exact hplain
      rw [hone]
      unfold Written.Plain
      by_cases hlong : w.Long
      · rw [readsGrammar_long hw hlong]
        simp [hlong]
      · rw [readsGrammar_short hw hlong]
        simp [hlong]

theorem fifteen_isRun : IsDigitRun ['1', '5'] := by
  refine ⟨List.cons_ne_nil _ _, ?_⟩
  rw [List.forall_mem_cons, List.forall_mem_singleton]
  decide

/-- A quarter of an hour, and a newline. -/
def closedQuarter : Written := ⟨none, some (none, some ⟨['1', '5'], fifteen_isRun⟩), true⟩

/-- A closing newline is let through, and so are an hour in Arabic digits and a
`T` with nothing behind it; a number of days too large for a duration raises
something else. -/
theorem loose_resolutions_read : parseResolution "PT15M\n" = .ok (15 * MINUTE) ∧
    ¬ ReadsGrammar "PT15M\n" ∧ parseResolution "PT\u0661H" = .ok HOUR ∧
    parseResolution "P1DT" = .ok DAY ∧ parseResolution "P1000000000D" =
      raise .OverflowError [.text "must have magnitude <= 999999999"] ∧
    ¬ ReadsGrammar "P1000000000D" := by
  have hread : parseResolution "PT15M\n" = .ok (15 * MINUTE) := by decide
  have hlarge : parseResolution "P1000000000D" =
      raise .OverflowError [.text "must have magnitude <= 999999999"] := by decide
  refine ⟨hread, fun hreads => ?_, by decide, by decide, hlarge, fun hreads => ?_⟩
  · have hquarter : closedQuarter.text = "PT15M\n".toList := by rfl
    have hstrict := ((inGrammar_iff hquarter).mp ((hreads.returns _).mp hread).1).1
    cases hstrict.closed
  · cases hreads.raises _ hlarge

end Gridlens
