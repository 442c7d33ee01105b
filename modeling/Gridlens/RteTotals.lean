import Mathlib.Algebra.BigOperators.Group.List.Lemmas
import Mathlib.Data.List.AList
import Gridlens.RteParse

/-!
# The TOTAL of an RTE payload

`total_matches_components`: the aggregate RTE ships in the list of its own
components, compared with their sum. Both sides are dictionaries by the text
of a `start_date`, and only the texts of TOTAL are looked at.

1. `totalMatchesComponents_ok`: the check returns the figures of TOTAL that
   differ from the sum under the very same text.
2. `findsEvery_iff`: when these are the instants at which the two disagree.
-/

namespace Gridlens

/-- A `dict`, whose items are in no order. -/
abbrev Dict (κ α : Type) := AList fun _ : κ => α

section Check

-- what `int()` makes of a value
variable (int : Json → Py Int)

/-- `value["start_date"]`, as a key. A payload has texts there; of anything else
a container at least cannot be hashed. -/
def startDate (value : Json) : Py String := do
  match ← value.getItem "start_date" with
  | .string text => .ok text
  | _ => raise .TypeError [.text "unhashable type"]

/-- `summed.get(start, 0)`. -/
def Dict.at (summed : Dict String Int) (start : String) : Int := (summed.lookup start).getD 0

/-- One value of a component. -/
def addValue (summed : Dict String Int) (value : Json) : Py (Dict String Int) := do
  let start ← startDate value
  let mw ← int (← value.getItem "value")
  .ok (summed.insert start (Dict.at summed start + mw))

/-- One entry of the payload. -/
def addEntry (summed : Dict String Int) (entry : Json) : Py (Dict String Int) := do
  if ← isTotal entry then .ok summed
  else (← (← entry.getItem "values").items).foldlM (addValue int) summed

/-- One value of TOTAL. -/
def compareValue (summed : Dict String Int) (result : Dict String (Int × Int)) (value : Json) :
    Py (Dict String (Int × Int)) := do
  let start ← startDate value
  let mw ← int (← value.getItem "value")
  .ok (if Dict.at summed start ≠ mw then result.insert start (mw, Dict.at summed start) else result)

/-- `next((e for e in payload if e.get("production_type") == TOTAL), None)`. -/
def totalEntry : List Json → Py (Option Json)
  | [] => .ok none
  | entry :: entries => do if ← isTotal entry then .ok (some entry) else totalEntry entries

/-- `total_matches_components`, from the parsed json on. -/
def totalMatchesComponents (payload : Json) : Py (Dict String (Int × Int)) := do
  let entries ← (← payload.getItem RESOURCE).items
  match ← totalEntry entries with
  | none => .ok ∅
  | some total =>
      let summed ← entries.foldlM (addEntry int) ∅
      (← (← total.getItem "values").items).foldlM (compareValue int summed) ∅

end Check

/-! ## The figures of a payload -/

/-- A value with its instant, as it is written and as it is. -/
structure Figure where
  start : String
  instant : Instant
  mw : Int

section Figures

variable (readers : Readers) (int : Json → Py Int)

/-- The value gives this figure. -/
structure IsFigure (value : Json) (f : Figure) : Prop where
  start : value.getItem "start_date" = .ok (.string f.start)
  instant : (Json.string f.start).instant readers = .ok f.instant
  mw : (value.getItem "value" >>= int) = .ok f.mw

/-- The entry has these figures. -/
def HasFigures (entry : Json) (figures : List Figure) : Prop :=
  ∃ items, (entry.getItem "values" >>= Json.items) = .ok items ∧
    List.Forall₂ (IsFigure readers int) items figures

/-- The components among the entries have these figures, one after the other. -/
inductive ComponentFigures : List Json → List Figure → Prop
  | nil : ComponentFigures [] []
  | total {entry entries figures} (h : isTotal entry = .ok true)
      (hrest : ComponentFigures entries figures) : ComponentFigures (entry :: entries) figures
  | component {entry entries own figures} (h : isTotal entry = .ok false)
      (hown : HasFigures readers int entry own) (hrest : ComponentFigures entries figures) :
      ComponentFigures (entry :: entries) (own ++ figures)

/-- A payload with a TOTAL entry, the first of which has these figures, and
components with those. -/
structure TotalPayload (payload : Json) (total components : List Figure) : Prop where
  entries : ∃ before entry after,
    (payload.getItem RESOURCE >>= Json.items) = .ok (before ++ entry :: after) ∧
    (∀ e ∈ before, isTotal e = .ok false) ∧ isTotal entry = .ok true ∧
    HasFigures readers int entry total ∧
    ComponentFigures readers int (before ++ entry :: after) components

end Figures

/-- What figures come to. -/
def sumOf (figures : List Figure) : Int := (figures.map Figure.mw).sum

/-- What the components come to at an instant. -/
def sumAt (components : List Figure) (u : Instant) : Int :=
  sumOf (components.filter fun c => c.instant = u)

/-- What they come to under a text. -/
def sumUnder (components : List Figure) (start : String) : Int :=
  sumOf (components.filter fun c => c.start = start)

/-- What they come to at the instant of a figure under other texts than its own. -/
def Figure.elsewhere (f : Figure) (components : List Figure) : Int :=
  sumOf (components.filter fun c => c.instant = f.instant ∧ c.start ≠ f.start)

/-- TOTAL has what the components come to at the instant; nothing, where it
does not have the instant. -/
structure SidesAgree (total components : List Figure) (u : Instant) : Prop where
  there : ∀ f ∈ total, f.instant = u → f.mw = sumAt components u
  absent : (∀ f ∈ total, f.instant ≠ u) → sumAt components u = 0

/-- What the check returns is empty where TOTAL agrees with the components at
every instant, and has instants of disagreement with both figures. -/
structure FindsEvery (int : Json → Py Int) (payload : Json) (total components : List Figure) :
    Prop where
  returns : ∃ result, totalMatchesComponents int payload = .ok result
  empty_iff : ∀ result, totalMatchesComponents int payload = .ok result →
    (result = ∅ ↔ ∀ u, SidesAgree total components u)
  found : ∀ result, totalMatchesComponents int payload = .ok result → ∀ start mw sum,
    result.lookup start = some (mw, sum) →
      mw ≠ sum ∧ ∃ f ∈ total, f.start = start ∧ f.mw = mw ∧ sumAt components f.instant = sum

/-! ## What the check returns -/

section Returns

variable {readers : Readers} {int : Json → Py Int} {figures : List Figure}

theorem startDate_figure {value : Json} {f : Figure} (h : IsFigure readers int value f) :
    startDate value = .ok f.start := by
  unfold startDate
  rw [h.start]
  rfl

theorem sumOf_append (figures figures' : List Figure) :
    sumOf (figures ++ figures') = sumOf figures + sumOf figures' := by
  unfold sumOf
  rw [List.map_append, List.sum_append]

theorem sumUnder_append (figures figures' : List Figure) (start : String) :
    sumUnder (figures ++ figures') start = sumUnder figures start + sumUnder figures' start := by
  unfold sumUnder
  rw [List.filter_append, sumOf_append]

theorem sumUnder_cons (f : Figure) (figures : List Figure) (start : String) :
    sumUnder (f :: figures) start =
      (if f.start = start then f.mw else 0) + sumUnder figures start := by
  rw [← List.singleton_append, sumUnder_append]
  congr 1
  unfold sumUnder
  by_cases h : f.start = start
  · rw [if_pos h, List.filter_singleton, decide_eq_true h]
    exact add_zero _
  · rw [if_neg h, List.filter_singleton, decide_eq_false h]
    rfl

theorem at_insert (summed : Dict String Int) (start start' : String) (mw : Int) :
    Dict.at (summed.insert start mw) start' =
      if start = start' then mw else Dict.at summed start' := by
  unfold Dict.at
  by_cases h : start = start'
  · rw [if_pos h, h, AList.lookup_insert]
    rfl
  · rw [if_neg h, AList.lookup_insert_ne (Ne.symm h)]

/-- The values of a component are added under their texts. -/
theorem foldlM_addValue {items : List Json} (h : List.Forall₂ (IsFigure readers int) items figures)
    (summed : Dict String Int) : ∃ summed', items.foldlM (addValue int) summed = .ok summed' ∧
      ∀ start, Dict.at summed' start = Dict.at summed start + sumUnder figures start := by
  induction h generalizing summed with
  | nil => exact ⟨summed, rfl, fun start => (add_zero _).symm⟩
  | @cons value f items figures hvalue _ ih =>
      rcases ih (summed.insert f.start (Dict.at summed f.start + f.mw)) with ⟨summed', hfold, hsum⟩
      rcases bind_eq_ok.mp hvalue.mw with ⟨json, hjson, hint⟩
      refine ⟨summed', ?_, fun start => ?_⟩
      · rw [List.foldlM_cons]
        unfold addValue
        rw [startDate_figure hvalue, ok_bind, hjson, ok_bind, hint, ok_bind, ok_bind]
        exact hfold
      · rw [hsum start, sumUnder_cons, at_insert]
        split_ifs with hstart
        · rw [hstart, add_assoc]
        · rw [zero_add]

theorem foldlM_addEntry {entries : List Json} (h : ComponentFigures readers int entries figures)
    (summed : Dict String Int) : ∃ summed', entries.foldlM (addEntry int) summed = .ok summed' ∧
      ∀ start, Dict.at summed' start = Dict.at summed start + sumUnder figures start := by
  induction h generalizing summed with
  | nil => exact ⟨summed, rfl, fun start => (add_zero _).symm⟩
  | @total entry entries figures htotal _ ih =>
      rcases ih summed with ⟨summed', hfold, hsum⟩
      refine ⟨summed', ?_, hsum⟩
      rw [List.foldlM_cons, addEntry, htotal]
      exact hfold
  | @component entry entries own figures htotal hown _ ih =>
      rcases hown with ⟨items, hitems, hown⟩
      rcases foldlM_addValue hown summed with ⟨middle, hadd, hmiddle⟩
      rcases ih middle with ⟨summed', hfold, hsum⟩
      rcases bind_eq_ok.mp hitems with ⟨values, hvalues, hitems⟩
      refine ⟨summed', ?_, fun start => ?_⟩
      · rw [List.foldlM_cons, addEntry, htotal, ok_bind, hvalues, ok_bind, hitems, ok_bind]
        show (List.foldlM (addValue int) summed items >>= _) = _
        rw [hadd]
        exact hfold
      · rw [hsum start, hmiddle start, sumUnder_append, add_assoc]

/-- TOTAL's values that differ are kept under their texts, the last one of a
text. -/
theorem foldlM_compareValue {items : List Json}
    (h : List.Forall₂ (IsFigure readers int) items figures) (summed : Dict String Int)
    (result : Dict String (Int × Int)) :
    ∃ result', items.foldlM (compareValue int summed) result = .ok result' ∧
      (∀ start found, result'.lookup start = some found → result.lookup start = some found ∨
        ∃ f ∈ figures, f.start = start ∧ f.mw ≠ Dict.at summed start ∧
          found = (f.mw, Dict.at summed start)) ∧
      (∀ start, start ∈ result → start ∈ result') ∧
      ∀ f ∈ figures, f.mw ≠ Dict.at summed f.start → f.start ∈ result' := by
  induction h generalizing result with
  | nil =>
      exact ⟨result, rfl, fun _ _ => Or.inl, fun _ => id, fun _ hf => absurd hf List.not_mem_nil⟩
  | @cons value f items figures hvalue _ ih =>
      rcases bind_eq_ok.mp hvalue.mw with ⟨json, hjson, hint⟩
      have hone : compareValue int summed result value = .ok (if Dict.at summed f.start ≠ f.mw then
          result.insert f.start (f.mw, Dict.at summed f.start) else result) := by
        unfold compareValue
        rw [startDate_figure hvalue, ok_bind, hjson, ok_bind, hint, ok_bind]
      rw [List.foldlM_cons, hone, ok_bind]
      by_cases hsame : Dict.at summed f.start = f.mw
      · rw [if_neg (not_not.mpr hsame)]
        rcases ih result with ⟨result', hfold, hfound, hkept, hall⟩
        refine ⟨result', hfold, fun start found hlookup => ?_, hkept, ?_⟩
        · rcases hfound start found hlookup with hbefore | ⟨g, hg, hfigure⟩
          · exact Or.inl hbefore
          · exact Or.inr ⟨g, List.mem_cons_of_mem f hg, hfigure⟩
        · rw [List.forall_mem_cons]
          exact ⟨fun hne => absurd hsame.symm hne, hall⟩
      · rw [if_pos hsame]
        rcases ih (result.insert f.start (f.mw, Dict.at summed f.start)) with
          ⟨result', hfold, hfound, hkept, hall⟩
        refine ⟨result', hfold, fun start found hlookup => ?_, fun start hstart => ?_, ?_⟩
        · rcases hfound start found hlookup with hbefore | ⟨g, hg, hfigure⟩
          · by_cases hstart : start = f.start
            · rw [hstart, AList.lookup_insert] at hbefore
              cases hbefore
              rw [hstart]
              exact Or.inr ⟨f, List.mem_cons_self, rfl, Ne.symm hsame, rfl⟩
            · rw [AList.lookup_insert_ne hstart] at hbefore
              exact Or.inl hbefore
          · exact Or.inr ⟨g, List.mem_cons_of_mem f hg, hfigure⟩
        · exact hkept start ((AList.mem_insert result).mpr (Or.inr hstart))
        · rw [List.forall_mem_cons]
          exact ⟨fun _ => hkept f.start ((AList.mem_insert result).mpr (Or.inl rfl)), hall⟩

/-- The first TOTAL entry is compared with the sums of what is not one. -/
theorem totalMatchesComponents_ok {payload : Json} {total components : List Figure}
    (h : TotalPayload readers int payload total components) :
    ∃ result, totalMatchesComponents int payload = .ok result ∧
      (∀ start found, result.lookup start = some found → ∃ f ∈ total, f.start = start ∧
        f.mw ≠ sumUnder components start ∧ found = (f.mw, sumUnder components start)) ∧
      ∀ f ∈ total, f.mw ≠ sumUnder components f.start → f.start ∈ result := by
  rcases h.entries with ⟨before, entry, after, hpayload, hbefore, hentry, hfigures, hcomponents⟩
  rcases bind_eq_ok.mp hpayload with ⟨list, hlist, hitems⟩
  rcases hfigures with ⟨items, hvalues, hfigures⟩
  rcases bind_eq_ok.mp hvalues with ⟨values, hvalues, hvalueItems⟩
  have hfirst : totalEntry (before ++ entry :: after) = .ok (some entry) := by
    clear hcomponents hpayload hitems
    induction before with
    | nil =>
        rw [List.nil_append, totalEntry, hentry]
        rfl
    | cons e before ih =>
        rw [List.forall_mem_cons] at hbefore
        rw [List.cons_append, totalEntry, hbefore.1]
        exact ih hbefore.2
  rcases foldlM_addEntry hcomponents ∅ with ⟨summed, hsummed, hsum⟩
  have hat : ∀ start, Dict.at summed start = sumUnder components start := by
    intro start
    rw [hsum start]
    exact zero_add _
  rcases foldlM_compareValue hfigures summed ∅ with ⟨result, hresult, hfound, -, hall⟩
  refine ⟨result, ?_, fun start found hlookup => ?_, fun f hf hne => ?_⟩
  · unfold totalMatchesComponents
    rw [hlist, ok_bind, hitems, ok_bind, hfirst, ok_bind]
    simp only
    rw [hsummed, ok_bind, hvalues, ok_bind, hvalueItems, ok_bind, hresult]
  · rcases hfound start found hlookup with hempty | ⟨f, hf, hstart, hne, hfigures⟩
    · rw [AList.lookup_empty] at hempty
      cases hempty
    · rw [hat] at hne hfigures
      exact ⟨f, hf, hstart, hne, hfigures⟩
  · rw [← hat] at hne
    exact hall f hf hne

end Returns

/-! ## When it finds every disagreement -/

section Finds

variable {readers : Readers} {int : Json → Py Int} {payload : Json}
  {total components : List Figure}

theorem dict_eq_empty {κ α : Type} [DecidableEq κ] {d : Dict κ α} (h : ∀ k, d.lookup k = none) :
    d = ∅ := by
  refine AList.ext (List.eq_nil_iff_forall_not_mem.mpr fun item hitem => ?_)
  rcases item with ⟨k, a⟩
  have hfound : a ∈ d.lookup k := AList.mem_lookup_iff.mpr hitem
  rw [h k] at hfound
  cases hfound

theorem HasFigures.instant {entry : Json} {figures : List Figure}
    (h : HasFigures readers int entry figures) :
    ∀ f ∈ figures, (Json.string f.start).instant readers = .ok f.instant := by
  rcases h with ⟨items, -, hfigures⟩
  intro f hf
  rcases exists_of_mem_right hfigures hf with ⟨value, -, hvalue⟩
  exact hvalue.instant

theorem ComponentFigures.instant {entries : List Json}
    (h : ComponentFigures readers int entries components) :
    ∀ f ∈ components, (Json.string f.start).instant readers = .ok f.instant := by
  induction h with
  | nil => exact fun _ hf => absurd hf List.not_mem_nil
  | total _ _ ih => exact ih
  | component _ hown _ ih =>
      intro f hf
      rcases List.mem_append.mp hf with hf | hf
      · exact hown.instant f hf
      · exact ih f hf

theorem TotalPayload.instant (h : TotalPayload readers int payload total components) :
    ∀ f ∈ total ++ components, (Json.string f.start).instant readers = .ok f.instant := by
  rcases h.entries with ⟨_, _, _, -, -, -, hfigures, hcomponents⟩
  intro f hf
  rcases List.mem_append.mp hf with hf | hf
  · exact hfigures.instant f hf
  · exact hcomponents.instant f hf

/-- A text is read as one instant, in TOTAL as in the components. -/
theorem TotalPayload.same_instant (h : TotalPayload readers int payload total components)
    {f c : Figure} (hf : f ∈ total ++ components) (hc : c ∈ total ++ components)
    (hstart : c.start = f.start) : c.instant = f.instant := by
  have hread := h.instant c hc
  rw [hstart, h.instant f hf] at hread
  exact (Except.ok.inj hread).symm

/-- What the components come to at the instant of a figure of TOTAL, by text. -/
theorem TotalPayload.sumAt_eq (h : TotalPayload readers int payload total components) {f : Figure}
    (hf : f ∈ total) :
    sumAt components f.instant = sumUnder components f.start + f.elsewhere components := by
  have hparts := ((List.filter_append_perm (fun c => decide (c.start = f.start))
    (components.filter fun c => c.instant = f.instant)).map Figure.mw).sum_eq
  rw [List.map_append, List.sum_append, List.filter_filter, List.filter_filter] at hparts
  have hown : components.filter
      (fun c => decide (c.start = f.start) && decide (c.instant = f.instant)) =
      components.filter fun c => c.start = f.start := by
    refine List.filter_congr fun c hc => ?_
    by_cases hstart : c.start = f.start
    · rw [decide_eq_true hstart, decide_eq_true (h.same_instant (List.mem_append_left _ hf)
        (List.mem_append_right _ hc) hstart)]
      rfl
    · rw [decide_eq_false hstart]
      rfl
  have hother : components.filter
      (fun c => !decide (c.start = f.start) && decide (c.instant = f.instant)) =
      components.filter fun c => c.instant = f.instant ∧ c.start ≠ f.start := by
    refine List.filter_congr fun c _ => ?_
    rw [Bool.decide_and, decide_not, Bool.and_comm]
  rw [hown, hother] at hparts
  exact hparts.symm

/-- The check finds every disagreement exactly where, of the values of TOTAL
that differ from the components under the same text, none has an instant at
which the components come to something under another text; and, if none
differs, the components come to nothing under any text TOTAL does not have. -/
theorem findsEvery_iff (h : TotalPayload readers int payload total components) :
    FindsEvery int payload total components ↔
      (∀ f ∈ total, f.mw ≠ sumUnder components f.start → f.elsewhere components = 0) ∧
      ((∀ f ∈ total, f.mw = sumUnder components f.start) →
        (∀ f ∈ total, f.elsewhere components = 0) ∧
        ∀ u, (∀ f ∈ total, f.instant ≠ u) → sumAt components u = 0) := by
  rcases totalMatchesComponents_ok h with ⟨result, hresult, hfound, hall⟩
  -- the values of TOTAL that differ, by their texts and at their instants
  have hempty : result = ∅ ↔ ∀ f ∈ total, f.mw = sumUnder components f.start := by
    constructor
    · intro hresult f hf
      by_contra hne
      have hmem := hall f hf hne
      rw [hresult] at hmem
      exact AList.notMem_empty _ hmem
    · intro hsame
      have hnone : ∀ start, result.lookup start = none := by
        intro start
        refine Option.eq_none_iff_forall_not_mem.mpr fun found hlookup => ?_
        rcases hfound start found hlookup with ⟨f, hf, hstart, hne, -⟩
        rw [← hstart] at hne
        exact hne (hsame f hf)
      exact dict_eq_empty hnone
  constructor
  · intro hfinds
    refine ⟨fun f hf hne => ?_, fun hsame => ?_⟩
    · rcases Option.isSome_iff_exists.mp (AList.lookup_isSome.mpr (hall f hf hne)) with
        ⟨found, hlookup⟩
      rcases hfound f.start found hlookup with ⟨g, -, -, -, hfigures⟩
      rw [hfigures] at hlookup
      rcases (hfinds.found result hresult _ _ _ hlookup).2 with ⟨g', hg', hstart, -, hsum⟩
      have hcut := h.sumAt_eq hg'
      have hinstant := h.same_instant (List.mem_append_left _ hf) (List.mem_append_left _ hg')
        hstart
      have helsewhere : g'.elsewhere components = f.elsewhere components := by
        unfold Figure.elsewhere
        rw [hinstant, hstart]
      rw [hsum, hstart, helsewhere] at hcut
      omega
    · have hagrees := (hfinds.empty_iff result hresult).mp (hempty.mpr hsame)
      refine ⟨fun f hf => ?_, fun u => (hagrees u).absent⟩
      have hthere := (hagrees f.instant).there f hf rfl
      rw [h.sumAt_eq hf, hsame f hf] at hthere
      omega
  · rintro ⟨hdiffer, hsame⟩
    have hdiffer_sum : ∀ f ∈ total, f.mw ≠ sumUnder components f.start →
        sumAt components f.instant = sumUnder components f.start := by
      intro f hf hne
      rw [h.sumAt_eq hf, hdiffer f hf hne, add_zero]
    refine ⟨⟨result, hresult⟩, fun result' hok => ?_, fun result' hok start mw sum hlookup => ?_⟩
    · rw [hresult] at hok
      cases hok
      rw [hempty]
      constructor
      · intro hall
        rcases hsame hall with ⟨hnone, habsent⟩
        refine fun u => ⟨fun f hf hu => ?_, habsent u⟩
        rw [← hu, h.sumAt_eq hf, hnone f hf, add_zero]
        exact hall f hf
      · intro hagrees f hf
        by_contra hne
        have hthere := (hagrees f.instant).there f hf rfl
        rw [hdiffer_sum f hf hne] at hthere
        exact hne hthere
    · rw [hresult] at hok
      cases hok
      rcases hfound start (mw, sum) hlookup with ⟨f, hf, hstart, hne, hfigures⟩
      cases hfigures
      rw [← hstart] at hne ⊢
      exact ⟨hne, f, hf, rfl, rfl, hdiffer_sum f hf hne⟩

end Finds

/-! ## A value TOTAL lacks, and one it writes with another offset -/

/-- Midnight of a day, read from its text in UTC and its text in Paris. -/
def midnightReaders : Readers where
  int text := raise .ValueError [.repr text]
  decimal text := raise .InvalidOperation [.repr text]
  datetime text :=
    if text = "2026-10-25T00:00:00+00:00" then .ok ⟨63928569600000000, some 0, by decide⟩
    else if text = "2026-10-25T02:00:00+02:00" then
      .ok ⟨63928576800000000, some 7200000000, by decide⟩
    else raise .ValueError [.repr text]
  date text := raise .ValueError [.repr text]

def intOf : Json → Py Int
  | .number text _ => if text = "5" then .ok 5 else raise .ValueError [.repr text]
  | value => raise .ValueError [.repr value.str]

/-- Five megawatts at this time. -/
def fiveAt (start : String) : Json :=
  .dictOf [("start_date", .string start), ("value", .number "5" false)]

def entryOf (productionType : String) (values : List Json) : Json :=
  .dictOf [("production_type", .string productionType), ("values", .listOf values)]

def withNuclear (total nuclear : List Json) : Json :=
  .dictOf [(RESOURCE, .listOf [entryOf TOTAL total, entryOf "NUCLEAR" nuclear])]

def midnightUtc : Figure := ⟨"2026-10-25T00:00:00+00:00", ⟨63928569600000000, by decide⟩, 5⟩

def midnightParis : Figure := ⟨"2026-10-25T02:00:00+02:00", ⟨63928569600000000, by decide⟩, 5⟩

/-- TOTAL is cut off before its only value. -/
def cutOff : Json := withNuclear [] [fiveAt midnightUtc.start]

theorem isFigure_utc : IsFigure midnightReaders intOf (fiveAt midnightUtc.start) midnightUtc :=
  ⟨rfl, by decide, rfl⟩

theorem isFigure_paris :
    IsFigure midnightReaders intOf (fiveAt midnightParis.start) midnightParis :=
  ⟨rfl, by decide, rfl⟩

/-- A payload of TOTAL and one component. -/
theorem totalPayload_of {total nuclear : List Json} {totals components : List Figure}
    (htotal : List.Forall₂ (IsFigure midnightReaders intOf) total totals)
    (hnuclear : List.Forall₂ (IsFigure midnightReaders intOf) nuclear components) :
    TotalPayload midnightReaders intOf (withNuclear total nuclear) totals components := by
  refine ⟨[], entryOf TOTAL total, [entryOf "NUCLEAR" nuclear], rfl, nofun, rfl,
    ⟨total, rfl, htotal⟩, ?_⟩
  have hcomponents : ComponentFigures midnightReaders intOf
      [entryOf TOTAL total, entryOf "NUCLEAR" nuclear] (components ++ []) :=
    .total rfl (.component rfl ⟨nuclear, rfl, hnuclear⟩ .nil)
  rw [List.append_nil] at hcomponents
  exact hcomponents

/-- Both have a value there, and TOTAL's is written with the other offset. -/
theorem findsEvery_offsets :
    FindsEvery intOf (withNuclear [fiveAt midnightUtc.start] [fiveAt midnightParis.start])
        [midnightUtc] [midnightParis] ↔
      (∀ f ∈ [midnightUtc], f.mw ≠ sumUnder [midnightParis] f.start →
        f.elsewhere [midnightParis] = 0) ∧
      ((∀ f ∈ [midnightUtc], f.mw = sumUnder [midnightParis] f.start) →
        (∀ f ∈ [midnightUtc], f.elsewhere [midnightParis] = 0) ∧
        ∀ u, (∀ f ∈ [midnightUtc], f.instant ≠ u) → sumAt [midnightParis] u = 0) :=
  findsEvery_iff (totalPayload_of (.cons isFigure_utc .nil) (.cons isFigure_paris .nil))

/-- A TOTAL that lacks what a component has is in order; one that has it with
another offset is not. -/
theorem disagreements_missed : totalMatchesComponents intOf cutOff = .ok ∅ ∧
    ¬ FindsEvery intOf cutOff [] [midnightUtc] ∧
    totalMatchesComponents intOf (withNuclear [fiveAt midnightUtc.start] [fiveAt midnightParis.start]) =
      .ok ((∅ : Dict String (Int × Int)).insert midnightUtc.start (5, 0)) ∧
    ¬ FindsEvery intOf (withNuclear [fiveAt midnightUtc.start] [fiveAt midnightParis.start])
      [midnightUtc] [midnightParis] := by
  have hempty : totalMatchesComponents intOf cutOff = .ok ∅ := rfl
  have hkept : totalMatchesComponents intOf
      (withNuclear [fiveAt midnightUtc.start] [fiveAt midnightParis.start]) =
        .ok ((∅ : Dict String (Int × Int)).insert midnightUtc.start (5, 0)) := rfl
  refine ⟨hempty, fun hfinds => ?_, hkept, fun hfinds => ?_⟩
  · have hagrees := (hfinds.empty_iff ∅ hempty).mp rfl midnightUtc.instant
    exact absurd (hagrees.absent fun _ hf => absurd hf List.not_mem_nil) (by decide)
  · have hfound := (hfinds.found _ hkept midnightUtc.start 5 0 (AList.lookup_insert _)).2
    rcases hfound with ⟨f, hf, -, -, hsum⟩
    cases List.mem_singleton.mp hf
    exact absurd hsum (by decide)

end Gridlens
