import Gridlens.Effects.Running
import Gridlens.RteNet

/-!
# The grid loop of the RTE normaliser

`_expected` walks the window of an entry by the span its values share, and
takes both from the payload: nothing says the span is positive. Here the loop
is the loop it is (`expectedLoop`), and the normaliser around it is a
computation that may not end. Where it ends it does what `RteParse` says
(`agrees_parseActualGeneration`); `normaliser_halts_iff` says when it does.
-/

namespace Gridlens

open Effects Running

/-! ## `_expected`, iteration by iteration -/

/-- One iteration: the moments so far, and the next one. -/
def expectedStep (stop : Instant) (resolution : Int) (s : List Instant × Instant) :
    Py ((List Instant × Instant) ⊕ List Instant) :=
  if s.2.micros < stop.micros then do
    let next ← Instant.ofMicros (s.2.micros + resolution)
    .ok (.inl (s.1 ++ [s.2], next))
  else .ok (.inr s.1)

def expectedLoop (start stop : Instant) (resolution : Int) : Running PyError (List Instant) :=
  loop (expectedStep stop resolution) ([], start)

section Expected

variable {start stop : Instant} {resolution : Int}

/-- A step that goes on adds the resolution. -/
theorem expectedStep_inl {s s' : List Instant × Instant}
    (h : expectedStep stop resolution s = .ok (.inl s')) :
    s.2.micros < stop.micros ∧ s'.2.micros = s.2.micros + resolution := by
  unfold expectedStep at h
  split at h
  · rename_i hlt
    obtain ⟨next, hnext, heq⟩ := bind_eq_ok.mp h
    cases heq
    exact ⟨hlt, Instant.ofMicros_ok hnext⟩
  · cases h

/-- The loop ends unless it stands still before the end of the window. -/
theorem expectedLoop_halts_iff : (expectedLoop start stop resolution).Halts ↔
    ¬ (resolution = 0 ∧ start.micros < stop.micros) := by
  constructor
  · rintro hhalts ⟨rfl, hlt⟩
    refine not_halts_loop (I := fun s => s.2 = start) ?_ rfl hhalts
    rintro ⟨moments, moment⟩ rfl
    refine ⟨(moments ++ [moment], moment), ?_, rfl⟩
    unfold expectedStep Instant.ofMicros
    rw [if_pos hlt, Int.add_zero, dif_pos moment.inRange]
    rfl
  · intro hmoves
    by_cases hzero : resolution = 0
    · -- no iteration at all
      have hend : ¬ start.micros < stop.micros := fun hlt => hmoves ⟨hzero, hlt⟩
      refine ⟨.ok [], ends_loop.mpr ?_⟩
      unfold expectedStep
      rw [if_neg hend]
    · rcases lt_or_gt_of_ne hzero with hback | hforth
      · -- backwards, until the calendar ends
        refine halts_loop (fun s => s.2.micros.toNat) (fun s s' hstep => ?_) _
        have hnext := (expectedStep_inl hstep).2
        have hrange := s'.2.inRange.1
        simp only [DAY_eq] at hrange
        omega
      · refine halts_loop (fun s => (stop.micros - s.2.micros).toNat) (fun s s' hstep => ?_) _
        obtain ⟨hlt, hnext⟩ := expectedStep_inl hstep
        omega

/-- The moments of a window, and the one after them. -/
def momentsFrom (resolution : Int) (moment : Instant) (count : Nat) : Py (List Instant) :=
  (List.range (count + 1)).mapM fun i : Nat => Instant.ofMicros (moment.micros + i * resolution)

theorem ofMicros_micros (moment : Instant) : Instant.ofMicros moment.micros = .ok moment :=
  dif_pos moment.inRange

theorem momentsFrom_zero (moment : Instant) : momentsFrom resolution moment 0 = .ok [moment] := by
  unfold momentsFrom
  rw [List.range_one, List.mapM_cons, List.mapM_nil, Nat.cast_zero, Int.zero_mul, Int.add_zero,
    ofMicros_micros]
  rfl

theorem momentsFrom_succ (moment : Instant) (count : Nat) :
    momentsFrom resolution moment (count + 1) = (do
      let next ← Instant.ofMicros (moment.micros + resolution)
      let rest ← momentsFrom resolution next count
      .ok (moment :: rest)) := by
  unfold momentsFrom
  rw [List.range_succ_eq_map, List.mapM_cons, Nat.cast_zero, Int.zero_mul, Int.add_zero,
    ofMicros_micros, List.mapM_map]
  cases hnext : Instant.ofMicros (moment.micros + resolution) with
  | error e =>
      -- the second moment is already past the calendar
      rw [List.range_succ_eq_map, List.mapM_cons]
      simp [hnext]
      rfl
  | ok next =>
      have hmicros := Instant.ofMicros_ok hnext
      have hshift : ((fun i : Nat => Instant.ofMicros (moment.micros + i * resolution)) ∘ Nat.succ) =
          fun i : Nat => Instant.ofMicros (next.micros + i * resolution) := by
        funext i
        rw [Function.comp_apply, hmicros, Nat.cast_succ, Int.add_mul, Int.one_mul,
          Int.add_comm _ resolution, Int.add_assoc]
      rw [hshift]
      rfl

/-- How many moments of the window lie from here on. -/
def momentsLeft (stop : Instant) (resolution : Int) (moment : Instant) : Nat :=
  ((stop.micros - moment.micros + resolution - 1) / resolution).toNat

/-- Forwards, the loop collects the moments of the window. -/
theorem ends_loop_forth (hres : 0 < resolution) (count : Nat) :
    ∀ (moments : List Instant) (moment : Instant), momentsLeft stop resolution moment = count →
      (loop (expectedStep stop resolution) (moments, moment)).Ends (do
        let all ← momentsFrom resolution moment count
        .ok (moments ++ all.dropLast)) := by
  induction count with
  | zero =>
      intro moments moment hleft
      have hend : ¬ moment.micros < stop.micros := by
        intro hlt
        have hone : 1 ≤ (stop.micros - moment.micros + resolution - 1) / resolution :=
          (Int.le_ediv_iff_mul_le hres).mpr (by omega)
        unfold momentsLeft at hleft
        omega
      refine ends_loop.mpr ?_
      unfold expectedStep
      rw [if_neg hend, momentsFrom_zero]
      exact congrArg Except.ok (List.append_nil moments).symm
  | succ count ih =>
      intro moments moment hleft
      have hlt : moment.micros < stop.micros := by
        by_contra hend
        have hnone : (stop.micros - moment.micros + resolution - 1) / resolution < 1 :=
          (Int.ediv_lt_iff_lt_mul hres).mpr (by omega)
        unfold momentsLeft at hleft
        omega
      refine ends_loop.mpr ?_
      unfold expectedStep
      rw [if_pos hlt, momentsFrom_succ]
      cases hnext : Instant.ofMicros (moment.micros + resolution) with
      | error e => exact rfl
      | ok next =>
          have hmicros := Instant.ofMicros_ok hnext
          have hone : momentsLeft stop resolution next = count := by
            have hsub : stop.micros - next.micros + resolution - 1 =
                stop.micros - moment.micros + resolution - 1 + resolution * (-1) := by omega
            unfold momentsLeft at hleft ⊢
            rw [hsub, Int.add_mul_ediv_left _ _ hres.ne']
            omega
          have hrest := ih (moments ++ [moment]) next hone
          -- the moment just collected is the first of all
          show (loop (expectedStep stop resolution) (moments ++ [moment], next)).Ends
            ((momentsFrom resolution next count >>= fun rest => .ok (moment :: rest)) >>=
              fun all => .ok (moments ++ all.dropLast))
          cases hall : momentsFrom resolution next count with
          | error e =>
              rw [hall] at hrest
              exact hrest
          | ok all =>
              rw [hall] at hrest
              have hne : all ≠ [] := by
                intro hnil
                have hlength := (mapM_eq_ok.mp hall).length_eq
                rw [hnil, List.length_range] at hlength
                exact absurd hlength (Nat.succ_ne_zero count)
              have hdrop : moments ++ (moment :: all).dropLast =
                  moments ++ [moment] ++ all.dropLast := by
                rw [List.dropLast_cons_of_ne_nil hne, List.append_assoc]
                rfl
              show (loop _ _).Ends (.ok (moments ++ (moment :: all).dropLast))
              rw [hdrop]
              exact hrest

/-- Backwards, it comes to the end of the calendar. -/
theorem ends_loop_back (hres : resolution < 0) (moments : List Instant) (moment : Instant)
    (hlt : moment.micros < stop.micros) :
    (loop (expectedStep stop resolution) (moments, moment)).Ends
      (raise .OverflowError [.text "date value out of range"]) := by
  induction hm : moment.micros.toNat using Nat.strongRecOn generalizing moments moment with
  | ind m ih =>
      refine ends_loop.mpr ?_
      unfold expectedStep
      rw [if_pos hlt]
      by_cases hrange : WallInRange (moment.micros + resolution)
      · have hnext : Instant.ofMicros (moment.micros + resolution) =
            .ok ⟨moment.micros + resolution, hrange⟩ := dif_pos hrange
        have hlow := hrange.1
        rw [DAY_eq] at hlow
        rw [hnext]
        refine ih (moment.micros + resolution).toNat (by omega) _ _ ?_ rfl
        show moment.micros + resolution < stop.micros
        omega
      · have hnext : Instant.ofMicros (moment.micros + resolution) =
            raise .OverflowError [.text "date value out of range"] := dif_neg hrange
        rw [hnext]
        rfl

/-- Where the loop ends, it ends with what `expected` says. -/
theorem agrees_expectedLoop (start stop : Instant) (resolution : Int) :
    (expectedLoop start stop resolution).Agrees (expected start stop resolution) := by
  intro r hr
  unfold expected
  split
  · rename_i hend
    -- not one iteration
    have hnone := ends_loop.mp hr
    unfold expectedStep at hnone
    rw [if_neg (not_lt.mpr hend)] at hnone
    exact hnone.symm
  · rename_i hlt
    split
    · rename_i hzero
      exact absurd ⟨r, hr⟩ (mt expectedLoop_halts_iff.mp (not_not.mpr ⟨hzero, not_le.mp hlt⟩))
    · rename_i hzero
      split
      · rename_i hback
        exact hr.unique (ends_loop_back hback [] start (not_le.mp hlt))
      · rename_i hforth
        have hres : 0 < resolution := by omega
        exact hr.unique (ends_loop_forth hres _ [] start rfl)

end Expected

/-! ## The normaliser around it -/

section Normaliser

variable (readers : Readers) (zone : BiddingZone) (knownAt : DateTime)

/-- The values of an entry that has some. -/
def normaliseValuesLoop (entry : Json) (raw : String) (productionType : ProductionType)
    (result : GateResult) (values : Json) : Running PyError GateResult := do
  let items ← lift values.items
  let spans ← lift (items.mapM (spanOf readers))
  match (spans.filterMap id).dedup with
  | [resolution] => do
      let present ← lift (presentOf readers items)
      let start ← lift (entry.getItem "start_date")
      let start ← lift (start.instant readers)
      let stop ← lift (entry.getItem "end_date")
      let stop ← lift (stop.instant readers)
      let moments ← expectedLoop start stop resolution
      lift (moments.foldlM
        (normaliseMoment readers zone knownAt productionType resolution present) result)
  | spans =>
      lift (.ok { result with violations := result.violations ++
        [⟨"mixed_resolution",
          [.text raw, .text " carries spans "] ++
            strings ((spans.map timedeltaStr).mergeSort (· ≤ ·)),
          [("production_type", .str raw), ("source", .str "rte")]⟩] })

/-- `_normalise_entry`. -/
def normaliseEntryLoop (result : GateResult) (entry : Json) : Running PyError GateResult := do
  let raw ← lift (rawType entry)
  match PRODUCTION_TYPES.lookup raw with
  | none =>
      lift (.ok { result with violations := result.violations ++
        [⟨"unknown_production_type", [.repr raw, .text " has no entsoe equivalent"],
          [("production_type", .str raw), ("source", .str "rte")]⟩] })
  | some productionType =>
      let values ← lift (entry.get "values")
      match values with
      | some values =>
          if values.truthy then
            normaliseValuesLoop readers zone knownAt entry raw productionType result values
          else lift (.ok result)
      | none => lift (.ok result)

def normaliseAllLoop (es : List Json) : Running PyError GateResult :=
  es.foldlM (fun result entry => do
    let total ← lift (isTotal entry)
    if total then lift (.ok result)
    else normaliseEntryLoop readers zone knownAt result entry) ⟨[], [], []⟩

/-- `parse_actual_generation`, from what `json.loads` returns or raises. -/
def parseActualGenerationLoop (loaded : Py Json) : Running PyError GateResult := do
  let payload ← lift loaded
  let es ← lift (entries payload)
  normaliseAllLoop readers zone knownAt es

end Normaliser

section Grid

variable {readers : Readers} {zone : BiddingZone} {knownAt : DateTime}

/-- Where the normaliser comes to the loop in an entry, the window and the
step it comes with. -/
def gridOf (readers : Readers) (entry : Json) : Py (Option (Instant × Instant × Int)) := do
  let raw ← rawType entry
  if (PRODUCTION_TYPES.lookup raw).isNone then .ok none
  else
    let values ← entry.get "values"
    match values.filter Json.truthy with
    | none => .ok none
    | some values => do
        let items ← values.items
        let spans ← items.mapM (spanOf readers)
        match (spans.filterMap id).dedup with
        | [resolution] => do
            let _ ← presentOf readers items
            let start ← entry.getItem "start_date" >>= fun text => text.instant readers
            let stop ← entry.getItem "end_date" >>= fun text => text.instant readers
            .ok (some (start, stop, resolution))
        | _ => .ok none

theorem normaliseValuesLoop_halts_iff {entry values : Json} {raw : String}
    {productionType : ProductionType} {result : GateResult} :
    (normaliseValuesLoop readers zone knownAt entry raw productionType result values).Halts ↔
      ∀ items spans resolution present start stop, values.items = .ok items →
        items.mapM (spanOf readers) = .ok spans → (spans.filterMap id).dedup = [resolution] →
        presentOf readers items = .ok present →
        (entry.getItem "start_date" >>= fun text => text.instant readers) = .ok start →
        (entry.getItem "end_date" >>= fun text => text.instant readers) = .ok stop →
        (expectedLoop start stop resolution).Halts := by
  unfold normaliseValuesLoop
  simp only [halts_lift_bind]
  constructor
  · intro h items spans resolution present start stop hitems hspans hone hpresent hstart hstop
    have hvalues := h items hitems spans hspans
    rw [hone] at hvalues
    simp only [halts_lift_bind] at hvalues
    rcases bind_eq_ok.mp hstart with ⟨startText, hstartText, hstart⟩
    rcases bind_eq_ok.mp hstop with ⟨stopText, hstopText, hstop⟩
    exact (halts_bind.mp (hvalues present hpresent startText hstartText start hstart stopText
      hstopText stop hstop)).1
  · intro h items hitems spans hspans
    split
    · rename_i resolution hone
      simp only [halts_lift_bind]
      intro present hpresent startText hstartText start hstart stopText hstopText stop hstop
      exact halts_bind.mpr ⟨h items spans resolution present start stop hitems hspans hone
        hpresent (bind_eq_ok.mpr ⟨startText, hstartText, hstart⟩)
        (bind_eq_ok.mpr ⟨stopText, hstopText, hstop⟩), fun _ _ => halts_lift⟩
    · exact halts_lift

/-- What an entry says on the way to the loop. -/
structure Walks (readers : Readers) (entry : Json) (productionType : ProductionType)
    (items : List Json) (present : List (Instant × Json)) (start stop : Instant)
    (resolution : Int) : Prop where
  type : ∃ raw, rawType entry = .ok raw ∧ PRODUCTION_TYPES.lookup raw = some productionType
  values : ∃ values, entry.get "values" = .ok (some values) ∧ values.truthy = true ∧
    values.items = .ok items
  spans : ∃ spans, items.mapM (spanOf readers) = .ok spans ∧
    (spans.filterMap id).dedup = [resolution]
  present : presentOf readers items = .ok present
  start : (entry.getItem "start_date" >>= fun text => text.instant readers) = .ok start
  stop : (entry.getItem "end_date" >>= fun text => text.instant readers) = .ok stop

theorem gridOf_eq_some_iff {entry : Json} {start stop : Instant} {resolution : Int} :
    gridOf readers entry = .ok (some (start, stop, resolution)) ↔
      ∃ productionType items present,
        Walks readers entry productionType items present start stop resolution := by
  constructor
  · intro h
    unfold gridOf at h
    rcases bind_eq_ok.mp h with ⟨raw, hraw, h⟩
    split at h
    · cases h
    · rename_i htype
      rcases bind_eq_ok.mp h with ⟨found, hfound, h⟩
      split at h
      · cases h
      · rename_i values hvalues
        rcases Option.filter_eq_some_iff.mp hvalues with ⟨rfl, htruthy⟩
        rcases bind_eq_ok.mp h with ⟨items, hitems, h⟩
        rcases bind_eq_ok.mp h with ⟨spans, hspans, h⟩
        split at h
        · rename_i hone
          rcases bind_eq_ok.mp h with ⟨present, hpresent, h⟩
          rcases bind_eq_ok.mp h with ⟨start', hstart, h⟩
          rcases bind_eq_ok.mp h with ⟨stop', hstop, h⟩
          cases h
          rcases Option.ne_none_iff_exists'.mp (mt Option.isNone_iff_eq_none.mpr htype)
            with ⟨productionType, hlookup⟩
          exact ⟨productionType, items, present, ⟨raw, hraw, hlookup⟩,
            ⟨values, hfound, htruthy, hitems⟩, ⟨spans, hspans, hone⟩, hpresent, hstart, hstop⟩
        · cases h
  · rintro ⟨productionType, items, present, ⟨raw, hraw, hlookup⟩,
      ⟨values, hfound, htruthy, hitems⟩, ⟨spans, hspans, hone⟩, hpresent, hstart, hstop⟩
    unfold gridOf
    rw [hraw]
    refine bind_eq_ok.mpr ⟨raw, rfl, ?_⟩
    rw [hlookup, hfound]
    refine bind_eq_ok.mpr ⟨_, rfl, ?_⟩
    rw [Option.filter_some, if_pos htruthy]
    refine bind_eq_ok.mpr ⟨items, hitems, bind_eq_ok.mpr ⟨spans, hspans, ?_⟩⟩
    rw [hone]
    exact bind_eq_ok.mpr ⟨present, hpresent, bind_eq_ok.mpr ⟨start, hstart,
      bind_eq_ok.mpr ⟨stop, hstop, rfl⟩⟩⟩

/-- An entry is got through unless its grid loop is not. -/
theorem normaliseEntryLoop_halts_iff {entry : Json} {result : GateResult} :
    (normaliseEntryLoop readers zone knownAt result entry).Halts ↔
      ∀ start stop resolution, gridOf readers entry = .ok (some (start, stop, resolution)) →
        (expectedLoop start stop resolution).Halts := by
  unfold normaliseEntryLoop
  rw [halts_lift_bind]
  constructor
  · intro h start stop resolution hgrid
    rcases gridOf_eq_some_iff.mp hgrid with ⟨productionType, items, present, ⟨raw, hraw, hlookup⟩,
      ⟨values, hfound, htruthy, hitems⟩, ⟨spans, hspans, hone⟩, hpresent, hstart, hstop⟩
    have hentry := h raw hraw
    rw [hlookup] at hentry
    have hvalues := halts_lift_bind.mp hentry _ hfound
    simp only [htruthy, if_true] at hvalues
    exact normaliseValuesLoop_halts_iff.mp hvalues items spans resolution present start stop
      hitems hspans hone hpresent hstart hstop
  · intro h raw hraw
    split
    · exact halts_lift
    · rename_i productionType hlookup
      refine halts_lift_bind.mpr fun found hfound => ?_
      split
      · rename_i values
        split
        · rename_i htruthy
          refine normaliseValuesLoop_halts_iff.mpr ?_
          intro items spans resolution present start stop hitems hspans hone hpresent hstart hstop
          exact h start stop resolution (gridOf_eq_some_iff.mpr ⟨productionType, items, present,
            ⟨raw, hraw, hlookup⟩, ⟨values, hfound, htruthy, hitems⟩, ⟨spans, hspans, hone⟩,
            hpresent, hstart, hstop⟩)
        · exact halts_lift
      · exact halts_lift

theorem agrees_normaliseValues (entry : Json) (raw : String) (productionType : ProductionType)
    (result : GateResult) (values : Json) :
    (normaliseValuesLoop readers zone knownAt entry raw productionType result values).Agrees
      (normaliseValues readers zone knownAt entry raw productionType result values) := by
  unfold normaliseValuesLoop normaliseValues
  refine agrees_bind (agrees_lift _) fun items _ => ?_
  refine agrees_bind (agrees_lift _) fun spans _ => ?_
  rcases (spans.filterMap id).dedup with _ | ⟨resolution, _ | ⟨other, spans⟩⟩
  · exact agrees_lift _
  · refine agrees_bind (agrees_lift _) fun present _ => ?_
    refine agrees_bind (agrees_lift _) fun startText _ => ?_
    refine agrees_bind (agrees_lift _) fun start _ => ?_
    refine agrees_bind (agrees_lift _) fun stopText _ => ?_
    refine agrees_bind (agrees_lift _) fun stop _ => ?_
    exact agrees_bind (agrees_expectedLoop start stop _) fun moments _ => agrees_lift _
  · exact agrees_lift _

/-- Where an entry is got through, `normaliseEntry` says what comes of it. -/
theorem agrees_normaliseEntry (result : GateResult) (entry : Json) :
    (normaliseEntryLoop readers zone knownAt result entry).Agrees
      (normaliseEntry readers zone knownAt result entry) := by
  unfold normaliseEntryLoop normaliseEntry
  refine agrees_bind (agrees_lift _) fun raw _ => ?_
  cases PRODUCTION_TYPES.lookup raw with
  | none => exact agrees_lift _
  | some productionType =>
      refine agrees_bind (agrees_lift _) fun found _ => ?_
      cases found with
      | none => exact agrees_lift _
      | some values =>
          simp only
          split
          · exact agrees_normaliseValues entry raw productionType result values
          · exact agrees_lift _

/-- The loop body of `parse_actual_generation`. -/
def normaliseOther (readers : Readers) (zone : BiddingZone) (knownAt : DateTime)
    (result : GateResult) (entry : Json) : Py GateResult := do
  if ← isTotal entry then .ok result
  else normaliseEntry readers zone knownAt result entry

theorem agrees_normaliseAll (es : List Json) :
    (normaliseAllLoop readers zone knownAt es).Agrees
      (es.foldlM (normaliseOther readers zone knownAt) ⟨[], [], []⟩) := by
  refine agrees_foldlM (fun result entry => ?_) es _
  refine agrees_bind (agrees_lift _) fun total _ => ?_
  split
  · exact agrees_lift _
  · exact agrees_normaliseEntry result entry

/-- What `RteParse` says of a payload is what the normaliser ends with, where
it ends. -/
theorem agrees_parseActualGeneration (loaded : Py Json) :
    (parseActualGenerationLoop readers zone knownAt loaded).Agrees
      (loaded >>= parseActualGeneration readers zone knownAt) := by
  refine agrees_bind (agrees_lift _) fun payload _ => ?_
  exact agrees_bind (agrees_lift _) fun es _ => agrees_normaliseAll es

/-- The normaliser ends exactly when no entry it comes to has values of zero
length and a window that is not empty. -/
theorem normaliser_halts_iff (readers : Readers) (zone : BiddingZone) (knownAt : DateTime)
    (loaded : Py Json) : (parseActualGenerationLoop readers zone knownAt loaded).Halts ↔
      ∀ payload es done entry rest before start stop, loaded = .ok payload →
        entries payload = .ok es → es = done ++ entry :: rest →
        done.foldlM (normaliseOther readers zone knownAt) ⟨[], [], []⟩ = .ok before →
        isTotal entry = .ok false → gridOf readers entry = .ok (some (start, stop, 0)) →
        stop.micros ≤ start.micros := by
  unfold parseActualGenerationLoop
  simp only [halts_lift_bind]
  constructor
  · intro h payload es done entry rest before start stop hloaded hes hsplit hbefore htotal hgrid
    have hall := h payload hloaded es hes
    have hdone : (normaliseAllLoop readers zone knownAt done).Halts := by
      rw [hsplit] at hall
      exact hall.of_append
    rcases hdone with ⟨r, hr⟩
    have hreached := agrees_normaliseAll done r hr
    rw [hbefore] at hreached
    rw [hreached] at hr
    have hentry := halts_foldlM.mp hall done entry rest before hsplit hr
    have hloop := normaliseEntryLoop_halts_iff.mp (by simpa using halts_lift_bind.mp hentry _ htotal)
      start stop 0 hgrid
    exact not_lt.mp fun hlt => expectedLoop_halts_iff.mp hloop ⟨rfl, hlt⟩
  · intro h payload hloaded es hes
    refine halts_foldlM.mpr fun done entry rest before hsplit hbefore => ?_
    refine halts_lift_bind.mpr fun total htotal => ?_
    cases total with
    | true => exact halts_lift
    | false =>
        refine normaliseEntryLoop_halts_iff.mpr fun start stop resolution hgrid => ?_
        refine expectedLoop_halts_iff.mpr ?_
        rintro ⟨rfl, hlt⟩
        have hreached := agrees_normaliseAll done _ hbefore
        exact not_lt.mpr (h payload es done entry rest before start stop hloaded hes hsplit
          hreached.symm htotal hgrid) hlt

end Grid

/-! ## A payload that is never got through -/

/-- An hour of window, and a value that ends where it starts. -/
def standingPayload : Json :=
  .dictOf [(RESOURCE, .listOf [.dictOf [("production_type", .string "NUCLEAR"),
    ("start_date", .string "2026-08-26T12:00Z"), ("end_date", .string "2026-08-26T13:00Z"),
    ("values", .listOf [.dictOf [("start_date", .string "2026-08-26T12:00Z"),
      ("end_date", .string "2026-08-26T12:00Z"), ("value", .number "50" false)]])]])]

theorem standing_never_ends :
    ¬ (parseActualGenerationLoop pumpedReaders .FR atOne.toDateTime (.ok standingPayload)).Halts := by
  rw [normaliser_halts_iff]
  intro h
  have hle := h standingPayload _ [] _ [] ⟨[], [], []⟩ atTwelve atOne rfl rfl rfl rfl rfl rfl
  exact absurd hle (by decide)

end Gridlens
