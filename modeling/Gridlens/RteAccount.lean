import Gridlens.Positions
import Gridlens.RteLoop

/-!
# What becomes of the values of an RTE entry

The normaliser looks the values of an entry up at the moments of a grid it
rebuilds from the declared window. A value whose start is not one of them is
not looked up at all, of two values with one start the later one is, and a
span of a minute and a half makes records of one minute. `entry_accounted_iff`
says when none of this happens: exactly then each value comes to one record or
violation that says what it said, and each moment without a value to one gap.
-/

namespace Gridlens

open Effects Running

/-! ## Decimals that survive `abs` -/

/-- `-value`. -/
def Decimal.neg : Decimal → Decimal
  | .finite negative digits exponent => .finite (!negative) digits exponent
  | .infinite negative => .infinite (!negative)
  | .nan => .nan

/-- The value a magnitude stands for: what is consumed counts against. -/
def Decimal.signed (direction : Direction) (magnitude : Decimal) : Decimal :=
  if direction = .consumption then magnitude.neg else magnitude

/-- The 28 digits of the context are enough for the value. -/
def Decimal.Fits : Decimal → Prop
  | .finite _ digits _ => digits < 10 ^ 28 ∨ 10 ^ (numDigits digits - 28) ∣ digits
  | _ => True

/-- Rounding loses nothing exactly where only zeros go. -/
theorem roundDigits_mul_eq_iff {digits : Nat} :
    (roundDigits digits).1 * 10 ^ (roundDigits digits).2 = digits ↔
      10 ^ (numDigits digits - 28) ∣ digits := by
  unfold roundDigits
  simp only
  generalize numDigits digits - 28 = drop
  have hpos : 0 < 10 ^ drop := Nat.pow_pos (by omega)
  have hsplit := Nat.div_add_mod' digits (10 ^ drop)
  generalize hquotient : digits / 10 ^ drop = quotient at *
  generalize hrest : digits % 10 ^ drop = rest at *
  have hdvd : 10 ^ drop ∣ digits ↔ rest = 0 := by rw [Nat.dvd_iff_mod_eq_zero, hrest]
  generalize hrounded : (if 10 ^ drop < 2 * rest ∨ 2 * rest = 10 ^ drop ∧ quotient % 2 = 1 then
    quotient + 1 else quotient) = rounded
  -- a carry through all the digits moves the point, not the value
  have hvalue : (if rounded = 10 ^ 28 then (10 ^ 27, drop + 1) else (rounded, drop)).1 *
      10 ^ (if rounded = 10 ^ 28 then (10 ^ 27, drop + 1) else (rounded, drop)).2 =
        rounded * 10 ^ drop := by
    split_ifs with hcarry
    · have hnext : 10 ^ (drop + 1) = 10 ^ drop * 10 := pow_succ 10 drop
      show 10 ^ 27 * 10 ^ (drop + 1) = rounded * 10 ^ drop
      rw [hcarry, hnext]
      omega
    · rfl
  rw [hvalue, hdvd, ← hrounded]
  constructor
  · intro heq
    rw [← hsplit] at heq
    have hlt : rest < 10 ^ drop := hrest ▸ Nat.mod_lt _ hpos
    split_ifs at heq
    · rw [Nat.add_mul] at heq
      omega
    · omega
  · rintro rfl
    rw [if_neg (by omega), ← hsplit, Nat.add_zero]

/-- The sign and the magnitude of a value give the value back exactly where it
fits the context. -/
theorem signed_equals_iff {quantity magnitude : Decimal} {negative : Bool}
    (hnegative : quantity.isNegative = .ok negative) (hmagnitude : quantity.abs = .ok magnitude) :
    ((magnitude.signed (directionOf negative)).equals quantity = true) ↔ quantity.Fits := by
  cases quantity with
  | nan => cases hnegative
  | infinite sign =>
      cases hnegative
      cases hmagnitude
      cases negative <;> simp [Decimal.Fits, Decimal.signed, directionOf, Decimal.neg, Decimal.equals]
  | finite sign digits exponent =>
      cases hnegative
      have hsign : ∀ (d : Nat) (e : Int) (drop : Nat), e = exponent + drop →
          (((Decimal.finite false d e).signed (directionOf (sign && digits ≠ 0))).equals
            (.finite sign digits exponent) = true ↔ d * 10 ^ drop = digits) := by
        rintro d e drop rfl
        have hmin : min (exponent + drop) exponent = exponent := min_eq_right (by omega)
        have hdrop : (exponent + drop - exponent).toNat = drop := by omega
        have hnat : (d : Int) * 10 ^ drop = digits ↔ d * 10 ^ drop = digits := by
          exact_mod_cast Iff.rfl
        by_cases hminus : sign = true ∧ digits ≠ 0
        · have hdirection : (sign && decide (digits ≠ 0)) = true := by simp [hminus]
          rw [hdirection, ← hnat]
          simp only [Decimal.signed, directionOf, if_true, Decimal.neg, Decimal.equals, hmin, hdrop,
            hminus.1, sub_self, Int.toNat_zero, pow_zero, mul_one, decide_eq_true_eq, Bool.not_false]
          rw [mul_assoc, neg_one_mul, neg_one_mul, neg_inj]
        · have hdirection : (sign && decide (digits ≠ 0)) = false := by
            simpa using hminus
          have hvalue : (if sign = true then -1 else 1) * (digits : Int) = digits := by
            by_cases hs : sign = true
            · have hzero : digits = 0 := not_not.mp fun hne => hminus ⟨hs, hne⟩
              rw [hzero, Nat.cast_zero, mul_zero]
            · rw [if_neg hs, one_mul]
          rw [hdirection, ← hnat]
          simp only [Decimal.signed, directionOf, Bool.false_eq_true, if_false, reduceCtorEq,
            Decimal.equals, hmin, hdrop, hvalue, sub_self, Int.toNat_zero, pow_zero, mul_one,
            one_mul, decide_eq_true_eq]
      unfold Decimal.abs at hmagnitude
      simp only at hmagnitude
      by_cases hsmall : digits < 10 ^ 28
      · rw [if_pos hsmall] at hmagnitude
        split at hmagnitude
        · cases hmagnitude
        · cases hmagnitude
          rw [hsign _ _ 0 rfl]
          exact ⟨fun _ => Or.inl hsmall, fun _ => Nat.mul_one digits⟩
      · rw [if_neg hsmall] at hmagnitude
        split at hmagnitude
        · cases hmagnitude
        · cases hmagnitude
          rw [hsign _ _ _ rfl, roundDigits_mul_eq_iff, Decimal.Fits]
          exact (or_iff_right hsmall).symm

/-! ## The elements of an entry -/

/-- What an element of `values` says: its start, its end and its value. -/
structure ElementRead (readers : Readers) (item : Json) (start stop : Instant)
    (quantity : Decimal) : Prop where
  start : (item.getItem "start_date" >>= fun text => text.instant readers) = .ok start
  stop : (item.getItem "end_date" >>= fun text => text.instant readers) = .ok stop
  value : (item.getItem "value" >>= fun text => readers.decimal text.str) = .ok quantity

theorem ElementRead.unique {readers : Readers} {item : Json} {start stop start' stop' : Instant}
    {quantity quantity' : Decimal} (h : ElementRead readers item start stop quantity)
    (h' : ElementRead readers item start' stop' quantity') :
    start = start' ∧ stop = stop' ∧ quantity = quantity' :=
  ⟨Except.ok.inj (h.start.symm.trans h'.start), Except.ok.inj (h.stop.symm.trans h'.stop),
    Except.ok.inj (h.value.symm.trans h'.value)⟩

/-- What a record or a violation says of its period. -/
def Fate.Says (zone : BiddingZone) (productionType : ProductionType) (start : Instant)
    (minutes : Int) (direction : Direction) (magnitude : Decimal) : Fate → Prop
  | .accepted record =>
      record.source = .rte ∧ record.zone = zone ∧ record.productionType = productionType ∧
        record.validTime = start ∧ record.resolutionMinutes = minutes ∧
        record.direction = direction ∧ record.quantityMw = magnitude
  | .refused violation =>
      violation.reason = "contract" ∧
        violation.payload.lookup "source" = some (.str "rte") ∧
        violation.payload.lookup "zone" = some (.str zone.value) ∧
        violation.payload.lookup "production_type" = some (.str productionType.value) ∧
        violation.payload.lookup "valid_time" = some (isoformat start.toDateTime) ∧
        violation.payload.lookup "resolution_minutes" = some (.int minutes) ∧
        violation.payload.lookup "direction" = some (.str direction.value) ∧
        violation.payload.lookup "quantity_mw" = some (.decimal magnitude)
  | .absent _ => False

/-- A fate says one thing. -/
theorem Fate.Says.unique {zone : BiddingZone} {productionType : ProductionType} {f : Fate}
    {start start' : Instant} {minutes minutes' : Int} {direction direction' : Direction}
    {magnitude magnitude' : Decimal}
    (h : f.Says zone productionType start minutes direction magnitude)
    (h' : f.Says zone productionType start' minutes' direction' magnitude') :
    start = start' ∧ minutes = minutes' ∧ direction = direction' ∧ magnitude = magnitude' := by
  cases f with
  | accepted record =>
      rcases h with ⟨-, -, -, hstart, hminutes, hdirection, hmagnitude⟩
      rcases h' with ⟨-, -, -, hstart', hminutes', hdirection', hmagnitude'⟩
      exact ⟨hstart.symm.trans hstart', hminutes.symm.trans hminutes',
        hdirection.symm.trans hdirection', hmagnitude.symm.trans hmagnitude'⟩
  | refused violation =>
      rcases h with ⟨-, -, -, -, hstart, hminutes, hdirection, hmagnitude⟩
      rcases h' with ⟨-, -, -, -, hstart', hminutes', hdirection', hmagnitude'⟩
      rw [hstart] at hstart'
      rw [hminutes] at hminutes'
      rw [hdirection] at hdirection'
      rw [hmagnitude] at hmagnitude'
      cases hminutes'
      cases hmagnitude'
      refine ⟨?_, rfl, ?_, rfl⟩
      · exact Instant.ext (Piece.isoformat.inj (Option.some.inj hstart')).1
      · exact Direction.value_injective (Piece.str.inj (Option.some.inj hdirection'))
  | absent gap => exact absurd h id

/-- A record or a violation of an RTE candidate says what the candidate said. -/
theorem says_built (zone : BiddingZone) (knownAt : DateTime) (productionType : ProductionType)
    (resolution : Int) (moment : Instant) (negative : Bool) (updated : Option Instant)
    (magnitude : Decimal) :
    (Fate.built (buildRecord (rteCandidate zone knownAt productionType resolution moment negative
      updated magnitude))).Says zone productionType moment (resolution / MINUTE)
        (directionOf negative) magnitude := by
  unfold buildRecord
  split
  · rename_i record hvalid
    rcases validate_ok hvalid with ⟨hsource, hzone, htype, hdirection, htime, -⟩
    exact ⟨Source.value_injective hsource, BiddingZone.value_injective hzone,
      ProductionType.value_injective htype, Instant.ext htime, (validate_rest hvalid).2.2.1,
      Direction.value_injective hdirection, (validate_quantity hvalid).1⟩
  · -- the quantity comes after the publisher's stamp, which may be absent
    exact ⟨rfl, rfl, rfl, rfl, rfl, rfl, rfl, by cases updated <;> rfl⟩

/-! ## One moment of the grid -/

section Moments

variable {readers : Readers} {zone : BiddingZone} {knownAt : DateTime}
  {productionType : ProductionType} {resolution : Int} {present : List (Instant × Json)}
  {result result' : GateResult} {items : List Json}

/-- What the normaliser makes of a moment: the fate of the value it finds
there, or a gap. -/
def MomentFate (readers : Readers) (zone : BiddingZone) (knownAt : DateTime)
    (productionType : ProductionType) (resolution : Int) (present : List (Instant × Json))
    (moment : Instant) (f : Fate) : Prop :=
  match lookupPresent present moment with
  | none => f = .absent ⟨zone.value, productionType.value, .generation, moment, 0⟩
  | some item => ∃ quantity negative updated magnitude,
      (item.getItem "value" >>= fun text => readers.decimal text.str) = .ok quantity ∧
        quantity.isNegative = .ok negative ∧ quantity.abs = .ok magnitude ∧
        f = .built (buildRecord
          (rteCandidate zone knownAt productionType resolution moment negative updated magnitude))

theorem normaliseMoment_append {moment : Instant}
    (h : normaliseMoment readers zone knownAt productionType resolution present result moment =
      .ok result') : ∃ f, MomentFate readers zone knownAt productionType resolution present moment f ∧
        result' = result.append [f] := by
  unfold normaliseMoment at h
  split at h
  · rename_i hnone
    cases h
    unfold MomentFate
    rw [hnone]
    refine ⟨_, rfl, ?_⟩
    simp [GateResult.append, Fate.record?, Fate.violation?, Fate.gap?]
  · rename_i item hitem
    rcases bind_eq_ok.mp h with ⟨text, htext, h⟩
    rcases bind_eq_ok.mp h with ⟨quantity, hquantity, h⟩
    rcases bind_eq_ok.mp h with ⟨negative, hnegative, h⟩
    rcases bind_eq_ok.mp h with ⟨_, -, h⟩
    rcases bind_eq_ok.mp h with ⟨updated, -, h⟩
    rcases bind_eq_ok.mp h with ⟨magnitude, hmagnitude, h⟩
    cases h
    unfold MomentFate
    rw [hitem]
    exact ⟨_, ⟨quantity, negative, updated, magnitude, bind_eq_ok.mpr ⟨text, htext, hquantity⟩,
      hnegative, hmagnitude, rfl⟩, add_eq_append _⟩

/-- The moments of a window, one fate each. -/
theorem normaliseMoments_append {moments : List Instant}
    (h : moments.foldlM (normaliseMoment readers zone knownAt productionType resolution present)
      result = .ok result') : ∃ fates,
        List.Forall₂ (MomentFate readers zone knownAt productionType resolution present)
          moments fates ∧ result' = result.append fates := by
  induction moments generalizing result with
  | nil =>
      cases h
      exact ⟨[], List.Forall₂.nil, append_nil.symm⟩
  | cons moment moments ih =>
      rw [List.foldlM_cons] at h
      rcases bind_eq_ok.mp h with ⟨next, hnext, h⟩
      rcases normaliseMoment_append hnext with ⟨f, hf, rfl⟩
      rcases ih h with ⟨fates, hfates, rfl⟩
      exact ⟨f :: fates, List.Forall₂.cons hf hfates, append_append [f] fates⟩

end Moments

/-! ## The account of an entry -/

/-- A moment of the grid: some spans after the start, before the end. -/
def OnGrid (start stop : Instant) (span : Int) (u : Instant) : Prop :=
  (∃ i : Nat, u.micros = start.micros + i * span) ∧ u.micros < stop.micros

/-- The record or violation says what the element says. -/
def Tells (readers : Readers) (zone : BiddingZone) (productionType : ProductionType) (item : Json)
    (f : Fate) : Prop :=
  ∃ start stop quantity minutes direction magnitude,
    ElementRead readers item start stop quantity ∧
      f.Says zone productionType start minutes direction magnitude ∧
      minutes * MINUTE = stop.micros - start.micros ∧
      (magnitude.signed direction).equals quantity = true

/-- What the entry adds to the result: a record or a violation for each
element, a gap for each moment of the grid without one, and nothing else. -/
def AccountedFor (readers : Readers) (zone : BiddingZone) (productionType : ProductionType)
    (items : List Json) (start stop : Instant) (span : Int) (before after : GateResult) : Prop :=
  ∃ fates told, after = before.append fates ∧
    List.Forall₂ (Tells readers zone productionType) items told ∧
    told.Perm (fates.filter fun f => f.gap?.isNone) ∧
    ((fates.filterMap Fate.gap?).map Gap.validTime).Nodup ∧
    (∀ u, u ∈ (fates.filterMap Fate.gap?).map Gap.validTime ↔ OnGrid start stop span u ∧
      ∀ item ∈ items, (item.getItem "start_date" >>= fun text => text.instant readers) ≠ .ok u) ∧
    ∀ gap ∈ fates.filterMap Fate.gap?,
      gap.zone = zone.value ∧ gap.productionType = productionType.value

/-- Spans of whole minutes, starts that differ and lie on the grid, and values
the context has digits enough for. -/
structure Regular (readers : Readers) (items : List Json) (start stop : Instant) (span : Int) :
    Prop where
  wholeMinutes : span % MINUTE = 0
  distinct : ∀ present, presentOf readers items = .ok present → (present.map Prod.fst).Nodup
  onGrid : ∀ present, presentOf readers items = .ok present →
    ∀ p ∈ present, OnGrid start stop span p.1
  fits : ∀ item ∈ items, ∀ quantity,
    (item.getItem "value" >>= fun text => readers.decimal text.str) = .ok quantity → quantity.Fits

section Account

variable {readers : Readers} {zone : BiddingZone} {knownAt : DateTime}
  {productionType : ProductionType} {items : List Json} {present : List (Instant × Json)}
  {start stop : Instant} {span : Int} {moments : List Instant} {fates : List Fate}

theorem presentOf_ok (h : presentOf readers items = .ok present) : present.map Prod.snd = items ∧
    ∀ p ∈ present, (p.2.getItem "start_date" >>= fun text => text.instant readers) = .ok p.1 := by
  have hpairs := mapM_eq_ok.mp h
  clear h
  induction hpairs with
  | nil => exact ⟨rfl, fun p hp => absurd hp List.not_mem_nil⟩
  | @cons item p items present hp _ ih =>
      rcases bind_eq_ok.mp hp with ⟨text, htext, hp⟩
      rcases bind_eq_ok.mp hp with ⟨u, hu, heq⟩
      cases heq
      refine ⟨by rw [List.map_cons, ih.1], fun q hq => ?_⟩
      rcases List.mem_cons.mp hq with rfl | hq
      · exact bind_eq_ok.mpr ⟨text, htext, hu⟩
      · exact ih.2 q hq

theorem spanOf_ok {item : Json} (h : spanOf readers item = .ok (some span)) : ∃ start stop,
    (item.getItem "start_date" >>= fun text => text.instant readers) = .ok start ∧
      (item.getItem "end_date" >>= fun text => text.instant readers) = .ok stop ∧
      stop.micros - start.micros = span := by
  unfold spanOf at h
  rcases bind_eq_ok.mp h with ⟨carries, -, h⟩
  split at h
  · rcases bind_eq_ok.mp h with ⟨stopText, hstopText, h⟩
    rcases bind_eq_ok.mp h with ⟨stop, hstop, h⟩
    rcases bind_eq_ok.mp h with ⟨startText, hstartText, h⟩
    rcases bind_eq_ok.mp h with ⟨start, hstart, h⟩
    cases h
    exact ⟨start, stop, bind_eq_ok.mpr ⟨startText, hstartText, hstart⟩,
      bind_eq_ok.mpr ⟨stopText, hstopText, hstop⟩, rfl⟩
  · cases h

/-- The moments the normaliser walks are those of the grid. -/
theorem mem_expected (h : expected start stop span = .ok moments) (hpos : 0 < span) (u : Instant) :
    u ∈ moments ↔ OnGrid start stop span u := by
  unfold expected at h
  split at h
  · rename_i hend
    cases h
    constructor
    · intro hu
      cases hu
    · rintro ⟨⟨i, hi⟩, hlt⟩
      have hle : 0 ≤ (i : Int) * span := Int.mul_nonneg (Int.natCast_nonneg i) hpos.le
      omega
  · rw [if_neg hpos.ne', if_neg (not_lt.mpr hpos.le)] at h
    rcases bind_eq_ok.mp h with ⟨all, hall, heq⟩
    cases heq
    generalize hcount : ((stop.micros - start.micros + span - 1) / span).toNat = count at hall
    have hmicros : all.dropLast.map Instant.micros =
        (List.range count).map fun i : Nat => start.micros + i * span := by
      rw [List.map_dropLast, micros_moments (mapM_eq_ok.mp hall), ← List.map_dropLast,
        List.range_succ, List.dropLast_concat]
    have hbelow : ∀ i : Nat, i < count ↔ start.micros + i * span < stop.micros := by
      intro i
      have hdiv := @Int.le_ediv_iff_mul_le (i + 1) (stop.micros - start.micros + span - 1) span hpos
      rw [Int.add_mul, Int.one_mul] at hdiv
      omega
    constructor
    · intro hu
      have hmem : u.micros ∈ all.dropLast.map Instant.micros := List.mem_map_of_mem hu
      rw [hmicros] at hmem
      rcases List.mem_map.mp hmem with ⟨i, hi, heq⟩
      exact ⟨⟨i, heq.symm⟩, by rw [← heq]; exact (hbelow i).mp (List.mem_range.mp hi)⟩
    · rintro ⟨⟨i, hi⟩, hlt⟩
      have hmem : u.micros ∈ all.dropLast.map Instant.micros := by
        rw [hmicros, hi]
        exact List.mem_map.mpr ⟨i, List.mem_range.mpr ((hbelow i).mpr (hi ▸ hlt)), rfl⟩
      rcases List.mem_map.mp hmem with ⟨v, hv, heq⟩
      rw [← Instant.ext heq]
      exact hv

theorem lookupPresent_eq_none {u : Instant} :
    lookupPresent present u = none ↔ ∀ p ∈ present, p.1 ≠ u := by
  unfold lookupPresent
  rw [Option.map_eq_none_iff, List.find?_eq_none]
  simp

/-- A start that comes once is looked up to its own value. -/
theorem lookupPresent_of_mem (hdistinct : (present.map Prod.fst).Nodup) {p : Instant × Json}
    (hp : p ∈ present) : lookupPresent present p.1 = some p.2 := by
  unfold lookupPresent
  have hfind : present.reverse.find? (fun q => q.1 = p.1) = some p := by
    rw [← List.mem_reverse] at hp
    have hnodup : (present.reverse.map Prod.fst).Nodup := by
      rw [List.map_reverse]
      exact List.nodup_reverse.mpr hdistinct
    generalize present.reverse = l at hp hnodup
    induction l with
    | nil => cases hp
    | cons q l ih =>
        rw [List.map_cons, List.nodup_cons] at hnodup
        rcases List.mem_cons.mp hp with rfl | hp
        · exact List.find?_cons_of_pos (by simp)
        · have hne : q.1 ≠ p.1 := fun heq => hnodup.1 (heq ▸ List.mem_map_of_mem hp)
          rw [List.find?_cons_of_neg (by simpa using hne)]
          exact ih hp hnodup.2
  rw [hfind]
  rfl

/-- The gaps are the moments without a value. -/
theorem gaps_moments
    (hfates : List.Forall₂ (MomentFate readers zone knownAt productionType span present) moments fates) :
    (fates.filterMap Fate.gap?).map Gap.validTime =
      moments.filter (fun u => (lookupPresent present u).isNone) ∧
    ∀ gap ∈ fates.filterMap Fate.gap?,
      gap.zone = zone.value ∧ gap.productionType = productionType.value := by
  induction hfates with
  | nil => exact ⟨rfl, fun gap hgap => absurd hgap List.not_mem_nil⟩
  | @cons u f moments fates hf _ ih =>
      unfold MomentFate at hf
      split at hf
      · rename_i hnone
        rw [hf]
        refine ⟨?_, ?_⟩
        · rw [List.filter_cons_of_pos (by rw [hnone]; rfl), ← ih.1]
          rfl
        · intro gap hgap
          have hgap : gap ∈ _ :: fates.filterMap Fate.gap? := hgap
          rcases List.mem_cons.mp hgap with rfl | hgap
          · exact ⟨rfl, rfl⟩
          · exact ih.2 gap hgap
      · rename_i item hitem
        rcases hf with ⟨_, _, _, _, -, -, -, rfl⟩
        rw [List.filterMap_cons_none (gap?_built _),
          List.filter_cons_of_neg (by rw [hitem]; simp)]
        exact ih

/-- The records and violations are those of the moments with a value. -/
theorem built_moments
    (hfates : List.Forall₂ (MomentFate readers zone knownAt productionType span present) moments fates) :
    List.Forall₂ (MomentFate readers zone knownAt productionType span present)
      (moments.filter fun u => (lookupPresent present u).isSome)
      (fates.filter fun f => f.gap?.isNone) := by
  induction hfates with
  | nil => exact List.Forall₂.nil
  | @cons u f moments fates hf _ ih =>
      have hkept := hf
      unfold MomentFate at hf
      split at hf
      · rename_i hnone
        rw [List.filter_cons_of_neg (by rw [hnone]; simp), hf,
          List.filter_cons_of_neg (by simp [Fate.gap?])]
        exact ih
      · rename_i item hitem
        rcases hf with ⟨_, _, _, _, -, -, -, hf⟩
        rw [List.filter_cons_of_pos (by rw [hitem]; rfl),
          List.filter_cons_of_pos (by rw [hf, gap?_built]; rfl)]
        exact List.Forall₂.cons hkept ih

/-- The fate of a moment that is the start of an element tells of the element. -/
theorem tells_of_moment {p : Instant × Json} {f : Fate} (hminutes : span % MINUTE = 0)
    (hstart : (p.2.getItem "start_date" >>= fun text => text.instant readers) = .ok p.1)
    (hspan : spanOf readers p.2 = .ok (some span))
    (hfits : ∀ quantity, (p.2.getItem "value" >>= fun text => readers.decimal text.str) =
      .ok quantity → quantity.Fits)
    (hlookup : lookupPresent present p.1 = some p.2)
    (hf : MomentFate readers zone knownAt productionType span present p.1 f) :
    Tells readers zone productionType p.2 f := by
  unfold MomentFate at hf
  rw [hlookup] at hf
  rcases hf with ⟨quantity, negative, updated, magnitude, hquantity, hnegative, hmagnitude, rfl⟩
  rcases spanOf_ok hspan with ⟨start, stop, hstart', hstop, hlength⟩
  rw [hstart] at hstart'
  cases hstart'
  refine ⟨p.1, stop, quantity, span / MINUTE, directionOf negative, magnitude,
    ⟨hstart, hstop, hquantity⟩, says_built .., ?_,
    (signed_equals_iff hnegative hmagnitude).mpr (hfits quantity hquantity)⟩
  rw [hlength]
  exact Int.ediv_mul_cancel_of_emod_eq_zero hminutes

/-- The fates of a regular entry account for it. -/
theorem accountedFor_of_regular {before : GateResult}
    (hpresent : presentOf readers items = .ok present)
    (hspan : ∀ item ∈ items, spanOf readers item = .ok (some span))
    (hgrid : ∀ u, u ∈ moments ↔ OnGrid start stop span u) (hnodup : moments.Nodup)
    (hfates : List.Forall₂ (MomentFate readers zone knownAt productionType span present) moments fates)
    (hregular : Regular readers items start stop span) :
    AccountedFor readers zone productionType items start stop span before (before.append fates) := by
  rcases presentOf_ok hpresent with ⟨hitems, hstarts⟩
  have hdistinct := hregular.distinct present hpresent
  -- each start is one of the moments with a value, and the other way round
  have hperm : (present.map Prod.fst).Perm
      (moments.filter fun u => (lookupPresent present u).isSome) := by
    refine (List.perm_ext_iff_of_nodup hdistinct (hnodup.filter _)).mpr fun u => ?_
    rw [List.mem_filter, hgrid, List.mem_map]
    constructor
    · rintro ⟨p, hp, rfl⟩
      exact ⟨hregular.onGrid present hpresent p hp, by rw [lookupPresent_of_mem hdistinct hp]; rfl⟩
    · rintro ⟨-, hsome⟩
      by_contra hnone
      have hlookup : lookupPresent present u = none :=
        lookupPresent_eq_none.mpr fun p hp heq => hnone ⟨p, hp, heq⟩
      rw [hlookup] at hsome
      cases hsome
  rcases List.perm_comp_forall₂ hperm (built_moments hfates) with ⟨told, htold, hsame⟩
  rcases gaps_moments hfates with ⟨hgaps, hnamed⟩
  refine ⟨fates, told, rfl, ?_, hsame, ?_, fun u => ?_, hnamed⟩
  · rw [← hitems, List.forall₂_map_left_iff]
    rw [List.forall₂_map_left_iff] at htold
    refine ((List.forall₂_and_left _ _).mpr ⟨fun p hp => hp, htold⟩).imp fun p f hboth => ?_
    have hitem : p.2 ∈ items := hitems ▸ List.mem_map_of_mem hboth.1
    exact tells_of_moment hregular.wholeMinutes (hstarts p hboth.1) (hspan _ hitem)
      (hregular.fits _ hitem) (lookupPresent_of_mem hdistinct hboth.1) hboth.2
  · rw [hgaps]
    exact hnodup.filter _
  · rw [hgaps, List.mem_filter, hgrid, Option.isNone_iff_eq_none, lookupPresent_eq_none]
    refine and_congr_right fun _ => ?_
    rw [← hitems]
    constructor
    · intro hnone item hitem
      rcases List.mem_map.mp hitem with ⟨p, hp, rfl⟩
      rw [hstarts p hp]
      exact fun heq => hnone p hp (Except.ok.inj heq)
    · intro hnone p hp heq
      exact hnone p.2 (List.mem_map_of_mem hp) (by rw [hstarts p hp, heq])

/-- The fates of a result, but for their order among the three lists. -/
theorem perm_built (fates : List Fate) : (fates.filter fun f => f.gap?.isNone).Perm
    ((fates.filterMap Fate.record?).map Fate.accepted ++
      (fates.filterMap Fate.violation?).map Fate.refused) := by
  induction fates with
  | nil => exact List.Perm.nil
  | cons f fates ih =>
      cases f with
      | accepted record => exact ih.cons _
      | refused violation => exact (ih.cons _).trans List.perm_middle.symm
      | absent gap => exact ih

/-- What has items is true. -/
theorem truthy_of_items {values : Json} (h : values.items = .ok items) (hitems : items ≠ []) :
    values.truthy = true := by
  cases values with
  | array str l =>
      cases h
      cases items with
      | nil => exact absurd rfl hitems
      | cons item items => rfl
  | object str fields =>
      cases h
      cases fields with
      | nil => exact absurd rfl hitems
      | cons field fields => rfl
  | string value =>
      cases h
      refine decide_eq_true fun hempty => hitems ?_
      rw [hempty]
      rfl
  | null => cases h
  | bool value => cases h
  | number str zero => cases h

theorem dedup_spans {spans : List (Option Int)} (hitems : items ≠ [])
    (hspan : ∀ item ∈ items, spanOf readers item = .ok (some span))
    (h : items.mapM (spanOf readers) = .ok spans) : (spans.filterMap id).dedup = [span] := by
  have hall : spans = List.replicate items.length (some span) := by
    have hpairs := (List.forall₂_and_left _ _).mpr ⟨hspan, mapM_eq_ok.mp h⟩
    clear h hspan hitems
    induction hpairs with
    | nil => rfl
    | cons hone _ ih =>
        rw [ih, Except.ok.inj (hone.2.symm.trans hone.1)]
        rfl
  rw [hall, List.filterMap_replicate_of_some (f := id) rfl]
  exact List.replicate_dedup (mt List.length_eq_zero_iff.mp hitems)

/-- What tells of an element and comes from a moment has its start there. -/
theorem moment_of_tells {item : Json} {f : Fate} {u : Instant}
    (hspan : spanOf readers item = .ok (some span))
    (htells : Tells readers zone productionType item f)
    (hf : MomentFate readers zone knownAt productionType span present u f)
    (hsome : (lookupPresent present u).isSome) :
    (item.getItem "start_date" >>= fun text => text.instant readers) = .ok u ∧
      span % MINUTE = 0 ∧ (lookupPresent present u = some item → ∀ quantity,
        (item.getItem "value" >>= fun text => readers.decimal text.str) = .ok quantity →
          quantity.Fits) := by
  rcases htells with ⟨start, stop, quantity, minutes, direction, magnitude, hread, hsays, hminutes,
    hequals⟩
  rcases Option.isSome_iff_exists.mp hsome with ⟨found, hfound⟩
  unfold MomentFate at hf
  rw [hfound] at hf
  rcases hf with ⟨quantity', negative, updated, magnitude', hquantity', hnegative, hmagnitude, rfl⟩
  rcases hsays.unique (says_built ..) with ⟨rfl, rfl, rfl, rfl⟩
  rcases spanOf_ok hspan with ⟨start', stop', hstart', hstop', hlength⟩
  have hstart := Except.ok.inj (hread.start.symm.trans hstart')
  have hstop := Except.ok.inj (hread.stop.symm.trans hstop')
  refine ⟨hread.start, ?_, fun hsame quantity'' hquantity'' => ?_⟩
  · rw [hstart, hstop, hlength] at hminutes
    exact Int.emod_eq_zero_of_dvd ⟨span / MINUTE, by rw [mul_comm]; exact hminutes.symm⟩
  · rw [hfound] at hsame
    cases hsame
    have hvalue := Except.ok.inj (hquantity'.symm.trans hread.value)
    rw [← Except.ok.inj (hquantity'.symm.trans hquantity'')]
    rw [← hvalue] at hequals
    exact (signed_equals_iff hnegative hmagnitude).mp hequals

/-- An entry that is accounted for is regular. -/
theorem regular_of_accountedFor {before : GateResult} (hitems : items ≠ [])
    (hspan : ∀ item ∈ items, spanOf readers item = .ok (some span))
    (hgrid : ∀ u, u ∈ moments ↔ OnGrid start stop span u) (hnodup : moments.Nodup)
    (hfates : List.Forall₂ (MomentFate readers zone knownAt productionType span present) moments fates)
    (hpresent : presentOf readers items = .ok present)
    (haccount : AccountedFor readers zone productionType items start stop span before
      (before.append fates)) : Regular readers items start stop span := by
  rcases haccount with ⟨fates', told, heq, htold, hperm, -⟩
  rcases presentOf_ok hpresent with ⟨hsnd, hstarts⟩
  -- the account is of the same records and violations
  have hsame : told.Perm (fates.filter fun f => f.gap?.isNone) := by
    have hrecords := List.append_cancel_left (congrArg GateResult.records heq)
    have hviolations := List.append_cancel_left (congrArg GateResult.violations heq)
    have hbuilt := perm_built fates'
    rw [← hrecords, ← hviolations] at hbuilt
    exact (hperm.trans hbuilt).trans (perm_built fates).symm
  rcases List.perm_comp_forall₂ hsame (built_moments hfates).flip with ⟨us, hus, husPerm⟩
  have hmem : ∀ u ∈ us, u ∈ moments ∧ (lookupPresent present u).isSome := fun u hu => by
    simpa using List.mem_filter.mp (husPerm.mem_iff.mp hu)
  -- each start is a moment, and the fate of that moment tells of its element
  have hpairs : List.Forall₂ (fun p u => p.1 = u ∧ p ∈ present ∧ ∃ f,
      Tells readers zone productionType p.2 f ∧ (lookupPresent present u).isSome ∧
        MomentFate readers zone knownAt productionType span present u f) present us := by
    rw [← hsnd, List.forall₂_map_left_iff] at htold
    have hleft := (List.forall₂_and_left _ _).mpr ⟨fun p hp => hp, htold⟩
    have hright := ((List.forall₂_and_left _ _).mpr ⟨hmem, hus.flip⟩).flip
    refine (forall₂_comp hleft hright).imp ?_
    rintro p u ⟨f, ⟨hp, htells⟩, ⟨-, hsome⟩, hf⟩
    have hstart := (moment_of_tells (hspan p.2 (hsnd ▸ List.mem_map_of_mem hp)) htells hf hsome).1
    exact ⟨Except.ok.inj ((hstarts p hp).symm.trans hstart), hp, f, htells, hsome, hf⟩
  have hfirst : present.map Prod.fst = us := by
    rw [← List.forall₂_eq_eq_eq, List.forall₂_map_left_iff]
    exact hpairs.imp fun _ _ h => h.1
  have hdistinct : (present.map Prod.fst).Nodup :=
    hfirst ▸ husPerm.nodup_iff.mpr (hnodup.filter _)
  have hof : ∀ p ∈ present, span % MINUTE = 0 ∧ ∀ quantity,
      (p.2.getItem "value" >>= fun text => readers.decimal text.str) = .ok quantity →
        quantity.Fits := by
    intro p hp
    rcases exists_of_mem_left hpairs hp with ⟨_, -, rfl, -, f, htells, hsome, hf⟩
    rcases moment_of_tells (hspan p.2 (hsnd ▸ List.mem_map_of_mem hp)) htells hf hsome
      with ⟨-, hminutes, hfits⟩
    exact ⟨hminutes, hfits (lookupPresent_of_mem hdistinct hp)⟩
  have hof : ∀ item ∈ items, span % MINUTE = 0 ∧ ∀ quantity,
      (item.getItem "value" >>= fun text => readers.decimal text.str) = .ok quantity →
        quantity.Fits := by
    intro item hitem
    rw [← hsnd] at hitem
    rcases List.mem_map.mp hitem with ⟨p, hp, rfl⟩
    exact hof p hp
  rcases List.exists_mem_of_ne_nil items hitems with ⟨item, hitem⟩
  refine ⟨(hof item hitem).1, ?_, ?_, fun item hitem => (hof item hitem).2⟩
  · intro present' hpresent'
    rw [← Except.ok.inj (hpresent.symm.trans hpresent')]
    exact hdistinct
  · intro present' hpresent' p hp
    rw [← Except.ok.inj (hpresent.symm.trans hpresent')] at hp
    exact (hgrid p.1).mp (hmem p.1 (hfirst ▸ List.mem_map_of_mem hp)).1

/-- An entry is accounted for exactly where it is regular. -/
theorem accountedFor_iff {before : GateResult} (hitems : items ≠ [])
    (hspan : ∀ item ∈ items, spanOf readers item = .ok (some span)) (hpos : 0 < span)
    (hpresent : presentOf readers items = .ok present)
    (hmoments : expected start stop span = .ok moments)
    (hfates : List.Forall₂ (MomentFate readers zone knownAt productionType span present) moments fates) :
    AccountedFor readers zone productionType items start stop span before (before.append fates) ↔
      Regular readers items start stop span := by
  have hgrid := mem_expected hmoments hpos
  have hnodup := nodup_expected hmoments
  exact ⟨regular_of_accountedFor hitems hspan hgrid hnodup hfates hpresent,
    accountedFor_of_regular hpresent hspan hgrid hnodup hfates⟩

/-- The way of the normaliser through an entry whose values share one span. -/
theorem normaliseOther_walks {entry values : Json} {raw : String} {before after : GateResult}
    (htotal : isTotal entry = .ok false) (hraw : rawType entry = .ok raw)
    (htype : PRODUCTION_TYPES.lookup raw = some productionType)
    (hvalues : entry.get "values" = .ok (some values)) (hlist : values.items = .ok items)
    (hitems : items ≠ []) (hspan : ∀ item ∈ items, spanOf readers item = .ok (some span))
    (h : normaliseOther readers zone knownAt before entry = .ok after) :
    ∃ start stop present moments fates,
      (entry.getItem "start_date" >>= fun text => text.instant readers) = .ok start ∧
        (entry.getItem "end_date" >>= fun text => text.instant readers) = .ok stop ∧
        presentOf readers items = .ok present ∧ expected start stop span = .ok moments ∧
        List.Forall₂ (MomentFate readers zone knownAt productionType span present) moments fates ∧
        after = before.append fates := by
  unfold normaliseOther at h
  rw [htotal] at h
  have h : normaliseEntry readers zone knownAt before entry = .ok after := h
  unfold normaliseEntry at h
  rw [hraw, ok_bind, htype] at h
  simp only at h
  rw [hvalues, ok_bind] at h
  simp only at h
  rw [if_pos (truthy_of_items hlist hitems)] at h
  unfold normaliseValues at h
  rw [hlist, ok_bind] at h
  rcases bind_eq_ok.mp h with ⟨spans, hspans, h⟩
  rw [dedup_spans hitems hspan hspans] at h
  simp only at h
  rcases bind_eq_ok.mp h with ⟨present, hpresent, h⟩
  rcases bind_eq_ok.mp h with ⟨startText, hstartText, h⟩
  rcases bind_eq_ok.mp h with ⟨start, hstart, h⟩
  rcases bind_eq_ok.mp h with ⟨stopText, hstopText, h⟩
  rcases bind_eq_ok.mp h with ⟨stop, hstop, h⟩
  rcases bind_eq_ok.mp h with ⟨moments, hmoments, h⟩
  rcases normaliseMoments_append h with ⟨fates, hfates, rfl⟩
  exact ⟨start, stop, present, moments, fates, bind_eq_ok.mpr ⟨startText, hstartText, hstart⟩,
    bind_eq_ok.mpr ⟨stopText, hstopText, hstop⟩, hpresent, hmoments, hfates, rfl⟩

end Account

/-- The value of an hour. -/
def hourValue (text : String) : Json :=
  .dictOf [("start_date", .string "2026-08-26T12:00Z"), ("end_date", .string "2026-08-26T13:00Z"),
    ("value", .number text false)]

/-- An entry of one hour. -/
def hourEntry (productionType : String) (items : List Json) : Json :=
  .dictOf [("production_type", .string productionType),
    ("start_date", .string "2026-08-26T12:00Z"), ("end_date", .string "2026-08-26T13:00Z"),
    ("values", .listOf items)]

/-- The payload of one entry. -/
def payloadOf (entry : Json) : Json := .dictOf [(RESOURCE, .listOf [entry])]

def nuclearHour : Json := hourEntry "NUCLEAR" [hourValue "50"]

/-- A storage that generates, and pumps in the same hour. -/
def doubledHour : Json := hourEntry "HYDRO_PUMPED_STORAGE" [hourValue "50", hourValue "-100"]

end Gridlens
