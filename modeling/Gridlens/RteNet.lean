import Gridlens.Compression
import Gridlens.RteParse
import Gridlens.Sql.Totals

/-!
# Net generation of a revised payload

RTE publishes one signed value for each period of a type; the normaliser makes
its sign the direction of a record, the direction is part of the key, and
`period_generation_net` puts the two directions together again. A revision
that changes the sign lands under the other key, and nothing supersedes the
version it replaces: `rte_net_iff` says when the net is the newest value all
the same, and `pumping_still_netted` is the case where it is not.
-/

namespace Gridlens

open Sql Bitemporal

/-! ## The net power of a period -/

/-- A period of a production type in a zone. -/
structure TypePeriod where
  zone : String
  productionType : String
  validTime : Int
deriving DecidableEq, Repr

def Row.typePeriod (r : Row) : TypePeriod := ⟨r.zone, r.productionType, r.validTime⟩

def NetKey.typePeriod (k : NetKey) : TypePeriod := ⟨k.zone, k.productionType, k.validTime⟩

/-- The rows `period_generation_net` has of a period. -/
def nets (T : List Row) (p : TypePeriod) : List NetRow :=
  (periodGenerationNet (generationCurrent (versions T))).filter fun n => n.key.typePeriod = p

/-- `net_mw` of the period is this value. -/
def NetIs (T : List Row) (p : TypePeriod) (value : Int) : Prop :=
  nets T p ≠ [] ∧ ∀ n ∈ nets T p, n.netMw = some value

/-- What gold reads of a row. -/
def Row.read (r : Row) : Version := Version.ofContent (stgRow r)

section Net

variable {T : List Row} {p : TypePeriod} {V : List Version}

/-- A period is netted over the newest rows of its keys. -/
theorem nets_perm (hT : Identified T) (p : TypePeriod) :
    (nets T p).Perm
      (periodGenerationNet ((partition Row.typePeriod p (newestRows T)).map Row.read)) := by
  have hcut : (nets T p).Perm (periodGenerationNet ((generationCurrent (versions T)).filter
      fun v => v.netKey.typePeriod = p)) := by
    unfold nets periodGenerationNet
    rw [List.filter_map]
    exact (groupBy_filter_perm (fun k : NetKey => k.typePeriod = p) _).symm.map _
  refine hcut.trans (periodGenerationNet_congr ?_)
  have hrows := ((map_row_current_perm hT).filter fun r : StgRow => r.typePeriod = p).map
    StgRow.content
  rw [List.filter_map, List.filter_map, List.map_map, List.map_map] at hrows
  rw [List.map_map]
  exact hrows

theorem periodGenerationNet_eq_nil_iff : periodGenerationNet V = [] ↔ V = [] := by
  unfold periodGenerationNet
  rw [List.map_eq_nil_iff, groupBy_eq_nil_iff]

theorem forall_net_iff {P : Option Int → Prop} :
    (∀ n ∈ periodGenerationNet V, P n.netMw) ↔
      ∀ v ∈ V, P (Sql.sum ((partition Version.netKey v.netKey V).map Version.signedMw)) := by
  unfold periodGenerationNet
  constructor
  · intro h v hv
    exact h ⟨v.netKey, _⟩ (List.mem_map.mpr ⟨(v.netKey, _), mem_groupBy.mpr ⟨⟨v, hv, rfl⟩, rfl⟩, rfl⟩)
  · intro h n hn
    obtain ⟨g, hg, rfl⟩ := List.mem_map.mp hn
    obtain ⟨⟨v, hv, hkey⟩, hagg⟩ := mem_groupBy.mp hg
    have hv' := h v hv
    rw [hkey, ← hagg] at hv'
    exact hv'

theorem netIs_iff (hT : Identified T) {rows : List Row} {value : Int}
    (h : (partition Row.typePeriod p (newestRows T)).Perm rows) :
    NetIs T p value ↔ rows ≠ [] ∧ ∀ r ∈ rows,
      Sql.sum ((partition (fun r => r.read.netKey) r.read.netKey rows).map
        fun r => r.read.signedMw) = some value := by
  have hnets := (nets_perm hT p).trans (periodGenerationNet_perm (h.map Row.read))
  have hempty : nets T p ≠ [] ↔ rows ≠ [] := by
    have hnil : periodGenerationNet (rows.map Row.read) = [] ↔ rows = [] := by
      rw [periodGenerationNet_eq_nil_iff, List.map_eq_nil_iff]
    rw [← List.length_pos_iff, hnets.length_eq, List.length_pos_iff, Ne, hnil]
  have hall : (∀ n ∈ nets T p, n.netMw = some value) ↔
      ∀ n ∈ periodGenerationNet (rows.map Row.read), n.netMw = some value := by
    simp only [hnets.mem_iff]
  rw [NetIs, hempty, hall, forall_net_iff (P := fun n => n = some value), List.forall_mem_map]
  simp only [partition, List.filter_map, List.map_map]
  exact Iff.rfl

end Net

/-! ## The two directions of a period -/

def Direction.opposite : Direction → Direction
  | .generation => .consumption
  | .consumption => .generation

/-- A quantity, counted the way its direction counts. -/
def Direction.signed : Direction → Int → Int
  | .generation, quantity => quantity
  | .consumption, quantity => -quantity

/-- The key of RTE's rows of a period, in a direction. -/
def TypePeriod.key (p : TypePeriod) (d : Direction) : SeriesKey :=
  ⟨"rte", p.zone, p.productionType, d.value, p.validTime⟩

/-- Every row is one of RTE's. -/
def FromRte (T : List Row) : Prop :=
  ∀ r ∈ T, r.source = "rte" ∧ (∃ d : Direction, r.direction = d.value) ∧ 0 ≤ r.quantityMw

section Directions

variable {T : List Row} {p : TypePeriod} {d : Direction} {r v w : Row}

theorem Row.typePeriod_of_key (h : r.key = p.key d) : r.typePeriod = p := by
  simp only [Row.key, TypePeriod.key, SeriesKey.mk.injEq] at h
  simp only [Row.typePeriod, h]

theorem Row.direction_of_key (h : r.key = p.key d) : r.direction = d.value :=
  congrArg SeriesKey.direction h

theorem Row.key_of_typePeriod (hsource : r.source = "rte") (hd : r.direction = d.value)
    (h : r.typePeriod = p) : r.key = p.key d := by
  rw [← h, Row.key, TypePeriod.key, hsource, hd]
  rfl

/-- Gold counts the quantity of a row the way its direction does. -/
theorem Row.signedMw_read (h : r.direction = d.value) :
    r.read.signedMw = some (d.signed r.quantityMw) := by
  have hread : r.read.signedMw = if r.direction = "generation" then some r.quantityMw
      else if r.direction = "consumption" then some (-r.quantityMw) else none := rfl
  rw [hread, h]
  cases d <;> simp [Direction.value, Direction.signed]

/-- Within a period gold tells rows apart by their resolution. -/
theorem Row.netKey_read_iff (h : r.typePeriod = v.typePeriod) :
    r.read.netKey = v.read.netKey ↔ r.resolutionMinutes = v.resolutionMinutes := by
  simp only [Row.typePeriod, TypePeriod.mk.injEq] at h
  obtain ⟨hzone, htype, htime⟩ := h
  have hkey : ∀ s : Row, s.read.netKey = ⟨s.zone, s.validTime, parisDate s.validTime,
      s.productionType, s.productionType = "B10" ∨ s.productionType = "B25",
      s.resolutionMinutes⟩ := fun _ => rfl
  simp only [hkey, hzone, htype, htime, NetKey.mk.injEq, true_and]

/-- A period of RTE's has a newest row in each direction at most. -/
theorem partition_newest_perm (hT : Identified T) (hrte : FromRte T) (p : TypePeriod)
    (d : Direction) : (partition Row.typePeriod p (newestRows T)).Perm
      ((newestHeld T (p.key d)).toList ++ (newestHeld T (p.key d.opposite)).toList) := by
  have hopposite : p.key d ≠ p.key d.opposite := by
    intro h
    have hsame : d = d.opposite := Direction.value_injective (congrArg SeriesKey.direction h)
    cases d <;> cases hsame
  have hkey : ∀ {k : SeriesKey} {s : Row}, newestHeld T k = some s → s.key = k := fun h =>
    ((newestHeld_eq_some_iff hT).mp h).1.2
  have hnodup : (partition Row.typePeriod p (newestRows T)).Nodup :=
    ((List.Nodup.of_map _ hT).filter _).filter _
  have hone : ∀ o : Option Row, o.toList.Nodup := fun o => by cases o <;> simp
  refine (List.perm_ext_iff_of_nodup hnodup ?_).mpr fun s => ?_
  · rw [List.nodup_append]
    refine ⟨hone _, hone _, ?_⟩
    intro a ha b hb hab
    rw [Option.mem_toList] at ha hb
    apply hopposite
    rw [← hkey ha, ← hkey hb, hab]
  · rw [mem_partition, mem_newestRows hT, List.mem_append, Option.mem_toList, Option.mem_toList]
    constructor
    · intro ⟨hnewest, hperiod⟩
      obtain ⟨hsource, ⟨d', hd'⟩, -⟩ := hrte s ((newestHeld_eq_some_iff hT).mp hnewest).1.1
      rw [Row.key_of_typePeriod hsource hd' hperiod] at hnewest
      have hcases : d' = d ∨ d' = d.opposite := by
        cases d <;> cases d' <;> simp [Direction.opposite]
      rcases hcases with rfl | rfl
      · exact Or.inl hnewest
      · exact Or.inr hnewest
    · intro h
      have hboth : ∀ {e : Direction}, newestHeld T (p.key e) = some s →
          newestHeld T s.key = some s ∧ s.typePeriod = p := by
        intro e he
        have hk := hkey he
        exact ⟨hk ▸ he, Row.typePeriod_of_key hk⟩
      rcases h with h | h
      · exact hboth h
      · exact hboth h

/-- Two rows of a period are one group where their resolutions agree. -/
theorem netIs_pair_iff (hT : Identified T) (hperiod : v.typePeriod = w.typePeriod) {a b value : Int}
    (hv : v.read.signedMw = some a) (hw : w.read.signedMw = some b)
    (h : (partition Row.typePeriod p (newestRows T)).Perm [v, w]) :
    NetIs T p value ↔ if v.resolutionMinutes = w.resolutionMinutes then a + b = value
      else a = value ∧ b = value := by
  have hsame := Row.netKey_read_iff hperiod
  rw [netIs_iff hT h]
  by_cases hres : v.resolutionMinutes = w.resolutionMinutes
  · have hkey := hsame.mpr hres
    rw [if_pos hres]
    simp [partition, hkey, hv, hw, Sql.sum]
  · have hkey : v.read.netKey ≠ w.read.netKey := fun heq => hres (hsame.mp heq)
    rw [if_neg hres]
    simp [partition, hkey, hkey.symm, hv, hw, Sql.sum]

/-- The net of a period shows the newest row of a direction exactly when
nothing but zero is held in the other. -/
theorem netIs_signed_iff (hT : Identified T) (hrte : FromRte T)
    (hv : newestHeld T (p.key d) = some v) :
    NetIs T p (d.signed v.quantityMw) ↔ ∀ w, newestHeld T (p.key d.opposite) = some w →
      w.quantityMw = 0 ∧ (w.resolutionMinutes = v.resolutionMinutes ∨ v.quantityMw = 0) := by
  obtain ⟨⟨hvmem, hvkey⟩, -⟩ := (newestHeld_eq_some_iff hT).mp hv
  have hvsigned := Row.signedMw_read (Row.direction_of_key hvkey)
  have hperm := partition_newest_perm hT hrte p d
  rw [hv] at hperm
  cases hw : newestHeld T (p.key d.opposite) with
  | none =>
      rw [hw] at hperm
      rw [netIs_iff hT hperm]
      simp [partition, hvsigned, Sql.sum]
  | some w =>
      obtain ⟨⟨hwmem, hwkey⟩, -⟩ := (newestHeld_eq_some_iff hT).mp hw
      have hwsigned := Row.signedMw_read (Row.direction_of_key hwkey)
      have hperiod := (Row.typePeriod_of_key hvkey).trans (Row.typePeriod_of_key hwkey).symm
      have hvpos := (hrte v hvmem).2.2
      have hwpos := (hrte w hwmem).2.2
      rw [hw] at hperm
      rw [netIs_pair_iff hT hperiod hvsigned hwsigned hperm]
      simp only [Option.some.injEq, forall_eq']
      -- the other direction counts against this one
      cases d <;> simp only [Direction.opposite, Direction.signed, true_and] <;> split <;> omega

end Directions

/-! ## What RTE publishes -/

/-- The direction of a signed value. -/
def signDirection (value : Int) : Direction := directionOf (value < 0)

/-- A quantity the contract accepts has thousandths, and they are not negative. -/
theorem thousandths_nonneg {quantity : Decimal} (h : Plausible quantity) :
    0 ≤ quantity.thousandths := by
  cases quantity with
  | nan => exact h.elim
  | infinite negative => exact h.elim
  | finite negative digits exponent =>
      obtain ⟨hnegative, -, -⟩ := h
      unfold Decimal.thousandths
      cases negative with
      | false => simp
      | true => simp [hnegative rfl]

/-- The thousandths of a number vanish when its digits do, and have its sign. -/
theorem thousandths_finite (digits : Nat) (exponent : Int) :
    ∃ n : Nat, (n = 0 ↔ digits = 0) ∧ ∀ negative, (Decimal.finite negative digits exponent).thousandths
      = if negative = true then -(n : Int) else n := by
  refine ⟨digits * 10 ^ (exponent + MAX_SCALE).toNat, ?_, fun negative => ?_⟩
  · have hpow : 0 < 10 ^ (exponent + MAX_SCALE).toNat := Nat.pow_pos (by omega)
    rw [Nat.mul_eq_zero, or_iff_left hpow.ne']
  · cases negative <;> simp [Decimal.thousandths]

/-- The direction and the magnitude of a record make up the signed value. -/
theorem TakenFrom.signed_eq {readers : Readers} {zone : BiddingZone} {knownAt : DateTime}
    {entry : Json} {quantity : Decimal} {r : GenerationRecord}
    (h : TakenFrom readers zone knownAt entry quantity r) :
    r.direction = signDirection quantity.thousandths ∧
      r.direction.signed r.quantityMw.thousandths = quantity.thousandths := by
  have hdirection := h.direction
  have hmagnitude := h.magnitude
  have hcontract := r.quantity_plausible
  cases quantity with
  | nan => cases hdirection
  | infinite negative =>
      obtain heq : Decimal.infinite false = r.quantityMw := Except.ok.inj hmagnitude
      rw [← heq] at hcontract
      exact hcontract.elim
  | finite negative digits exponent =>
      have hnegative : (negative && decide (digits ≠ 0)) = decide (r.direction = .consumption) :=
        Except.ok.inj hdirection
      obtain ⟨n, hzero, hn⟩ := thousandths_finite digits exponent
      rw [abs_finite hmagnitude hcontract, hn, hn]
      cases hd : r.direction with
      | generation =>
          -- not negative, or zero
          cases negative with
          | false => simp [signDirection, directionOf, Direction.signed]
          | true =>
              have hdigits : digits = 0 := by simpa [hd] using hnegative
              simp [hzero.mpr hdigits, signDirection, directionOf, Direction.signed]
      | consumption =>
          rw [hd, decide_eq_true rfl, Bool.and_eq_true, decide_eq_true_eq] at hnegative
          have hne : n ≠ 0 := fun h0 => hnegative.2 (hzero.mp h0)
          simp [hnegative.1, hne, signDirection, directionOf, Direction.signed]

section Publications

variable (readers : Readers) (zone : BiddingZone) (window : MergeWindow)

/-- A payload of the window that the normaliser reads, and that gives no
period of a type twice, as one that names each type once (`nodup_periods`). -/
structure Publication where
  payload : Json
  knownAt : DateTime
  result : GateResult
  parsed : parseActualGeneration readers zone knownAt payload = .ok result
  once : (result.records.map GenerationRecord.period).Nodup
  inWindow : ∀ r ∈ result.records, window.contains r.validTime.micros = true

end Publications

namespace Publication

variable {readers : Readers} {zone : BiddingZone} {window : MergeWindow}

theorem identified (pub : Publication readers zone window) :
    Identified (pub.result.records.map stagedRow) := by
  -- the identity of a row determines its period
  have hperiods : (pub.result.records.map fun r => (r.productionType.value, r.validTime.micros)).Nodup := by
    have hinjective : Function.Injective fun i : ProductionType × Instant =>
        (i.1.value, i.2.micros) := by
      intro i j hij
      obtain ⟨htype, htime⟩ := Prod.mk.inj hij
      exact Prod.ext (ProductionType.value_injective htype) (Instant.ext htime)
    have hmap := pub.once.map hinjective
    rw [List.map_map] at hmap
    exact hmap
  have hread : (((pub.result.records.map stagedRow).map Row.identity).map
      fun i => (i.1.productionType, i.1.validTime)).Nodup := by
    rw [List.map_map, List.map_map]
    exact hperiods
  exact List.Nodup.of_map _ hread

/-- The run that lands a payload. -/
def run (pub : Publication readers zone window) : Run where
  window := window
  knownAt := pub.knownAt.wall
  batch := pub.result.records.map stagedRow
  stamped := by
    intro s hs
    obtain ⟨r, hr, rfl⟩ := List.mem_map.mp hs
    obtain ⟨_, _, _, _, _, htaken⟩ := taken_of_mem pub.parsed hr
    exact htaken.knownAt
  inWindow := by
    intro s hs
    obtain ⟨r, hr, rfl⟩ := List.mem_map.mp hs
    exact pub.inWindow r hr
  identified := pub.identified

/-- The payload has a value for the period, one the contract accepts. -/
def Carries (pub : Publication readers zone window) (productionType : ProductionType)
    (moment : Instant) : Prop :=
  ∃ r ∈ pub.result.records, r.period = (productionType, moment)

/-- An entry of the payload gives the type this value for the period. -/
def Publishes (pub : Publication readers zone window) (productionType : ProductionType)
    (moment : Instant) (quantity : Decimal) : Prop :=
  ∃ es entry, entries pub.payload = .ok es ∧ entry ∈ es ∧
    productionTypeOf entry = some productionType ∧ Gives readers entry moment quantity

end Publication

/-! ## Revisions -/

/-- The table after the payloads. -/
def landed {readers : Readers} {zone : BiddingZone} {window : MergeWindow}
    (pubs : List (Publication readers zone window)) : List Row :=
  land [] (pubs.map Publication.run)

/-- What the payloads said of a key when it last changed. -/
def lastChange {readers : Readers} {zone : BiddingZone} {window : MergeWindow}
    (pubs : List (Publication readers zone window)) (k : SeriesKey) : Option Row :=
  (changes Row.value (observed (pubs.map Publication.run) k)).getLast?

/-- What was last said of the period with the other sign was zero, and of the
same length, where the value itself is not zero. -/
def Unopposed {readers : Readers} {zone : BiddingZone} {window : MergeWindow}
    (pubs : List (Publication readers zone window)) (p : TypePeriod) (value : Int) : Prop :=
  ∀ w, lastChange pubs (p.key (signDirection value).opposite) = some w →
    w.quantityMw = 0 ∧ (value = 0 ∨ ∀ v, lastChange pubs (p.key (signDirection value)) = some v →
      w.resolutionMinutes = v.resolutionMinutes)

section Revisions

variable {readers : Readers} {zone : BiddingZone} {window : MergeWindow}
  {pubs before after : List (Publication readers zone window)}
  {pub : Publication readers zone window} {productionType : ProductionType} {moment : Instant}
  {r : GenerationRecord} {k : SeriesKey} {d : Direction}

/-- A period of a type, the way a row names it. -/
abbrev rtePeriod (zone : BiddingZone) (productionType : ProductionType) (moment : Instant) :
    TypePeriod := ⟨zone.value, productionType.value, moment.micros⟩

theorem identified_landed (pubs : List (Publication readers zone window)) :
    Identified (landed pubs) := identified_land identified_nil _

theorem newestHeld_landed (h : pubs.Pairwise fun p p' => p.knownAt.wall < p'.knownAt.wall)
    (k : SeriesKey) : newestHeld (landed pubs) k = lastChange pubs k :=
  newestHeld_land (List.pairwise_map.mpr h) k

theorem fromRte_landed (pubs : List (Publication readers zone window)) : FromRte (landed pubs) := by
  intro s hs
  obtain ⟨R, hR, hmem⟩ := mem_staged.mp (subset_staged _ s hs)
  obtain ⟨pub, -, rfl⟩ := List.mem_map.mp hR
  obtain ⟨r, hr, rfl⟩ := List.mem_map.mp hmem
  obtain ⟨_, _, _, _, _, htaken⟩ := taken_of_mem pub.parsed hr
  exact ⟨congrArg Source.value htaken.source, ⟨r.direction, rfl⟩,
    thousandths_nonneg r.quantity_plausible⟩

/-- The key of a record's row. -/
theorem key_stagedRow (hr : r ∈ pub.result.records) (hperiod : r.period = (productionType, moment)) :
    (stagedRow r).key = (rtePeriod zone productionType moment).key r.direction := by
  obtain ⟨_, _, _, _, _, htaken⟩ := taken_of_mem pub.parsed hr
  obtain ⟨htype, htime⟩ := Prod.mk.inj hperiod
  rw [Row.key, TypePeriod.key, stagedRow, htaken.source, htaken.zone, htype, htime]
  rfl

theorem row?_of_not_carries (h : ¬ pub.Carries productionType moment) :
    pub.run.row? ((rtePeriod zone productionType moment).key d) = none := by
  rw [Run.row?_eq_none]
  intro s hs hkey
  obtain ⟨r, hr, rfl⟩ := List.mem_map.mp hs
  have htype : r.productionType = productionType :=
    ProductionType.value_injective (congrArg SeriesKey.productionType hkey)
  have htime : r.validTime = moment := Instant.ext (congrArg SeriesKey.validTime hkey)
  exact h ⟨r, hr, Prod.ext htype htime⟩

/-- Nothing is said of a period after the last payload that carries it. -/
theorem observed_newest (hnewest : ∀ pub' ∈ after, ¬ pub'.Carries productionType moment) :
    observed ((before ++ pub :: after).map Publication.run)
        ((rtePeriod zone productionType moment).key d)
      = observed (before.map Publication.run) ((rtePeriod zone productionType moment).key d) ++
        (pub.run.row? ((rtePeriod zone productionType moment).key d)).toList := by
  have hafter : (after.map Publication.run).filterMap
      (fun R => R.row? ((rtePeriod zone productionType moment).key d)) = [] := by
    rw [List.filterMap_eq_nil_iff]
    intro R hR
    obtain ⟨pub', hpub', rfl⟩ := List.mem_map.mp hR
    exact row?_of_not_carries (hnewest pub' hpub')
  unfold observed
  rw [List.map_append, List.filterMap_append, List.map_cons, ← List.singleton_append,
    List.filterMap_append, hafter, List.append_nil]
  cases h : pub.run.row? ((rtePeriod zone productionType moment).key d) <;> simp [h]

/-- What bronze holds of the newest value's own direction shows that value. -/
theorem lastChange_newest (hnewest : ∀ pub' ∈ after, ¬ pub'.Carries productionType moment)
    (hr : r ∈ pub.result.records) (hperiod : r.period = (productionType, moment)) :
    ∃ v, lastChange (before ++ pub :: after)
        ((rtePeriod zone productionType moment).key r.direction) = some v ∧
      v.quantityMw = r.quantityMw.thousandths := by
  have hrow : pub.run.row? ((rtePeriod zone productionType moment).key r.direction)
      = some (stagedRow r) :=
    Run.row?_eq_some.mpr ⟨List.mem_map.mpr ⟨r, hr, rfl⟩, key_stagedRow hr hperiod⟩
  have hobserved : (observed ((before ++ pub :: after).map Publication.run)
      ((rtePeriod zone productionType moment).key r.direction)).getLast? = some (stagedRow r) := by
    rw [observed_newest hnewest, hrow, Option.toList_some, List.getLast?_concat]
  have hlast := getLast?_changes Row.value (observed ((before ++ pub :: after).map Publication.run)
    ((rtePeriod zone productionType moment).key r.direction))
  rw [hobserved] at hlast
  obtain ⟨v, hv, hvalue⟩ := Option.map_eq_some_iff.mp hlast
  exact ⟨v, hv, congrArg Prod.fst hvalue⟩

end Revisions

/-- The net of a period is the value the newest payload carrying it gives
exactly when the value last said of it with the other sign was a zero of the
same length. -/
theorem rte_net_iff {readers : Readers} {zone : BiddingZone} {window : MergeWindow}
    (before : List (Publication readers zone window)) (pub : Publication readers zone window)
    (after : List (Publication readers zone window)) {productionType : ProductionType} {moment : Instant}
    {quantity : Decimal}
    (hincreasing : (before ++ pub :: after).Pairwise fun p p' => p.knownAt.wall < p'.knownAt.wall)
    (hcarries : pub.Carries productionType moment)
    (hnewest : ∀ pub' ∈ after, ¬ pub'.Carries productionType moment)
    (hvalue : ∀ q, pub.Publishes productionType moment q ↔ q = quantity) :
    NetIs (landed (before ++ pub :: after)) (rtePeriod zone productionType moment)
        quantity.thousandths ↔
      Unopposed (before ++ pub :: after) (rtePeriod zone productionType moment)
        quantity.thousandths := by
  obtain ⟨r, hr, hperiod⟩ := hcarries
  obtain ⟨htype, htime⟩ := Prod.mk.inj hperiod
  obtain ⟨es, entry, q, hes, hentry, htaken⟩ := taken_of_mem pub.parsed hr
  -- what the record was made of is the value
  have hq : q = quantity := by
    rw [← hvalue]
    exact ⟨es, entry, hes, hentry, htype ▸ htaken.productionType, htime ▸ htaken.gives⟩
  obtain ⟨hdirection, hsigned⟩ := htaken.signed_eq
  rw [hq] at hdirection hsigned
  have hlast : ∃ v, lastChange (before ++ pub :: after)
      ((rtePeriod zone productionType moment).key r.direction) = some v ∧
        v.quantityMw = r.quantityMw.thousandths := lastChange_newest hnewest hr hperiod
  obtain ⟨v, hv, hquantity⟩ := hlast
  have hheld := newestHeld_landed hincreasing
  have hnet := netIs_signed_iff (identified_landed _) (fromRte_landed _) ((hheld _).trans hv)
  have hzero : v.quantityMw = 0 ↔ quantity.thousandths = 0 := by
    rw [hquantity, ← hsigned]
    cases r.direction <;> simp [Direction.signed]
  rw [hquantity, hsigned, ← hquantity, hzero] at hnet
  rw [hnet, Unopposed, ← hdirection]
  simp only [hheld, hv, Option.some.injEq, forall_eq']
  apply forall_congr'
  intro w
  rw [or_comm]

/-! ## A pump that turns

Payloads of one hour. -/

/-- An hour of one production type, of this value. -/
def hourPayload (productionType text : String) : Json :=
  let hour := [("start_date", Json.string "2026-08-26T12:00Z"),
    ("end_date", Json.string "2026-08-26T13:00Z")]
  .dictOf [(RESOURCE, .listOf [.dictOf (("production_type", .string productionType) ::
    hour ++ [("values", .listOf [.dictOf (hour ++ [("value", .number text false)])])])])]

theorem atTwelve_inRange : WallInRange 63923428800000000 := by decide

theorem atOne_inRange : WallInRange 63923432400000000 := by decide

theorem atTwo_inRange : WallInRange 63923436000000000 := by decide

/-- Twelve o'clock on 26 August 2026, one and two. -/
def atTwelve : Instant := ⟨63923428800000000, atTwelve_inRange⟩

def atOne : Instant := ⟨63923432400000000, atOne_inRange⟩

def atTwo : Instant := ⟨63923436000000000, atTwo_inRange⟩

def pumpedReaders : Readers where
  int text := raise .ValueError [.repr text]
  decimal text :=
    if text = "-100" then .ok (.finite true 100 0)
    else if text = "50" then .ok (.finite false 50 0)
    else raise .InvalidOperation [.repr text]
  datetime text :=
    if text = "2026-08-26T12:00Z" then .ok atTwelve.toDateTime
    else if text = "2026-08-26T13:00Z" then .ok atOne.toDateTime
    else raise .ValueError [.repr text]
  date text := raise .ValueError [.repr text]

/-- The result of a normaliser that returns. -/
def resultOf (normalised : Py GateResult) : GateResult :=
  match normalised with
  | .ok result => result
  | .error _ => ⟨[], [], []⟩

theorem ok_resultOf {normalised : Py GateResult} (h : normalised.toBool = true) :
    normalised = .ok (resultOf normalised) := by
  cases normalised with
  | ok result => rfl
  | error error => cases h

/-- The hour, as first published: it pumps. -/
def pumping : Publication pumpedReaders .FR ⟨NOON, NOON + DAY⟩ where
  payload := hourPayload "HYDRO_PUMPED_STORAGE" "-100"
  knownAt := atOne.toDateTime
  result := resultOf (parseActualGeneration pumpedReaders .FR atOne.toDateTime
    (hourPayload "HYDRO_PUMPED_STORAGE" "-100"))
  parsed := ok_resultOf (by decide +kernel)
  once := by decide +kernel
  inWindow := by decide +kernel

/-- And an hour later: it generates. -/
def generating : Publication pumpedReaders .FR ⟨NOON, NOON + DAY⟩ where
  payload := hourPayload "HYDRO_PUMPED_STORAGE" "50"
  knownAt := atTwo.toDateTime
  result := resultOf (parseActualGeneration pumpedReaders .FR atTwo.toDateTime
    (hourPayload "HYDRO_PUMPED_STORAGE" "50"))
  parsed := ok_resultOf (by decide +kernel)
  once := by decide +kernel
  inWindow := by decide +kernel

theorem generating_publishes (q : Decimal) :
    generating.Publishes .HYDRO_PUMPED_STORAGE atTwelve q ↔ q = .finite false 50 0 := by
  have hentries : ∃ entry, entries generating.payload = .ok [entry] ∧
      productionTypeOf entry = some .HYDRO_PUMPED_STORAGE ∧
        Gives pumpedReaders entry atTwelve (.finite false 50 0) :=
    ⟨_, rfl, rfl, _, _, _, _, _, rfl, rfl, rfl, rfl, rfl, rfl⟩
  obtain ⟨entry, hes, htype, hgives⟩ := hentries
  constructor
  · rintro ⟨es, entry', hes', hentry, -, hgives'⟩
    rw [hes] at hes'
    rw [← Except.ok.inj hes', List.mem_singleton] at hentry
    rw [hentry] at hgives'
    exact hgives'.unique hgives
  · intro hq
    rw [hq]
    exact ⟨_, entry, hes, List.mem_singleton_self entry, htype, hgives⟩

/-- A net that shows the newest value, and one that does not. -/
theorem rte_net_iff_generating :
    (NetIs (landed [generating]) (rtePeriod .FR .HYDRO_PUMPED_STORAGE atTwelve) 50000 ↔
      Unopposed [generating] (rtePeriod .FR .HYDRO_PUMPED_STORAGE atTwelve) 50000) ∧
    (NetIs (landed [pumping, generating]) (rtePeriod .FR .HYDRO_PUMPED_STORAGE atTwelve) 50000 ↔
      Unopposed [pumping, generating] (rtePeriod .FR .HYDRO_PUMPED_STORAGE atTwelve) 50000) := by
  have hcarries : generating.Carries .HYDRO_PUMPED_STORAGE atTwelve := by
    unfold Publication.Carries
    decide +kernel
  exact ⟨rte_net_iff [] generating [] (by decide) hcarries (by simp) generating_publishes,
    rte_net_iff [pumping] generating [] (by decide) hcarries (by simp) generating_publishes⟩

/-- The version of the pump stays current under its own key, and counts
against the value that replaced it. -/
theorem pumping_still_netted :
    (∀ q, generating.Publishes .HYDRO_PUMPED_STORAGE atTwelve q ↔ q = .finite false 50 0) ∧
      (nets (landed [pumping, generating])
        (rtePeriod .FR .HYDRO_PUMPED_STORAGE atTwelve)).map NetRow.netMw = [some (-50000)] ∧
      ¬ NetIs (landed [pumping, generating]) (rtePeriod .FR .HYDRO_PUMPED_STORAGE atTwelve)
        (Decimal.finite false 50 0).thousandths := by
  have hnets : (nets (landed [pumping, generating])
      (rtePeriod .FR .HYDRO_PUMPED_STORAGE atTwelve)).map NetRow.netMw = [some (-50000)] := by
    decide +kernel
  refine ⟨generating_publishes, hnets, fun h => ?_⟩
  have hmem : some (-50000) ∈ (nets (landed [pumping, generating])
      (rtePeriod .FR .HYDRO_PUMPED_STORAGE atTwelve)).map NetRow.netMw := by
    rw [hnets]
    exact List.mem_singleton_self _
  obtain ⟨n, hn, hmw⟩ := List.mem_map.mp hmem
  rw [h.2 n hn] at hmw
  revert hmw
  decide

end Gridlens
