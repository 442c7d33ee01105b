import Gridlens.Gate

/-!
# The positions of a Period

What `parse_generation` and the gate make of the positions of a document: a
Point is read at its own position and moment, a position without a Point is
missing, and each position of a Period gives one record, violation or gap.
-/

namespace Gridlens

/-! ## The Periods of a document -/

/-- The local variables of `_parse_series` when its loop is done. -/
def seriesState (node : Element) : SeriesState :=
  node.children.foldl SeriesState.child ⟨"", "", "", "", []⟩

def SeriesState.direction (s : SeriesState) : Direction :=
  if s.inZone ≠ "" then .generation else .consumption

def SeriesState.zone (s : SeriesState) : String := if s.inZone ≠ "" then s.inZone else s.outZone

/-- The Period elements in document order, each with what its TimeSeries says. -/
def periods (root : Element) : List (SeriesState × Element) :=
  (root.children.filter fun child => localName child.tag = "TimeSeries").flatMap fun node =>
    (node.children.filter fun child => localName child.tag = "Period").map fun period =>
      (seriesState node, period)

def points (period : Element) : List Element :=
  period.children.filter fun child => localName child.tag = "Point"

/-- A Period states this resolution, and an interval with these ends. -/
structure Declares (readers : Readers) (period : Element) (resolution : Int)
    (start stop : Instant) : Prop where
  resolution : ∃ child ∈ period.children, localName child.tag = "resolution" ∧
    parseResolution child.stripped = .ok resolution
  start : ∃ child ∈ period.children, localName child.tag = "timeInterval" ∧
    ∃ sub ∈ child.children, localName sub.tag = "start" ∧ instant readers sub.stripped = .ok start
  stop : ∃ child ∈ period.children, localName child.tag = "timeInterval" ∧
    ∃ sub ∈ child.children, localName sub.tag = "end" ∧ instant readers sub.stripped = .ok stop

/-- `range(1, n + 1)`. -/
def positions (n : Nat) : List Int := (List.range n).map fun i : Nat => (i : Int) + 1

theorem mem_positions {n : Nat} {p : Int} : p ∈ positions n ↔ 1 ≤ p ∧ p ≤ n := by
  unfold positions
  rw [List.mem_map]
  constructor
  · rintro ⟨i, hi, rfl⟩
    have := List.mem_range.mp hi
    omega
  · intro h
    exact ⟨(p - 1).toNat, List.mem_range.mpr (by omega), by omega⟩

theorem positions_pairwise (n : Nat) : (positions n).Pairwise (· < ·) := by
  unfold positions
  rw [List.pairwise_map]
  exact List.pairwise_lt_range.imp fun h => by omega

/-! ## Reading a resolution -/

/-- A resolution is a positive number of whole minutes. -/
theorem parseResolution_ok {value : String} {resolution : Int}
    (h : parseResolution value = .ok resolution) : 0 < resolution ∧ resolution % MINUTE = 0 := by
  unfold parseResolution at h
  split at h
  · cases h
  · simp only [bind_eq_ok] at h
    rcases h with ⟨days, -, hours, -, minutes, -, total, htotal, hpos⟩
    unfold timedelta at htotal
    split at htotal
    · cases htotal
      split at hpos
      · cases hpos
      · rename_i hle
        cases hpos
        refine ⟨not_le.mp hle, ?_⟩
        have hday : DAY = 1440 * MINUTE := rfl
        have hhour : HOUR = 60 * MINUTE := rfl
        have hminute : MINUTE = 60000000 := rfl
        rw [hday, hhour, hminute]
        omega
    · cases htotal

/-! ## Reading a Period -/

section Period

variable {readers : Readers} {period : Element} {s s' : PeriodState}

/-- What one child of a Period does to the local variables. -/
theorem PeriodState.child_cases {child : Element}
    (h : PeriodState.child readers s child = .ok s') :
    (localName child.tag = "resolution" ∧ ∃ r, parseResolution child.stripped = .ok r ∧
        s' = { s with resolution := some r }) ∨
      (localName child.tag = "timeInterval" ∧
        child.children.foldlM (PeriodState.interval readers) s = .ok s') ∨
      (localName child.tag = "Point" ∧ ∃ q, parsePoint readers child = .ok q ∧
        q.1 ∉ s.quantities.map Prod.fst ∧ s' = { s with quantities := s.quantities ++ [q] }) ∨
      (localName child.tag ≠ "Point" ∧ s' = s) := by
  unfold PeriodState.child at h
  split at h
  · rename_i hname
    rcases bind_eq_ok.mp h with ⟨r, hr, heq⟩
    cases heq
    exact Or.inl ⟨hname, r, hr, rfl⟩
  · split at h
    · rename_i hname
      exact Or.inr (Or.inl ⟨hname, h⟩)
    · split at h
      · rename_i hname
        rcases bind_eq_ok.mp h with ⟨q, hq, hadd⟩
        simp only at hadd
        split at hadd
        · cases hadd
        · rename_i hnew
          cases hadd
          refine Or.inr (Or.inr (Or.inl ⟨hname, q, hq, ?_, rfl⟩))
          intro hmem
          rcases List.mem_map.mp hmem with ⟨q', hq', heq⟩
          exact hnew (List.any_eq_true.mpr ⟨q', hq', by simpa using heq⟩)
      · rename_i hname
        cases h
        exact Or.inr (Or.inr (Or.inr ⟨hname, rfl⟩))

/-- And one child of its timeInterval. -/
theorem PeriodState.interval_cases {sub : Element}
    (h : PeriodState.interval readers s sub = .ok s') :
    (localName sub.tag = "start" ∧ ∃ u, instant readers sub.stripped = .ok u ∧
        s' = { s with start := some u }) ∨
      (localName sub.tag = "end" ∧ ∃ u, instant readers sub.stripped = .ok u ∧
        s' = { s with stop := some u }) ∨ s' = s := by
  unfold PeriodState.interval at h
  split at h
  · rename_i hname
    rcases bind_eq_ok.mp h with ⟨u, hu, heq⟩
    cases heq
    exact Or.inl ⟨hname, u, hu, rfl⟩
  · split at h
    · rename_i hname
      rcases bind_eq_ok.mp h with ⟨u, hu, heq⟩
      cases heq
      exact Or.inr (Or.inl ⟨hname, u, hu, rfl⟩)
    · cases h
      exact Or.inr (Or.inr rfl)

theorem quantities_interval {subs : List Element}
    (h : subs.foldlM (PeriodState.interval readers) s = .ok s') :
    s'.quantities = s.quantities := by
  refine foldlM_ok (P := fun t => t.quantities = s.quantities) ?_ rfl h
  intro t sub t' ht hstep
  rcases PeriodState.interval_cases hstep with ⟨_, _, _, rfl⟩ | ⟨_, _, _, rfl⟩ | rfl <;> exact ht

/-- The Points fill `quantities` in their order. -/
theorem quantities_of_points {children : List Element}
    (h : children.foldlM (PeriodState.child readers) s = .ok s') :
    ∃ qs, List.Forall₂ (fun point q => parsePoint readers point = .ok q)
        (children.filter fun child => localName child.tag = "Point") qs ∧
      s'.quantities = s.quantities ++ qs := by
  have hextends := foldlM_extends (g := PeriodState.quantities)
    (p := fun child => localName child.tag = "Point")
    (R := fun point qs => ∃ q, parsePoint readers point = .ok q ∧ qs = [q]) ?_ h
  · rcases hextends with ⟨qss, hqss, heq⟩
    refine ⟨qss.flatten, ?_, heq⟩
    clear heq h
    generalize children.filter (fun child => localName child.tag = "Point") = pts at hqss ⊢
    induction hqss with
    | nil => exact List.Forall₂.nil
    | cons hq _ ih =>
        rcases hq with ⟨q, hq, rfl⟩
        exact List.Forall₂.cons hq ih
  · intro t child t' hstep
    rcases PeriodState.child_cases hstep with ⟨hname, _, _, rfl⟩ | ⟨hname, hinterval⟩ |
        ⟨hname, q, hq, _, rfl⟩ | ⟨hname, rfl⟩
    · simp [hname]
    · simpa [hname] using quantities_interval hinterval
    · simpa [hname] using hq
    · simp [hname]

/-- What the local variables hold was read off the children. -/
structure PeriodState.ReadFrom (readers : Readers) (period : Element) (s : PeriodState) :
    Prop where
  resolution : ∀ r, s.resolution = some r → ∃ child ∈ period.children,
    localName child.tag = "resolution" ∧ parseResolution child.stripped = .ok r
  start : ∀ u, s.start = some u → ∃ child ∈ period.children, localName child.tag = "timeInterval" ∧
    ∃ sub ∈ child.children, localName sub.tag = "start" ∧ instant readers sub.stripped = .ok u
  stop : ∀ u, s.stop = some u → ∃ child ∈ period.children, localName child.tag = "timeInterval" ∧
    ∃ sub ∈ child.children, localName sub.tag = "end" ∧ instant readers sub.stripped = .ok u
  distinct : (s.quantities.map Prod.fst).Nodup

theorem readFrom_interval {child : Element} (hmem : child ∈ period.children)
    (hname : localName child.tag = "timeInterval") (hs : s.ReadFrom readers period)
    (h : child.children.foldlM (PeriodState.interval readers) s = .ok s') :
    s'.ReadFrom readers period := by
  refine foldlM_ok_of_mem ?_ hs h
  intro t sub hsub t' ht hstep
  rcases PeriodState.interval_cases hstep with ⟨hsubname, u, hu, rfl⟩ | ⟨hsubname, u, hu, rfl⟩ | rfl
  · refine { ht with start := ?_ }
    rintro _ ⟨⟩
    exact ⟨child, hmem, hname, sub, hsub, hsubname, hu⟩
  · refine { ht with stop := ?_ }
    rintro _ ⟨⟩
    exact ⟨child, hmem, hname, sub, hsub, hsubname, hu⟩
  · exact ht

theorem readFrom_children
    (h : period.children.foldlM (PeriodState.child readers) ⟨none, none, none, []⟩ = .ok s) :
    s.ReadFrom readers period := by
  have hnone : (⟨none, none, none, []⟩ : PeriodState).ReadFrom readers period :=
    ⟨by simp, by simp, by simp, List.nodup_nil⟩
  refine foldlM_ok_of_mem ?_ hnone h
  intro t child hmem t' ht hstep
  rcases PeriodState.child_cases hstep with ⟨hname, r, hr, rfl⟩ | ⟨hname, hinterval⟩ |
      ⟨_, q, _, hnew, rfl⟩ | ⟨_, rfl⟩
  · refine { ht with resolution := ?_ }
    rintro _ ⟨⟩
    exact ⟨child, hmem, hname, hr⟩
  · exact readFrom_interval hmem hname ht hinterval
  · refine { ht with distinct := ?_ }
    rw [List.map_append, List.map_singleton, ← List.concat_eq_append]
    exact ht.distinct.concat hnew
  · exact ht

/-- What a Period of `n` positions was read as. -/
structure PeriodRead (readers : Readers) (period : Element) (series : GenerationSeries)
    (n : Nat) : Prop where
  declares : Declares readers period series.resolution series.intervalStart series.intervalEnd
  spans : n * series.resolution = series.intervalEnd.micros - series.intervalStart.micros
  /-- An observation is a Point, at its own position and moment. -/
  observed : ∀ o ∈ series.observations, (∃ node ∈ points period,
      parsePoint readers node = .ok (o.position, o.quantity)) ∧
    1 ≤ o.position ∧ o.position ≤ n ∧
    o.validTime.micros = series.intervalStart.micros + (o.position - 1) * series.resolution
  complete : ∀ node ∈ points period, ∃ o ∈ series.observations,
    parsePoint readers node = .ok (o.position, o.quantity)
  sorted : (series.observations.map Observation.position).Pairwise (· < ·)
  missing : series.missingPositions =
    (positions n).filter fun p => !series.observations.any fun o => o.position = p

theorem periodCount_ok {start stop : Instant} {resolution n : Int} (hpos : 0 < resolution)
    (h : periodCount start stop resolution = .ok n) :
    0 < n ∧ n * resolution = stop.micros - start.micros := by
  unfold periodCount at h
  simp only at h
  split at h
  · cases h
  · split at h
    · cases h
    · rename_i hspan hmod
      cases h
      rw [not_not] at hmod
      have hdvd := Int.ediv_mul_cancel (Int.dvd_of_emod_eq_zero hmod)
      refine ⟨?_, hdvd⟩
      by_contra hle
      have := Int.mul_le_mul_of_nonneg_right (not_lt.mp hle) hpos.le
      omega

theorem positionTime_ok {start : Instant} {resolution p : Int} {u : Instant}
    (h : positionTime start resolution p = .ok u) :
    1 ≤ p ∧ u.micros = start.micros + (p - 1) * resolution := by
  unfold positionTime at h
  split at h
  · cases h
  · rename_i hp
    exact ⟨not_lt.mp hp, Instant.ofMicros_ok h⟩

/-- The observations made of the sorted points. -/
theorem observations_ok {start : Instant} {resolution : Int} {sorted : List (Int × Decimal)}
    {observations : List Observation}
    (h : sorted.mapM (fun q => do
      .ok (⟨← positionTime start resolution q.1, q.1, q.2⟩ : Observation)) = .ok observations) :
    observations.map (fun o => (o.position, o.quantity)) = sorted ∧
      ∀ o ∈ observations, 1 ≤ o.position ∧
        o.validTime.micros = start.micros + (o.position - 1) * resolution := by
  have hobs := mapM_eq_ok.mp h
  clear h
  induction hobs with
  | nil => exact ⟨rfl, fun o ho => absurd ho List.not_mem_nil⟩
  | @cons q o sorted observations ho _ ih =>
      rcases bind_eq_ok.mp ho with ⟨u, hu, heq⟩
      cases heq
      rw [List.map_cons, ih.1]
      refine ⟨rfl, fun o' ho' => ?_⟩
      rcases List.mem_cons.mp ho' with rfl | ho'
      · exact positionTime_ok hu
      · exact ih.2 o' ho'

/-- Sorting distinct positions leaves them strictly increasing. -/
theorem sorted_pairwise {quantities : List (Int × Decimal)}
    (h : (quantities.map Prod.fst).Nodup) :
    ((quantities.insertionSort fun a b => a.1 ≤ b.1).map Prod.fst).Pairwise (· < ·) := by
  rw [List.map_insertionSort _ (fun p q : Int => p ≤ q) Prod.fst quantities
    fun _ _ _ _ => Iff.rfl]
  have hle := List.pairwise_insertionSort (fun p q : Int => p ≤ q) (quantities.map Prod.fst)
  have hne := (List.perm_insertionSort (fun p q : Int => p ≤ q) _).nodup_iff.mpr h
  exact (hle.and hne).imp fun h => lt_of_le_of_ne h.1 h.2

/-- A Period that is read at all is read position by position. -/
theorem parsePeriod_ok {zone productionType unit : String} {direction : Direction}
    {series : GenerationSeries}
    (h : parsePeriod readers period zone productionType direction unit = .ok series) :
    (series.zone = zone ∧ series.productionType = productionType ∧ series.direction = direction) ∧
      ∃ n, PeriodRead readers period series n := by
  unfold parsePeriod at h
  rcases bind_eq_ok.mp h with ⟨s, hs, h⟩
  have hread := readFrom_children hs
  rcases quantities_of_points hs with ⟨quantities, hpoints, hquantities⟩
  rw [List.nil_append] at hquantities
  split at h
  · rename_i resolution start stop hresolution hstart hstop
    rcases bind_eq_ok.mp h with ⟨n, hn, h⟩
    simp only at h
    split at h
    · cases h
    · rename_i hbeyond
      simp only [bind_eq_ok] at h
      rcases h with ⟨observations, hobservations, heq⟩
      cases heq
      rcases hread.resolution resolution hresolution with ⟨child, hchild, hname, hparse⟩
      have hpos := (parseResolution_ok hparse).1
      have hcount := periodCount_ok hpos hn
      have hobs := observations_ok hobservations
      have hmem : ∀ q, (∃ o ∈ observations, (o.position, o.quantity) = q) ↔ q ∈ quantities := by
        intro q
        rw [← List.mem_map, hobs.1, List.mem_insertionSort, hquantities]
      refine ⟨⟨rfl, rfl, rfl⟩, n.toNat, ?_, ?_, ?_, ?_, ?_, ?_⟩
      · exact ⟨⟨child, hchild, hname, hparse⟩, hread.start start hstart, hread.stop stop hstop⟩
      · simp only
        rw [Int.toNat_of_nonneg hcount.1.le]
        exact hcount.2
      · intro o ho
        have hq := (hmem (o.position, o.quantity)).mp ⟨o, ho, rfl⟩
        refine ⟨(mem_of_forall₂_ok hpoints).mp hq, (hobs.2 o ho).1, ?_, (hobs.2 o ho).2⟩
        have hle := List.filter_eq_nil_iff.mp (not_not.mp hbeyond) o.position
          (List.mem_map.mpr ⟨_, (List.mem_insertionSort _).mpr (hquantities ▸ hq), rfl⟩)
        rw [decide_eq_true_eq] at hle
        omega
      · intro node hnode
        rcases exists_of_forall₂_ok hpoints hnode with ⟨q, hq, hparse⟩
        rcases (hmem q).mpr hq with ⟨o, ho, rfl⟩
        exact ⟨o, ho, hparse⟩
      · have hsorted := sorted_pairwise hread.distinct
        rw [← hobs.1, List.map_map] at hsorted
        exact hsorted
      · unfold positions
        refine List.filter_congr fun p _ => ?_
        congr 1
        rw [Bool.eq_iff_iff, List.any_eq_true, List.any_eq_true, hquantities]
        constructor
        · rintro ⟨q, hq, hp⟩
          rcases (hmem q).mpr hq with ⟨o, ho, rfl⟩
          exact ⟨o, ho, hp⟩
        · rintro ⟨o, ho, hp⟩
          exact ⟨_, (hmem _).mp ⟨o, ho, rfl⟩, hp⟩
  · cases h

end Period

/-! ## Reading a document -/

section Document

variable {readers : Readers}

/-- The series of a Period: under its TimeSeries' zone, production type and
direction. -/
structure ReadAs (readers : Readers) (period : SeriesState × Element) (series : GenerationSeries) :
    Prop where
  zone : series.zone = period.1.zone
  productionType : series.productionType = period.1.productionType
  direction : series.direction = period.1.direction
  read : ∃ n, PeriodRead readers period.2 series n

theorem SeriesState.child_periods (s : SeriesState) (child : Element) :
    (s.child child).periods = s.periods ++
      if localName child.tag = "Period" then [child] else [] := by
  have hsubs : ∀ (subs : List Element) (s : SeriesState), (subs.foldl (fun s sub =>
      if localName sub.tag = "psrType" then { s with productionType := sub.stripped } else s)
      s).periods = s.periods := by
    intro subs
    induction subs with
    | nil => exact fun _ => rfl
    | cons sub subs ih =>
        intro s
        rw [List.foldl_cons, ih]
        split <;> rfl
  unfold SeriesState.child
  split
  · rename_i hname
    simp [hsubs, hname]
  · repeat' split
    all_goals simp_all

theorem seriesState_periods (node : Element) :
    (seriesState node).periods =
      node.children.filter fun child => localName child.tag = "Period" := by
  have hrun : ∀ (children : List Element) (s : SeriesState),
      (children.foldl SeriesState.child s).periods =
        s.periods ++ children.filter fun child => localName child.tag = "Period" := by
    intro children
    induction children with
    | nil => simp
    | cons child children ih =>
        intro s
        rw [List.foldl_cons, ih, SeriesState.child_periods, List.append_assoc, List.filter_cons]
        by_cases hname : localName child.tag = "Period" <;> simp [hname]
  rw [seriesState, hrun, List.nil_append]

theorem parseSeries_ok {node : Element} {series : List GenerationSeries}
    (h : parseSeries readers node = .ok series) :
    List.Forall₂ (fun period => ReadAs readers (seriesState node, period))
      (node.children.filter fun child => localName child.tag = "Period") series := by
  rw [← seriesState_periods]
  have hperiods : (seriesState node).periods.mapM (fun period =>
      parsePeriod readers period (seriesState node).zone (seriesState node).productionType
        (seriesState node).direction (seriesState node).unit) = .ok series := by
    unfold parseSeries at h
    unfold SeriesState.zone SeriesState.direction seriesState
    generalize node.children.foldl SeriesState.child ⟨"", "", "", "", []⟩ = s at h ⊢
    by_cases hnone : s.periods = []
    · simp [hnone, raise, bind, Except.bind] at h
    · by_cases hin : s.inZone = ""
      · by_cases hout : s.outZone = ""
        · simp [hnone, hin, hout, raise, bind, Except.bind] at h
        · simpa [hnone, hin, hout, bind, Except.bind] using h
      · by_cases hout : s.outZone = ""
        · simpa [hnone, hin, hout, bind, Except.bind] using h
        · simp [hnone, hin, hout, raise, bind, Except.bind] at h
  refine (mapM_eq_ok.mp hperiods).imp fun period series hparse => ?_
  rcases parsePeriod_ok hparse with ⟨⟨hzone, htype, hdirection⟩, hread⟩
  exact ⟨hzone, htype, hdirection, hread⟩

/-- The series of a document are its Periods, in their order. -/
theorem parseGeneration_ok {root : Element} {document : Document}
    (h : parseGeneration readers root = .ok document) :
    List.Forall₂ (ReadAs readers) (periods root) document.series := by
  unfold parseGeneration at h
  simp only at h
  split at h
  · cases h
  · rcases bind_eq_ok.mp h with ⟨⟨header, series⟩, hfold, h⟩
    have hseries : document.series = series := by
      rcases bind_eq_ok.mp h with ⟨revisionNumber, -, h⟩
      split at h
      · simp only [bind_eq_ok] at h
        rcases h with ⟨_, -, _, -, heq⟩
        cases heq
        rfl
      · cases h
    have hextends := foldlM_extends (g := Prod.snd)
      (p := fun child => localName child.tag = "TimeSeries")
      (R := fun node new => parseSeries readers node = .ok new) ?_ hfold
    · rcases hextends with ⟨seriess, hnodes, heq⟩
      have hflat : series = seriess.flatten := heq
      rw [hseries, hflat, periods, List.flatMap_def]
      apply List.rel_flatten
      rw [List.forall₂_map_left_iff]
      refine hnodes.imp fun node new hnode => ?_
      rw [List.forall₂_map_left_iff]
      exact parseSeries_ok hnode
    · rintro ⟨header, series⟩ child s' hstep
      simp only at hstep
      split at hstep
      · rename_i hname
        rcases bind_eq_ok.mp hstep with ⟨new, hnew, heq⟩
        cases heq
        simpa [hname] using hnew
      · rename_i hname
        split at hstep
        all_goals
          cases hstep
          simp [hname]

end Document

/-! ## What the gate makes of a position -/

inductive Fate where
  | accepted (record : GenerationRecord)
  | refused (violation : Violation)
  | absent (gap : Gap)

def Fate.record? : Fate → Option GenerationRecord
  | .accepted record => some record
  | _ => none

def Fate.violation? : Fate → Option Violation
  | .refused violation => some violation
  | _ => none

def Fate.gap? : Fate → Option Gap
  | .absent gap => some gap
  | _ => none

def Fate.built : Except Violation GenerationRecord → Fate
  | .ok record => .accepted record
  | .error violation => .refused violation

/-- A result with more fates in it. -/
def GateResult.append (result : GateResult) (fates : List Fate) : GateResult where
  records := result.records ++ fates.filterMap Fate.record?
  violations := result.violations ++ fates.filterMap Fate.violation?
  gaps := result.gaps ++ fates.filterMap Fate.gap?

def GateResult.ofFates (fates : List Fate) : GateResult := GateResult.append ⟨[], [], []⟩ fates

def GateResult.total (result : GateResult) : Nat :=
  result.records.length + result.violations.length + result.gaps.length

/-- The moment a position of the series stands for. -/
def GenerationSeries.moment (series : GenerationSeries) (p : Int) : Instant :=
  let micros := series.intervalStart.micros + (p - 1) * series.resolution
  if h : WallInRange micros then ⟨micros, h⟩ else series.intervalStart

/-- The fate of one position: its observation's, or a gap. -/
def fate (document : Document) (knownAt : DateTime) (series : GenerationSeries) (p : Int) : Fate :=
  match series.observations.find? fun o => o.position = p with
  | some o =>
      .built (buildRecord
        (candidateOf document series (series.resolution / SECOND / 60) knownAt o))
  | none => .absent ⟨series.zone, series.productionType, series.direction, series.moment p, p⟩

section Fates

variable {readers : Readers} {document : Document} {knownAt : DateTime} {result : GateResult}
  {period : Element} {series : GenerationSeries} {n : Nat}

theorem gap?_built (built : Except Violation GenerationRecord) :
    (Fate.built built).gap? = none := by
  cases built <;> rfl

theorem total_ofFates (fates : List Fate) : (GateResult.ofFates fates).total = fates.length := by
  unfold GateResult.ofFates GateResult.append GateResult.total
  simp only [List.nil_append]
  induction fates with
  | nil => rfl
  | cons f fates ih =>
      cases f <;>
      · simp only [List.filterMap_cons, Fate.record?, Fate.violation?, Fate.gap?, List.length_cons]
        omega

theorem append_append (fates fates' : List Fate) :
    (result.append fates).append fates' = result.append (fates ++ fates') := by
  simp [GateResult.append]

theorem append_nil : result.append [] = result := by simp [GateResult.append]

theorem add_eq_append (candidate : Candidate) :
    result.add candidate = result.append [.built (buildRecord candidate)] := by
  unfold GateResult.add
  cases buildRecord candidate <;>
    simp [GateResult.append, Fate.built, Fate.record?, Fate.violation?, Fate.gap?]

theorem foldl_add (observations : List Observation) (candidate : Observation → Candidate) :
    observations.foldl (fun result o => result.add (candidate o)) result =
      result.append (observations.map fun o => .built (buildRecord (candidate o))) := by
  induction observations generalizing result with
  | nil => exact append_nil.symm
  | cons o observations ih =>
      rw [List.foldl_cons, ih, add_eq_append, append_append]
      rfl

/-- The observation of a position is the one there is. -/
theorem find?_observation (hread : PeriodRead readers period series n) {o : Observation}
    (ho : o ∈ series.observations) :
    series.observations.find? (fun o' => o'.position = o.position) = some o := by
  have hsorted := List.pairwise_map.mp hread.sorted
  generalize series.observations = observations at ho hsorted
  induction observations with
  | nil => cases ho
  | cons o₁ observations ih =>
      rw [List.pairwise_cons] at hsorted
      rcases List.mem_cons.mp ho with rfl | ho
      · rw [List.find?_cons_of_pos (by simp)]
      · have hlt := hsorted.1 o ho
        rw [List.find?_cons_of_neg (by simpa using hlt.ne)]
        exact ih ho hsorted.2

/-- Walking the positions meets each observation once, in order. -/
theorem filterMap_positions (hread : PeriodRead readers period series n) :
    ((positions n).filterMap fun p => series.observations.find? fun o => o.position = p) =
      series.observations := by
  have hfound : ∀ {p o}, (series.observations.find? fun o => o.position = p) = some o →
      o ∈ series.observations ∧ o.position = p := fun h =>
    ⟨List.mem_of_find?_eq_some h, by simpa using List.find?_some h⟩
  -- both sides are sorted by position, with the same members
  refine List.Pairwise.eq_of_mem_iff (r := fun o o' : Observation => o.position < o'.position)
    ?_ (List.pairwise_map.mp hread.sorted) fun o => ?_
  · rw [List.pairwise_filterMap]
    refine (positions_pairwise n).imp fun hlt o ho o' ho' => ?_
    rw [(hfound ho).2, (hfound ho').2]
    exact hlt
  · rw [List.mem_filterMap]
    constructor
    · rintro ⟨p, -, ho⟩
      exact (hfound ho).1
    · intro ho
      rcases hread.observed o ho with ⟨-, hge, hle, -⟩
      exact ⟨o.position, mem_positions.mpr ⟨hge, hle⟩, find?_observation hread ho⟩

theorem PeriodRead.resolution_ok (hread : PeriodRead readers period series n) :
    0 < series.resolution ∧ series.resolution % MINUTE = 0 := by
  rcases hread.declares.resolution with ⟨_, -, -, hparse⟩
  exact parseResolution_ok hparse

/-- Each position has its moment, inside the interval. -/
theorem moment_inside (hread : PeriodRead readers period series n) {p : Int} (hp : p ∈ positions n) :
    (series.moment p).micros = series.intervalStart.micros + (p - 1) * series.resolution ∧
      series.intervalStart.micros ≤ (series.moment p).micros ∧
      (series.moment p).micros < series.intervalEnd.micros := by
  have hpos := hread.resolution_ok.1
  have hspans := hread.spans
  have hp := mem_positions.mp hp
  have hle : 0 ≤ (p - 1) * series.resolution := Int.mul_nonneg (by omega) hpos.le
  have hlt : (p - 1) * series.resolution < n * series.resolution :=
    Int.mul_lt_mul_of_pos_right (by omega) hpos
  have hstart := series.intervalStart.inRange
  have hstop := series.intervalEnd.inRange
  have hrange : WallInRange (series.intervalStart.micros + (p - 1) * series.resolution) :=
    ⟨by have := hstart.1; omega, by have := hstop.2; omega⟩
  unfold GenerationSeries.moment
  simp only
  rw [dif_pos hrange]
  exact ⟨rfl, by simp only; omega, by simp only; omega⟩

theorem positionTime_moment (hread : PeriodRead readers period series n) {p : Int}
    (hp : p ∈ positions n) :
    positionTime series.intervalStart series.resolution p = .ok (series.moment p) := by
  have hmoment := moment_inside hread hp
  unfold positionTime Instant.ofMicros
  rw [if_neg (not_lt.mpr (mem_positions.mp hp).1), dif_pos (hmoment.1 ▸ (series.moment p).inRange)]
  exact congrArg Except.ok (Instant.ext hmoment.1.symm)

theorem filterMap_fates {α : Type} (hread : PeriodRead readers period series n)
    (part : Fate → Option α) (hpart : ∀ gap, part (.absent gap) = none) :
    ((positions n).map (fate document knownAt series)).filterMap part =
      (series.observations.map fun o => Fate.built (buildRecord
        (candidateOf document series (series.resolution / SECOND / 60) knownAt o))).filterMap part := by
  conv_rhs => rw [← filterMap_positions hread]
  rw [List.filterMap_map, List.filterMap_map, List.filterMap_filterMap]
  refine List.filterMap_congr fun p _ => ?_
  unfold Function.comp fate
  cases series.observations.find? fun o => o.position = p with
  | none => exact hpart _
  | some o => rfl

theorem gaps_fates (hread : PeriodRead readers period series n) :
    ((positions n).map (fate document knownAt series)).filterMap Fate.gap? =
      series.missingPositions.map fun p =>
        ⟨series.zone, series.productionType, series.direction, series.moment p, p⟩ := by
  rw [hread.missing, List.filterMap_map]
  conv_rhs => rw [← List.filterMap_eq_map, List.filterMap_filter]
  refine List.filterMap_congr fun p _ => ?_
  unfold Function.comp fate
  cases hfind : series.observations.find? fun o => o.position = p with
  | none =>
      rw [List.find?_eq_none] at hfind
      have hany : (series.observations.any fun o => o.position = p) = false := by simpa using hfind
      rw [hany]
      rfl
  | some o =>
      have hany : (series.observations.any fun o => o.position = p) = true :=
        List.any_eq_true.mpr ⟨o, List.mem_of_find?_eq_some hfind, by simpa using List.find?_some hfind⟩
      rw [hany]
      exact gap?_built _

/-- The gate turns a series into the fates of its positions. -/
theorem gateSeries_eq (hread : PeriodRead readers period series n) :
    gateSeries document knownAt result series =
      .ok (result.append ((positions n).map (fate document knownAt series))) := by
  have hminutes : series.resolution / SECOND % 60 = 0 := by
    have hmod := hread.resolution_ok.2
    have hminute : MINUTE = 60 * 1000000 := rfl
    have hsecond : SECOND = 1000000 := rfl
    rw [hminute] at hmod
    rw [hsecond]
    omega
  have hgaps : (series.missingPositions.mapM fun position => do
      .ok (⟨series.zone, series.productionType, series.direction,
        ← positionTime series.intervalStart series.resolution position, position⟩ : Gap)) =
      .ok (series.missingPositions.map fun p =>
        ⟨series.zone, series.productionType, series.direction, series.moment p, p⟩) := by
    rw [mapM_eq_ok, List.forall₂_map_right_iff, List.forall₂_same]
    intro p hp
    rw [hread.missing] at hp
    rw [positionTime_moment hread (List.mem_filter.mp hp).1]
    rfl
  unfold gateSeries
  simp only
  rw [if_neg (not_not.mpr hminutes), foldl_add, hgaps]
  simp only [GateResult.append]
  rw [filterMap_fates hread _ fun _ => rfl, filterMap_fates hread _ fun _ => rfl, gaps_fates hread]
  -- an observation is no gap
  have hnone : (series.observations.map fun o => Fate.built (buildRecord
      (candidateOf document series (series.resolution / SECOND / 60) knownAt o))).filterMap
        Fate.gap? = [] := by
    rw [List.filterMap_map, List.filterMap_eq_nil_iff]
    exact fun o _ => gap?_built _
  rw [hnone, List.append_nil]
  rfl

end Fates

/-! ## Every position is accounted for -/

/-- The fate says what the Point at `time` said, under its series and the
given `known_at`. -/
def Fate.Carries (s : SeriesState) (knownAt : DateTime) (time : Int) (quantity : Decimal) :
    Fate → Prop
  | .accepted record =>
      record.quantityMw = quantity ∧ record.validTime.micros = time ∧
        record.zone.value = s.zone ∧ record.productionType.value = s.productionType ∧
        record.direction = s.direction ∧ record.knownAt.toDateTime = knownAt
  | .refused violation =>
      violation.reason = "contract" ∧
        violation.payload.lookup "quantity_mw" = some (.decimal quantity) ∧
        violation.payload.lookup "valid_time" = some (.isoformat time (some 0)) ∧
        violation.payload.lookup "zone" = some (.str s.zone) ∧
        violation.payload.lookup "production_type" = some (.str s.productionType) ∧
        violation.payload.lookup "direction" = some (.str s.direction.value) ∧
        violation.payload.lookup "known_at" = some (isoformat knownAt)
  | .absent _ => False

/-- A Period, the series it was read as, and the fates of its positions from
the first on. -/
structure Account where
  state : SeriesState
  period : Element
  series : GenerationSeries
  fates : List Fate

/-- The moment of the position `i` places after the first. -/
def Account.time (a : Account) (i : Nat) : Int :=
  a.series.intervalStart.micros + i * a.series.resolution

/-- Every position has its fate, and every fate its position. -/
structure Account.Exact (readers : Readers) (knownAt : DateTime) (a : Account) : Prop where
  declares : Declares readers a.period a.series.resolution a.series.intervalStart
    a.series.intervalEnd
  positive : 0 < a.series.resolution
  spans : a.fates.length * a.series.resolution =
    a.series.intervalEnd.micros - a.series.intervalStart.micros
  inside : ∀ i < a.fates.length,
    a.series.intervalStart.micros ≤ a.time i ∧ a.time i < a.series.intervalEnd.micros
  point : ∀ node ∈ points a.period, ∃ (i : Nat) (quantity : Decimal) (f : Fate),
    parsePoint readers node = .ok ((i : Int) + 1, quantity) ∧ a.fates[i]? = some f ∧
      f.Carries a.state knownAt (a.time i) quantity
  position : ∀ (i : Nat) (f : Fate), a.fates[i]? = some f →
    (∃ node ∈ points a.period, ∃ quantity, parsePoint readers node = .ok ((i : Int) + 1, quantity) ∧
      f.Carries a.state knownAt (a.time i) quantity) ∨
    ((∀ node ∈ points a.period, ∀ quantity,
        parsePoint readers node ≠ .ok ((i : Int) + 1, quantity)) ∧
      ∃ gap, f = .absent gap ∧ gap.zone = a.state.zone ∧
        gap.productionType = a.state.productionType ∧ gap.direction = a.state.direction ∧
        gap.validTime.micros = a.time i ∧ gap.position = i + 1)
  missing : ∀ p : Int, p ∈ a.series.missingPositions ↔
    ∃ (i : Nat) (gap : Gap), p = i + 1 ∧ a.fates[i]? = some (.absent gap)

section Accounts

variable {readers : Readers} {document : Document} {knownAt : DateTime} {s : SeriesState}
  {period : Element} {series : GenerationSeries} {n : Nat}

/-- A record or a violation says what its observation said. -/
theorem carries_built (hzone : series.zone = s.zone)
    (htype : series.productionType = s.productionType) (hdirection : series.direction = s.direction)
    (minutes : Int) (o : Observation) :
    (Fate.built (buildRecord (candidateOf document series minutes knownAt o))).Carries s knownAt
      o.validTime.micros o.quantity := by
  unfold buildRecord
  split
  · rename_i record hvalid
    have hok := validate_ok hvalid
    have hquantity := validate_quantity hvalid
    refine ⟨hquantity.1, hok.2.2.2.2.1, hok.2.1.trans hzone, hok.2.2.1.trans htype, ?_, ?_⟩
    · rw [← hdirection]
      exact Direction.value_injective hok.2.2.2.1
    · cases knownAt
      simp only [Instant.toDateTime, DateTime.mk.injEq]
      exact ⟨hok.2.2.2.2.2, hquantity.2.symm⟩
  · unfold Fate.built Fate.Carries
    rw [← hzone, ← htype, ← hdirection]
    exact ⟨rfl, rfl, rfl, rfl, rfl, rfl, rfl⟩

theorem fate_of_observation (hread : PeriodRead readers period series n) {o : Observation}
    (ho : o ∈ series.observations) : fate document knownAt series o.position =
      .built (buildRecord
        (candidateOf document series (series.resolution / SECOND / 60) knownAt o)) := by
  unfold fate
  rw [find?_observation hread ho]

theorem getElem?_fates {i : Nat} {f : Fate} :
    ((positions n).map (fate document knownAt series))[i]? = some f ↔
      i < n ∧ f = fate document knownAt series ((i : Int) + 1) := by
  unfold positions
  rw [List.map_map, List.getElem?_map]
  by_cases hi : i < n
  · simp [hi, eq_comm]
  · simp [hi]

/-- A position has an observation, whose fate it has, or it has none. -/
theorem fate_cases (document : Document) (knownAt : DateTime) (series : GenerationSeries)
    (p : Int) :
    (∃ o ∈ series.observations, o.position = p ∧ fate document knownAt series p =
        .built (buildRecord
          (candidateOf document series (series.resolution / SECOND / 60) knownAt o))) ∨
      ((∀ o ∈ series.observations, o.position ≠ p) ∧ fate document knownAt series p =
        .absent ⟨series.zone, series.productionType, series.direction, series.moment p, p⟩) := by
  unfold fate
  cases hfind : series.observations.find? fun o => o.position = p with
  | some o =>
      refine Or.inl ⟨o, List.mem_of_find?_eq_some hfind, ?_, rfl⟩
      simpa using List.find?_some hfind
  | none =>
      rw [List.find?_eq_none] at hfind
      exact Or.inr ⟨fun o ho => by simpa using hfind o ho, rfl⟩

/-- The places of a Period lie inside its interval. -/
theorem moment_place (hread : PeriodRead readers period series n) {i : Nat} (hi : i < n) :
    (series.moment (i + 1)).micros = series.intervalStart.micros + i * series.resolution ∧
      series.intervalStart.micros ≤ series.intervalStart.micros + i * series.resolution ∧
        series.intervalStart.micros + i * series.resolution < series.intervalEnd.micros := by
  have hp : (i : Int) + 1 ∈ positions n := mem_positions.mpr ⟨by omega, by omega⟩
  have hmoment := moment_inside hread hp
  rw [add_sub_cancel_right] at hmoment
  exact ⟨hmoment.1, hmoment.1 ▸ hmoment.2.1, hmoment.1 ▸ hmoment.2.2⟩

/-- The fate of an observed position carries its observation. -/
theorem carries_of_observation (document : Document) (knownAt : DateTime)
    (hperiod : ReadAs readers (s, period) series)
    (hread : PeriodRead readers period series n) {o : Observation}
    (ho : o ∈ series.observations) : (fate document knownAt series o.position).Carries s knownAt
      (series.intervalStart.micros + (o.position - 1) * series.resolution) o.quantity := by
  obtain ⟨-, -, -, hmicros⟩ := hread.observed o ho
  rw [fate_of_observation hread ho, ← hmicros]
  exact carries_built hperiod.zone hperiod.productionType hperiod.direction _ o

/-- The positions the parser lists as missing are those whose fate is a gap. -/
theorem missing_iff_absent (hread : PeriodRead readers period series n) (p : Int) :
    p ∈ series.missingPositions ↔
      p ∈ positions n ∧ ∃ gap, fate document knownAt series p = .absent gap := by
  rw [hread.missing, List.mem_filter, Bool.not_eq_true', List.any_eq_false]
  refine and_congr_right fun _ => ?_
  rcases fate_cases document knownAt series p with ⟨o, ho, hp, hfate⟩ | ⟨hnone, hfate⟩
  · constructor
    · intro hnone
      exact absurd (by simpa using hp) (hnone o ho)
    · rintro ⟨gap, hgap⟩
      -- a record or a violation is no gap
      have hbuilt := gap?_built (buildRecord
        (candidateOf document series (series.resolution / SECOND / 60) knownAt o))
      rw [← hfate, hgap] at hbuilt
      cases hbuilt
  · exact ⟨fun _ => ⟨_, hfate⟩, fun _ o ho => by simpa using hnone o ho⟩

/-- The account of one Period. -/
theorem exact_of_read (hperiod : ReadAs readers (s, period) series)
    (hread : PeriodRead readers period series n) :
    (⟨s, period, series, (positions n).map (fate document knownAt series)⟩ : Account).Exact
      readers knownAt := by
  have hlength : ((positions n).map (fate document knownAt series)).length = n := by
    simp [positions]
  refine ⟨hread.declares, hread.resolution_ok.1, ?_, ?_, ?_, ?_, ?_⟩
  · rw [hlength]
    exact hread.spans
  · intro i hi
    exact (moment_place hread (hlength ▸ hi)).2
  · intro node hnode
    obtain ⟨o, ho, hparse⟩ := hread.complete node hnode
    obtain ⟨-, hge, hle, -⟩ := hread.observed o ho
    have hposition : (((o.position - 1).toNat : Nat) : Int) = o.position - 1 := by omega
    refine ⟨(o.position - 1).toNat, o.quantity, _, ?_, getElem?_fates.mpr ⟨by omega, rfl⟩, ?_⟩
    · rw [hposition, sub_add_cancel]
      exact hparse
    · rw [hposition, sub_add_cancel, Account.time, hposition]
      exact carries_of_observation document knownAt hperiod hread ho
  · intro i f hf
    obtain ⟨hi, rfl⟩ := getElem?_fates.mp hf
    rcases fate_cases document knownAt series (i + 1) with ⟨o, ho, hp, -⟩ | ⟨hnone, hfate⟩
    · obtain ⟨⟨node, hnode, hparse⟩, -, -, -⟩ := hread.observed o ho
      have hcarries := carries_of_observation document knownAt hperiod hread ho
      rw [hp, add_sub_cancel_right] at hcarries
      exact Or.inl ⟨node, hnode, o.quantity, hp ▸ hparse, hcarries⟩
    · refine Or.inr ⟨?_, _, hfate, hperiod.zone, hperiod.productionType, hperiod.direction,
        (moment_place hread hi).1, rfl⟩
      intro node hnode quantity hparse
      obtain ⟨o, ho, hparse'⟩ := hread.complete node hnode
      rw [hparse] at hparse'
      injection hparse' with heq
      exact hnone o ho (congrArg Prod.fst heq).symm
  · intro p
    rw [missing_iff_absent hread p, mem_positions]
    constructor
    · rintro ⟨hp, gap, hgap⟩
      have hi : (((p - 1).toNat : Nat) : Int) + 1 = p := by omega
      exact ⟨(p - 1).toNat, gap, hi.symm, getElem?_fates.mpr ⟨by omega, by rw [hi, hgap]⟩⟩
    · rintro ⟨i, gap, rfl, hf⟩
      obtain ⟨hi, hgap⟩ := getElem?_fates.mp hf
      exact ⟨by omega, gap, hgap.symm⟩

/-- The gate over all the series, one account for each. -/
theorem accounts_of_series (document : Document) (knownAt : DateTime)
    {ps : List (SeriesState × Element)} {all : List GenerationSeries}
    (h : List.Forall₂ (ReadAs readers) ps all) : ∃ accounts : List Account,
      accounts.map (fun a => (a.state, a.period)) = ps ∧ accounts.map Account.series = all ∧
      (∀ a ∈ accounts, a.Exact readers knownAt) ∧
      ∀ result, all.foldlM (gateSeries document knownAt) result =
        .ok (result.append (accounts.flatMap Account.fates)) := by
  induction h with
  | nil => exact ⟨[], rfl, rfl, by simp, fun result => by rw [List.flatMap_nil, append_nil]; rfl⟩
  | @cons p series ps all hperiod _ ih =>
      obtain ⟨n, hread⟩ := hperiod.read
      obtain ⟨accounts, hperiods, hseries, hexact, hfold⟩ := ih
      refine ⟨⟨p.1, p.2, series, (positions n).map (fate document knownAt series)⟩ :: accounts,
        by rw [List.map_cons, hperiods], by rw [List.map_cons, hseries], ?_, fun result => ?_⟩
      · intro a ha
        rcases List.mem_cons.mp ha with rfl | ha
        · exact exact_of_read hperiod hread
        · exact hexact a ha
      · rw [List.foldlM_cons, gateSeries_eq hread, List.flatMap_cons, ← append_append]
        exact hfold _

/-- Every position of an accepted document comes to one record, one violation
or one gap, its own, and the gate returns them all. -/
theorem positions_accounted {root : Element} (h : parseGeneration readers root = .ok document)
    (knownAt : DateTime) : ∃ accounts : List Account,
      accounts.map (fun a => (a.state, a.period)) = periods root ∧
      accounts.map Account.series = document.series ∧
      (∀ a ∈ accounts, a.Exact readers knownAt) ∧
      applyGate document knownAt = .ok (GateResult.ofFates (accounts.flatMap Account.fates)) ∧
      (GateResult.ofFates (accounts.flatMap Account.fates)).total =
        (accounts.map fun a => a.fates.length).sum := by
  obtain ⟨accounts, hperiods, hseries, hexact, hfold⟩ :=
    accounts_of_series document knownAt (parseGeneration_ok h)
  refine ⟨accounts, hperiods, hseries, hexact, hfold _, ?_⟩
  rw [total_ofFates, List.length_flatMap]

end Accounts

/-- An hour of generation in quarters: the third quarter comes before the
first, and the other two have no Point. -/
def hourPeriod : Element :=
  let leaf := fun tag text => Element.mk tag (some text) []
  .mk "Period" none
    [.mk "timeInterval" none [leaf "start" "2026-08-26T12:00Z", leaf "end" "2026-08-26T13:00Z"],
      leaf "resolution" "PT15M",
      .mk "Point" none [leaf "position" "3", leaf "quantity" "200"],
      .mk "Point" none [leaf "position" "1", leaf "quantity" "100"]]

/-- A document of that hour of French nuclear generation, a curve of type A03. -/
def hourElement : Element :=
  let leaf := fun tag text => Element.mk tag (some text) []
  .mk "GL_MarketDocument" none
    [leaf "mRID" "d1", leaf "createdDateTime" "2026-08-26T13:00Z",
      .mk "TimeSeries" none
        [leaf "inBiddingZone_Domain.mRID" "10YFR-RTE------C",
          leaf "quantity_Measure_Unit.name" "MAW", leaf "curveType" "A03",
          .mk "MktPSRType" none [leaf "psrType" "B14"], hourPeriod]]

/-- The readings of its texts. -/
def hourReaders : Readers where
  int text :=
    if text = "0" then .ok 0
    else if text = "1" then .ok 1
    else if text = "3" then .ok 3
    else raise .ValueError [.repr text]
  decimal text :=
    if text = "100" then .ok (.finite false 100 0)
    else if text = "200" then .ok (.finite false 200 0)
    else raise .InvalidOperation [.repr text]
  datetime text :=
    if text = "2026-08-26T12:00Z" then .ok ⟨63923428800000000, some 0, by decide⟩
    else if text = "2026-08-26T13:00Z" then .ok ⟨63923432400000000, some 0, by decide⟩
    else raise .ValueError [.repr text]
  date text := raise .ValueError [.repr text]

/-- What it is read as. -/
def hourDocument : Document where
  mrid := "d1"
  revisionNumber := 0
  documentType := ""
  processType := ""
  createdAt := ⟨63923432400000000, by decide⟩
  series := [{
    zone := "10YFR-RTE------C"
    productionType := "B14"
    direction := .generation
    unit := "MAW"
    resolution := 15 * MINUTE
    intervalStart := ⟨63923428800000000, by decide⟩
    intervalEnd := ⟨63923432400000000, by decide⟩
    observations := [⟨⟨63923428800000000, by decide⟩, 1, .finite false 100 0⟩,
      ⟨⟨63923430600000000, by decide⟩, 3, .finite false 200 0⟩]
    missingPositions := [2, 4] }]

theorem hourDocument_read : parseGeneration hourReaders hourElement = .ok hourDocument := by
  rfl

/-- Four quarters: two records and two gaps. -/
theorem positions_accounted_hour : ∃ accounts : List Account,
    accounts.map (fun a => (a.state, a.period)) = periods hourElement ∧
    accounts.map Account.series = hourDocument.series ∧
    (∀ a ∈ accounts, a.Exact hourReaders hourDocument.createdAt.toDateTime) ∧
    applyGate hourDocument hourDocument.createdAt.toDateTime =
      .ok (GateResult.ofFates (accounts.flatMap Account.fates)) ∧
    (GateResult.ofFates (accounts.flatMap Account.fates)).total =
      (accounts.map fun a => a.fates.length).sum :=
  positions_accounted hourDocument_read hourDocument.createdAt.toDateTime

/-! ## Variable-block curves

`curveType` is not read. Where a curve of type A03 leaves out the positions
that repeat the value before them, a position without a Point is missing here
like any other. -/

/-- The Period has a Point for this position, with this quantity. -/
def PointAt (readers : Readers) (period : Element) (p : Int) (quantity : Decimal) : Prop :=
  ∃ node ∈ points period, parsePoint readers node = .ok (p, quantity)

/-- The step function the Points encode: at `p`, the quantity of the last Point
that is not after it. -/
def StepValue (readers : Readers) (period : Element) (p : Int) (quantity : Decimal) : Prop :=
  ∃ p' ≤ p, PointAt readers period p' quantity ∧
    ∀ p'' quantity', PointAt readers period p'' quantity' → p'' ≤ p → p'' ≤ p'

def GenerationSeries.Carries (series : GenerationSeries) (p : Int) (quantity : Decimal) : Prop :=
  ∃ o ∈ series.observations, o.position = p ∧ o.quantity = quantity

/-- `(interval_end - interval_start) / resolution`. -/
def GenerationSeries.expected (series : GenerationSeries) : Int :=
  (series.intervalEnd.micros - series.intervalStart.micros) / series.resolution

/-- From the first Point to the end of the interval, the series carries the
step function and no position is missing. -/
def ReadAsStep (readers : Readers) (period : Element) (series : GenerationSeries) : Prop :=
  ∀ p ≤ series.expected, ∀ quantity, StepValue readers period p quantity →
    series.Carries p quantity ∧ p ∉ series.missingPositions

/-- The curve type a TimeSeries declares. -/
def curveType (node : Element) : Option String :=
  (node.children.find? fun child => localName child.tag = "curveType").map Element.stripped

/-- Every Period of a curve of type A03 is read as its step function. -/
def StepReading (readers : Readers) (root : Element) : Prop :=
  ∀ node ∈ root.children, localName node.tag = "TimeSeries" → curveType node = some "A03" →
    ∀ all, parseSeries readers node = .ok all → List.Forall₂ (ReadAsStep readers)
      (node.children.filter fun child => localName child.tag = "Period") all

section Curves

variable {readers : Readers} {period : Element} {series : GenerationSeries} {n : Nat} {p : Int}

theorem carries_iff (hread : PeriodRead readers period series n) {quantity : Decimal} :
    series.Carries p quantity ↔ PointAt readers period p quantity := by
  constructor
  · rintro ⟨o, ho, rfl, rfl⟩
    exact (hread.observed o ho).1
  · rintro ⟨node, hnode, hparse⟩
    obtain ⟨o, ho, hparse'⟩ := hread.complete node hnode
    rw [hparse'] at hparse
    injection hparse with heq
    exact ⟨o, ho, congrArg Prod.fst heq, congrArg Prod.snd heq⟩

theorem missing_iff (hread : PeriodRead readers period series n) (hp : p ∈ positions n) :
    p ∈ series.missingPositions ↔ ¬ ∃ quantity, PointAt readers period p quantity := by
  rw [hread.missing, List.mem_filter, Bool.not_eq_true', List.any_eq_false]
  constructor
  · rintro ⟨-, hnone⟩ ⟨quantity, hpoint⟩
    obtain ⟨o, ho, hop, -⟩ := (carries_iff hread).mpr hpoint
    exact hnone o ho (by simpa using hop)
  · intro hnone
    refine ⟨hp, fun o ho hop => hnone ⟨o.quantity, ?_⟩⟩
    exact (carries_iff hread).mp ⟨o, ho, by simpa using hop, rfl⟩

theorem expected_eq (hread : PeriodRead readers period series n) : series.expected = n := by
  unfold GenerationSeries.expected
  rw [← hread.spans]
  exact Int.mul_ediv_cancel _ hread.resolution_ok.1.ne'

/-- A step value stands at a position of the Period. -/
theorem StepValue.mem (hread : PeriodRead readers period series n) {quantity : Decimal}
    (h : StepValue readers period p quantity) (hp : p ≤ series.expected) : p ∈ positions n := by
  obtain ⟨p', hle, hpoint, -⟩ := h
  obtain ⟨o, ho, rfl, -⟩ := (carries_iff hread).mpr hpoint
  have hge := (hread.observed o ho).2.1
  rw [expected_eq hread] at hp
  exact mem_positions.mpr ⟨by omega, hp⟩

theorem readAsStep_iff (hread : PeriodRead readers period series n) :
    ReadAsStep readers period series ↔ ∀ p ≤ series.expected,
      (∃ quantity, StepValue readers period p quantity) → p ∉ series.missingPositions := by
  constructor
  · rintro h p hp ⟨quantity, hstep⟩
    exact (h p hp quantity hstep).2
  · intro h p hp quantity hstep
    have hpresent := h p hp ⟨quantity, hstep⟩
    refine ⟨?_, hpresent⟩
    rw [missing_iff hread (hstep.mem hread hp), not_not] at hpresent
    -- with a Point at `p`, the last one not after `p` is that one
    obtain ⟨quantity', hpoint'⟩ := hpresent
    obtain ⟨p', hle, hpoint, hlast⟩ := hstep
    obtain rfl : p' = p := le_antisymm hle (hlast p quantity' hpoint' le_rfl)
    exact (carries_iff hread).mpr hpoint

/-- A position of an accepted Period carries the quantity of its own Point, and
a position without one is missing: the Period is read as its step function
when no position after the first Point is left out. -/
theorem sparse_positions {root : Element} {document : Document}
    (h : parseGeneration readers root = .ok document) :
    List.Forall₂ (fun period series =>
      (∀ p, 1 ≤ p → p ≤ series.expected →
        (∀ quantity, series.Carries p quantity ↔ PointAt readers period.2 p quantity) ∧
        (p ∈ series.missingPositions ↔ ¬ ∃ quantity, PointAt readers period.2 p quantity)) ∧
      (ReadAsStep readers period.2 series ↔ ∀ p ≤ series.expected,
        (∃ quantity, StepValue readers period.2 p quantity) → p ∉ series.missingPositions))
      (periods root) document.series := by
  refine (parseGeneration_ok h).imp fun period series hperiod => ?_
  obtain ⟨n, hread⟩ := hperiod.read
  refine ⟨fun p hge hle => ⟨fun quantity => carries_iff hread, ?_⟩, readAsStep_iff hread⟩
  rw [expected_eq hread] at hle
  exact missing_iff hread (mem_positions.mpr ⟨hge, hle⟩)

end Curves

theorem sparse_positions_hour : List.Forall₂ (fun period series =>
    (∀ p, 1 ≤ p → p ≤ series.expected →
      (∀ quantity, series.Carries p quantity ↔ PointAt hourReaders period.2 p quantity) ∧
      (p ∈ series.missingPositions ↔ ¬ ∃ quantity, PointAt hourReaders period.2 p quantity)) ∧
    (ReadAsStep hourReaders period.2 series ↔ ∀ p ≤ series.expected,
      (∃ quantity, StepValue hourReaders period.2 p quantity) → p ∉ series.missingPositions))
    (periods hourElement) hourDocument.series :=
  sparse_positions hourDocument_read

/-- The step function of the hour still holds the first value at position 2. -/
theorem hour_step_value : StepValue hourReaders hourPeriod 2 (.finite false 100 0) := by
  refine ⟨1, by decide, ⟨_, List.mem_cons_of_mem _ List.mem_cons_self, rfl⟩, ?_⟩
  rintro p quantity ⟨node, hnode, hparse⟩ hle
  rcases List.mem_cons.mp hnode with rfl | hnode
  · -- the Point of position 3 is after it
    have hthree : parsePoint hourReaders (.mk "Point" none
        [.mk "position" (some "3") [], .mk "quantity" (some "200") []]) =
          .ok (3, .finite false 200 0) := rfl
    rw [hthree] at hparse
    cases hparse
    exact absurd hle (by decide)
  · obtain rfl := List.mem_singleton.mp hnode
    have hone : parsePoint hourReaders (.mk "Point" none
        [.mk "position" (some "1") [], .mk "quantity" (some "100") []]) =
          .ok (1, .finite false 100 0) := rfl
    rw [hone] at hparse
    cases hparse
    decide

/-- The document is accepted, and its position 2 is missing. -/
theorem hour_not_step : parseGeneration hourReaders hourElement = .ok hourDocument ∧
    ¬ StepReading hourReaders hourElement := by
  refine ⟨hourDocument_read, fun h => ?_⟩
  have hread := h _ (List.mem_cons_of_mem _ (List.mem_cons_of_mem _ List.mem_cons_self)) rfl rfl
    hourDocument.series rfl
  cases hread with
  | cons hstep _ => exact absurd (hstep 2 (by decide) _ hour_step_value).2 (by decide)

end Gridlens
