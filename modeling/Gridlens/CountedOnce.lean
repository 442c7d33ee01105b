import Gridlens.Bitemporal.Overlay
import Gridlens.Effects.Program
import Gridlens.Positions
import Gridlens.RteNet

/-!
# Counting every instant once

`daily_generation_mix` multiplies the power of each current row by its length
and adds up, so an instant counts once only where the current rows of a type
and direction do not overlap. The key of a version has no resolution, and gold
does not look at the source: a revision to another resolution replaces the row
of its own start and no other, and two sources are never compared.
`counted_once_iff` says which runs keep the rows apart.
-/

namespace Gridlens

open Sql Bitemporal

/-! ## Stretches of time -/

/-- What energy is summed over: one direction of a type. -/
structure Series where
  zone : String
  productionType : String
  direction : String
deriving DecidableEq, Repr

namespace Row

def series (r : Row) : Series := ⟨r.zone, r.productionType, r.direction⟩

/-- `valid_time + resolution_minutes`. -/
def stop (r : Row) : Int := r.validTime + r.resolutionMinutes * MINUTE

/-- The instant lies in `[valid_time, valid_time + resolution_minutes)`. -/
def Covers (r : Row) (u : Int) : Prop := r.validTime ≤ u ∧ u < r.stop

/-- Rows of one series do not overlap. -/
def Apart (r s : Row) : Prop :=
  r.series = s.series → r.stop ≤ s.validTime ∨ s.stop ≤ r.validTime

instance (r : Row) (u : Int) : Decidable (r.Covers u) := inferInstanceAs (Decidable (_ ∧ _))

instance (r s : Row) : Decidable (r.Apart s) := inferInstanceAs (Decidable (_ → _))

theorem Apart.symm {r s : Row} (h : r.Apart s) : s.Apart r := fun hseries => (h hseries.symm).symm

/-- No instant lies in two stretches that do not overlap. -/
theorem Apart.not_covers {r s : Row} {u : Int} (h : r.Apart s) (hseries : r.series = s.series)
    (hr : r.Covers u) : ¬ s.Covers u := by
  intro hs
  obtain ⟨hfrom, hto⟩ := hr
  obtain ⟨hfrom', hto'⟩ := hs
  rcases h hseries with hle | hle <;> omega

/-- A key gives the series and the start. -/
theorem series_of_key {r s : Row} (h : r.key = s.key) :
    r.series = s.series ∧ r.validTime = s.validTime := by
  simp only [key, SeriesKey.mk.injEq] at h
  simp only [series, Series.mk.injEq]
  exact ⟨h.2.imp_right fun h => ⟨h.1, h.2.1⟩, h.2.2.2.2⟩

end Row

/-- The current rows of a series do not overlap: at no instant is there more
than one of them. -/
structure CountedOnce (current : List Version) : Prop where
  disjoint : current.Pairwise fun v w => v.row.Apart w.row.toRow
  once : ∀ series u,
    (current.filter fun v => v.row.series = series ∧ v.row.Covers u).length ≤ 1

section Current

variable {T : List Row}

theorem once_of_disjoint {current : List Version}
    (h : current.Pairwise fun v w => v.row.Apart w.row.toRow) (series : Series) (u : Int) :
    (current.filter fun v => v.row.series = series ∧ v.row.Covers u).length ≤ 1 := by
  have hsub := h.filter fun v => v.row.series = series ∧ v.row.Covers u
  have hmem : ∀ v ∈ current.filter (fun v => v.row.series = series ∧ v.row.Covers u),
      v.row.series = series ∧ v.row.Covers u := fun v hv => by
    simpa using (List.mem_filter.mp hv).2
  generalize current.filter (fun v => v.row.series = series ∧ v.row.Covers u) = l at hsub hmem
  match l with
  | [] => simp
  | [_] => simp
  | v :: w :: _ =>
      obtain ⟨hv, hcovers⟩ := hmem v (by simp)
      obtain ⟨hw, hcovers'⟩ := hmem w (by simp)
      have hapart := List.rel_of_pairwise_cons hsub List.mem_cons_self
      exact absurd hcovers' (hapart.not_covers (hv.trans hw.symm) hcovers)

/-- What is current is what the merge compares the next batch with. -/
theorem countedOnce_iff (hT : Identified T) :
    CountedOnce (generationCurrent (versions T)) ↔ PairwiseHeld Row.Apart (newestHeld T) := by
  have hperm := (map_row_current_perm hT).map StgRow.toRow
  have hrows : ((newestRows T).map stgRow).map StgRow.toRow = newestRows T := by
    rw [List.map_map]
    exact List.map_id _
  rw [hrows, List.map_map] at hperm
  have hnodup : (newestRows T).Nodup := (List.Nodup.of_map _ hT).filter _
  have hsymm : ∀ {a b : Row}, a.Apart b → b.Apart a := Row.Apart.symm
  have hdisjoint : (generationCurrent (versions T)).Pairwise
      (fun v w => v.row.Apart w.row.toRow) ↔ (newestRows T).Pairwise Row.Apart := by
    rw [← hperm.pairwise_iff hsymm, List.pairwise_map]
    exact Iff.rfl
  have hkey : ∀ {k : SeriesKey} {a : Row}, newestHeld T k = some a → a.key = k ∧ a ∈ newestRows T := by
    intro k a ha
    have hk := ((newestHeld_eq_some_iff hT).mp ha).1.2
    exact ⟨hk, (mem_newestRows hT).mpr (hk ▸ ha)⟩
  constructor
  · intro h k l hne a ha b hb
    have hpair := hdisjoint.mp h.disjoint
    obtain ⟨hak, hamem⟩ := hkey ha
    obtain ⟨hbl, hbmem⟩ := hkey hb
    have : Std.Symm Row.Apart := ⟨fun _ _ => Row.Apart.symm⟩
    refine hpair.forall hamem hbmem ?_
    rintro rfl
    exact hne (hak.symm.trans hbl)
  · intro h
    have hpair : (newestRows T).Pairwise Row.Apart := by
      refine hnodup.pairwise_of_forall_ne fun a ha b hb hab => ?_
      have hnewa := (mem_newestRows hT).mp ha
      have hnewb := (mem_newestRows hT).mp hb
      refine h a.key b.key ?_ a hnewa b hnewb
      intro hk
      rw [hk, hnewb] at hnewa
      exact hab (Option.some.inj hnewa).symm
    have hcurrent := hdisjoint.mpr hpair
    exact ⟨hcurrent, once_of_disjoint hcurrent⟩

end Current

/-! ## What one run changes -/

section Step

variable {runs : List Run} {R : Run} {T : List Row}

/-- The rows of a run that become the newest of their keys. -/
def revisions (T : List Row) (R : Run) (k : SeriesKey) : Option Row :=
  (R.row? k).filter fun s => ¬ Unchanged T s

theorem revisions_eq_some_iff {k : SeriesKey} {s : Row} :
    revisions T R k = some s ↔ s ∈ R.batch ∧ s.key = k ∧ ¬ Unchanged T s := by
  unfold revisions
  rw [Option.filter_eq_some_iff, Run.row?_eq_some, decide_eq_true_eq, and_assoc]

theorem revisions_eq_none_iff {k : SeriesKey} :
    revisions T R k = none ↔ ∀ s ∈ R.batch, s.key = k → Unchanged T s := by
  rw [Option.eq_none_iff_forall_ne_some]
  constructor
  · intro h s hs hk
    by_contra hchanged
    exact h s (revisions_eq_some_iff.mpr ⟨hs, hk, hchanged⟩)
  · intro h s hs
    obtain ⟨hmem, hk, hchanged⟩ := revisions_eq_some_iff.mp hs
    exact hchanged (h s hmem hk)

/-- A run stamped after all others puts its revisions over what is held. -/
theorem newestHeld_land_concat (h : Increasing (runs ++ [R])) :
    newestHeld (land [] (runs ++ [R]))
      = overlay (revisions (land [] runs) R) (newestHeld (land [] runs)) := by
  have hruns : Increasing runs := h.sublist (List.sublist_append_left _ _)
  funext k
  rw [newestHeld_land h, observed_concat, overlay, newestHeld_land hruns, revisions]
  cases hrow : R.row? k with
  | none => simp
  | some s =>
      -- the newest version shows what was last observed
      have hunchanged : Unchanged (land [] runs) s ↔
          (observed runs k).getLast?.map Row.value = some s.value := by
        rw [Unchanged, (Run.row?_eq_some.mp hrow).2, newestHeld_land hruns, getLast?_changes]
      rw [Option.toList_some, changes_concat, Option.filter_some]
      by_cases hrep : (observed runs k).getLast?.map Row.value = some s.value
      · have hsame : ¬ decide (¬ Unchanged (land [] runs) s) = true := by
          rw [decide_eq_true_eq, not_not]
          exact hunchanged.mpr hrep
        rw [if_pos hrep, if_neg hsame, List.append_nil, Option.none_or]
      · have hchanged : ¬ Unchanged (land [] runs) s := fun hs => hrep (hunchanged.mp hs)
        rw [if_neg hrep, if_pos (decide_eq_true hchanged), List.getLast?_concat]
        rfl

/-- No revision overlaps a current row of its series that the run leaves
current. -/
def Clear (T : List Row) (R : Run) : Prop :=
  ∀ s ∈ R.batch, ¬ Unchanged T s → ∀ v ∈ newestRows T,
    (∀ s' ∈ R.batch, s'.key = v.key → Unchanged T s') → s.Apart v

/-- What one run does to the invariant. -/
theorem countedOnce_concat_iff (h : Increasing (runs ++ [R])) (hbatch : R.batch.Pairwise Row.Apart)
    (honce : CountedOnce (generationCurrent (versions (land [] runs)))) :
    CountedOnce (generationCurrent (versions (land [] (runs ++ [R])))) ↔
      Clear (land [] runs) R := by
  have hT : Identified (land [] runs) := identified_land identified_nil runs
  have hbatch' : PairwiseHeld Row.Apart (revisions (land [] runs) R) := by
    intro k l hne a ha b hb
    obtain ⟨hamem, hak, -⟩ := revisions_eq_some_iff.mp ha
    obtain ⟨hbmem, hbl, -⟩ := revisions_eq_some_iff.mp hb
    have : Std.Symm Row.Apart := ⟨fun _ _ => Row.Apart.symm⟩
    refine hbatch.forall hamem hbmem ?_
    rintro rfl
    exact hne (hak.symm.trans hbl)
  rw [countedOnce_iff (identified_land identified_nil _), newestHeld_land_concat h,
    pairwiseHeld_overlay_iff (fun _ _ => Row.Apart.symm) ((countedOnce_iff hT).mp honce) hbatch']
  constructor
  · intro hclear s hs hchanged v hv hstays
    exact hclear s.key v.key (revisions_eq_none_iff.mpr hstays) s
      (revisions_eq_some_iff.mpr ⟨hs, rfl, hchanged⟩) v ((mem_newestRows hT).mp hv)
  · intro hclear k l hl s hs v hv
    obtain ⟨hmem, -, hchanged⟩ := revisions_eq_some_iff.mp hs
    have hkey : v.key = l := ((newestHeld_eq_some_iff hT).mp hv).1.2
    rw [← hkey] at hl hv
    exact hclear s hmem hchanged v ((mem_newestRows hT).mpr hv) (revisions_eq_none_iff.mp hl)

end Step

/-! ## Documents and payloads -/

/-- What a source published. -/
inductive Release where
  | document (root : Element)
  | payload (zone : BiddingZone) (json : Json)

/-- What its normaliser makes of it. -/
def Release.normalise (readers : Readers) (knownAt : DateTime) : Release → Py GateResult
  | .document root => do applyGate (← parseGeneration readers root) knownAt
  | .payload zone json => parseActualGeneration readers zone knownAt json

theorem stamped_normalise {readers : Readers} {knownAt : DateTime} {release : Release}
    {result : GateResult} (h : release.normalise readers knownAt = .ok result) :
    result.Stamped knownAt := by
  cases release with
  | document root =>
      obtain ⟨document, -, hgate⟩ := bind_eq_ok.mp h
      exact stamped_applyGate hgate
  | payload zone json =>
      intro r hr
      obtain ⟨_, _, _, _, _, htaken⟩ := taken_of_mem h hr
      exact htaken.knownAt

/-- Something a normaliser accepted, and the window it is merged over. The
periods it gives of one series do not overlap. -/
structure Landing (readers : Readers) where
  release : Release
  knownAt : DateTime
  result : GateResult
  normalised : release.normalise readers knownAt = .ok result
  window : MergeWindow
  inWindow : ∀ r ∈ result.records, window.contains r.validTime.micros = true
  apart : (result.records.map stagedRow).Pairwise Row.Apart

/-- A period has a length, so rows that do not overlap have different keys. -/
theorem identified_of_apart {records : List GenerationRecord}
    (h : (records.map stagedRow).Pairwise Row.Apart) : Identified (records.map stagedRow) := by
  have hlength : ∀ s ∈ records.map stagedRow, s.validTime < s.stop := by
    intro s hs
    obtain ⟨r, -, rfl⟩ := List.mem_map.mp hs
    have hminutes : 0 < r.resolutionMinutes := r.resolution_bounds.1
    show r.validTime.micros < r.validTime.micros + r.resolutionMinutes * 60000000
    omega
  rw [Identified, List.Nodup, List.pairwise_map]
  refine h.imp_of_mem fun {a b} ha hb hapart hidentity => ?_
  obtain ⟨hseries, htime⟩ := Row.series_of_key (congrArg Prod.fst hidentity)
  have hlength₁ := hlength a ha
  have hlength₂ := hlength b hb
  rcases hapart hseries with hle | hle <;> omega

namespace Landing

variable {readers : Readers}

/-- The run that lands it. -/
def run (l : Landing readers) : Run where
  window := l.window
  knownAt := l.knownAt.wall
  batch := l.result.records.map stagedRow
  stamped := by
    intro s hs
    obtain ⟨r, hr, rfl⟩ := List.mem_map.mp hs
    exact stamped_normalise l.normalised r hr
  inWindow := by
    intro s hs
    obtain ⟨r, hr, rfl⟩ := List.mem_map.mp hs
    exact l.inWindow r hr
  identified := identified_of_apart l.apart

end Landing

/-- The table after the landings, and what gold reads of it. -/
def tableOf {readers : Readers} (landings : List (Landing readers)) : List Row :=
  land [] (landings.map Landing.run)

def currentOf {readers : Readers} (landings : List (Landing readers)) : List Version :=
  generationCurrent (versions (tableOf landings))

/-- One landing after the other. -/
abbrev InOrder {readers : Readers} (landings : List (Landing readers)) : Prop :=
  landings.Pairwise fun l l' => l.knownAt.wall < l'.knownAt.wall

/-- Energy counts every instant once after each of the runs exactly when no run
revises a stretch of time that another key still covers. -/
theorem counted_once_iff {readers : Readers} (landings : List (Landing readers))
    (hincreasing : InOrder landings) :
    (∀ done, done <+: landings → CountedOnce (currentOf done)) ↔
      ∀ done next, done ++ [next] <+: landings → Clear (tableOf done) next.run := by
  have horder : ∀ ls, ls <+: landings → InOrder ls := fun ls hls => hincreasing.sublist hls.sublist
  have hstart : CountedOnce (currentOf ([] : List (Landing readers))) :=
    ⟨List.Pairwise.nil, fun _ _ => Nat.zero_le _⟩
  have hstep : ∀ (done : List (Landing readers)) (next : Landing readers),
      (InOrder done → CountedOnce (currentOf done)) →
      ((InOrder (done ++ [next]) → CountedOnce (currentOf (done ++ [next]))) ↔
        (InOrder (done ++ [next]) → Clear (tableOf done) next.run)) := by
    intro done next honce
    refine imp_congr_right fun hlast => ?_
    have hdone : InOrder done := hlast.sublist (List.sublist_append_left _ _)
    have hruns : Increasing (done.map Landing.run ++ [next.run]) := by
      rw [← List.map_singleton, ← List.map_append]
      exact List.pairwise_map.mpr hlast
    unfold currentOf tableOf
    rw [List.map_append, List.map_singleton]
    exact countedOnce_concat_iff hruns next.apart (honce hdone)
  -- the state is the list of the landings themselves
  have hfold : ∀ ls : List (Landing readers), ls.foldl (fun done next => done ++ [next]) [] = ls := by
    intro ls
    rw [List.foldl_append_eq_append, List.nil_append]
    exact List.flatMap_singleton' ls
  have hprefixes := @Effects.forall_prefix_iff _ _ (fun done next => done ++ [next])
    (fun ls => InOrder ls → CountedOnce (currentOf ls)) _ [] (fun _ => hstart) hstep landings
  simp only [hfold] at hprefixes
  constructor
  · intro h done next hpre
    exact hprefixes.mp (fun ls hls _ => h ls hls) done next hpre (horder _ hpre)
  · intro h done hpre
    exact hprefixes.mpr (fun ls next hls _ => h ls next hls) done hpre (horder _ hpre)

/-! ## One source at one resolution -/

/-- Two records of one series come from one source, on one grid that divides
the day. -/
def OneGrid (r s : GenerationRecord) : Prop :=
  (stagedRow r).series = (stagedRow s).series →
    r.source = s.source ∧ r.resolutionMinutes = s.resolutionMinutes ∧ r.resolutionMinutes ∣ 1440

/-- Starts on a grid that divides the day are whole steps apart. -/
theorem validTime_dvd {r : GenerationRecord} (hday : r.resolutionMinutes ∣ 1440) :
    r.resolutionMinutes * MINUTE ∣ r.validTime.micros := by
  have hboundary : r.validTime.micros % DAY % (r.resolutionMinutes * MINUTE) = 0 := r.on_boundary
  have hdvd : r.resolutionMinutes * MINUTE ∣ DAY := by
    have hminutes : DAY = 1440 * MINUTE := rfl
    rw [hminutes]
    exact Int.mul_dvd_mul_right _ hday
  rw [Int.emod_emod_of_dvd _ hdvd] at hboundary
  exact Int.dvd_of_emod_eq_zero hboundary

/-- On one grid, only a record of the same key overlaps. -/
theorem apart_of_oneGrid {r s : GenerationRecord} (hgrid : OneGrid r s)
    (hkey : (stagedRow r).key ≠ (stagedRow s).key) : (stagedRow r).Apart (stagedRow s) := by
  intro hseries
  obtain ⟨hsource, hresolution, hday⟩ := hgrid hseries
  have hr := validTime_dvd hday
  have hs : r.resolutionMinutes * MINUTE ∣ s.validTime.micros := by
    rw [hresolution] at hday ⊢
    exact validTime_dvd hday
  have hstart : r.validTime.micros ≠ s.validTime.micros := by
    intro htime
    apply hkey
    obtain ⟨hzone, htype, hdirection⟩ := (Series.mk.injEq ..).mp hseries
    exact (SeriesKey.mk.injEq ..).mpr
      ⟨congrArg Source.value hsource, hzone, htype, hdirection, htime⟩
  show r.validTime.micros + r.resolutionMinutes * MINUTE ≤ s.validTime.micros ∨
    s.validTime.micros + s.resolutionMinutes * MINUTE ≤ r.validTime.micros
  rw [← hresolution]
  have hpos : 0 < r.resolutionMinutes * MINUTE := Int.mul_pos r.resolution_bounds.1 (by decide)
  generalize r.resolutionMinutes * MINUTE = step at hr hs hpos
  rcases lt_or_gt_of_ne hstart with hlt | hgt
  · have hle := Int.le_of_dvd (by omega) (Int.dvd_sub hs hr)
    omega
  · have hle := Int.le_of_dvd (by omega) (Int.dvd_sub hr hs)
    omega

/-- While a series has one source and one resolution, nothing counts twice. -/
theorem counted_once_of_oneGrid {readers : Readers} {landings : List (Landing readers)}
    (hincreasing : InOrder landings)
    (hgrid : ∀ l ∈ landings, ∀ r ∈ l.result.records, ∀ l' ∈ landings, ∀ s ∈ l'.result.records,
      OneGrid r s) : CountedOnce (currentOf landings) := by
  induction landings using List.reverseRecOn with
  | nil => exact ⟨List.Pairwise.nil, fun _ _ => Nat.zero_le _⟩
  | append_singleton landings next ih =>
      have hbefore : ∀ l ∈ landings, l ∈ landings ++ [next] := fun l hl =>
        List.mem_append_left [next] hl
      have honce := ih (hincreasing.sublist (List.sublist_append_left _ _))
        fun l hl r hr l' hl' => hgrid l (hbefore l hl) r hr l' (hbefore l' hl')
      have hruns : Increasing (landings.map Landing.run ++ [next.run]) := by
        rw [← List.map_singleton, ← List.map_append]
        exact List.pairwise_map.mpr hincreasing
      unfold currentOf tableOf at honce ⊢
      rw [List.map_append, List.map_singleton]
      refine (countedOnce_concat_iff hruns next.apart honce).mpr ?_
      intro s hs hchanged v hv hstays
      obtain ⟨r, hr, rfl⟩ := List.mem_map.mp hs
      obtain ⟨R, hR, hmem⟩ := mem_staged.mp (subset_staged _ v (List.mem_filter.mp hv).1)
      obtain ⟨l, hl, rfl⟩ := List.mem_map.mp hR
      obtain ⟨r', hr', rfl⟩ := List.mem_map.mp hmem
      refine apart_of_oneGrid (hgrid next (by simp) r hr l (hbefore l hl) r' hr') fun hkey => ?_
      -- a row of the same key is replaced
      exact hchanged (hstays _ hs hkey)

/-! ## An hour that counts twice -/

/-- A document of the hour in the other length: one point for all of it. -/
def revisedElement : Element :=
  let leaf := fun tag text => Element.mk tag (some text) []
  .mk "GL_MarketDocument" none
    [leaf "mRID" "d1", leaf "createdDateTime" "2026-08-26T13:00Z",
      .mk "TimeSeries" none
        [leaf "inBiddingZone_Domain.mRID" "10YFR-RTE------C",
          leaf "quantity_Measure_Unit.name" "MAW",
          .mk "MktPSRType" none [leaf "psrType" "B14"],
          .mk "Period" none
            [.mk "timeInterval" none [leaf "start" "2026-08-26T12:00Z", leaf "end" "2026-08-26T13:00Z"],
              leaf "resolution" "PT60M",
              .mk "Point" none [leaf "position" "1", leaf "quantity" "200"]]]]

/-- Two quarters of the hour, as first published. -/
def quarters : Landing hourReaders where
  release := .document hourElement
  knownAt := atOne.toDateTime
  result := resultOf (Release.normalise hourReaders atOne.toDateTime (.document hourElement))
  normalised := ok_resultOf (by decide +kernel)
  window := ⟨NOON, NOON + DAY⟩
  inWindow := by decide +kernel
  apart := by decide +kernel

/-- The hour as a whole, in the other source. -/
def wholeHour : Landing hourReaders where
  release := .payload .FR (hourPayload "NUCLEAR" "200")
  knownAt := atTwo.toDateTime
  result := resultOf (Release.normalise hourReaders atTwo.toDateTime
    (.payload .FR (hourPayload "NUCLEAR" "200")))
  normalised := ok_resultOf (by decide +kernel)
  window := ⟨NOON, NOON + DAY⟩
  inWindow := by decide +kernel
  apart := by decide +kernel

/-- And in the same source, revised. -/
def revisedHour : Landing hourReaders where
  release := .document revisedElement
  knownAt := atTwo.toDateTime
  result := resultOf (Release.normalise hourReaders atTwo.toDateTime (.document revisedElement))
  normalised := ok_resultOf (by decide +kernel)
  window := ⟨NOON, NOON + DAY⟩
  inWindow := by decide +kernel
  apart := by decide +kernel

theorem counted_once_iff_quarters :
    (∀ done, done <+: [quarters, wholeHour] → CountedOnce (currentOf done)) ↔
      ∀ done next, done ++ [next] <+: [quarters, wholeHour] → Clear (tableOf done) next.run :=
  counted_once_iff [quarters, wholeHour] (by decide)

/-- The start and the length of what is current. -/
def stretches (current : List Version) : List (String × Int × Int) :=
  current.map fun v => (v.row.source, v.row.validTime, v.row.resolutionMinutes)

/-- Two hundred megawatts for an hour count as 275 megawatt hours next to the
quarters, and as 250 where the revision replaced the first of them. -/
theorem hour_counted_twice :
    (InOrder [quarters, wholeHour] ∧ ¬ CountedOnce (currentOf [quarters, wholeHour]) ∧
      stretches (currentOf [quarters, wholeHour])
        = [("entsoe", NOON, 15), ("entsoe", NOON + HOUR / 2, 15), ("rte", NOON, 60)] ∧
      (dailyGenerationMix Prod.mk (periodGenerationNet (currentOf [quarters, wholeHour]))).map
        MixRow.energyMwh = [some 275000000]) ∧
    (InOrder [quarters, revisedHour] ∧ ¬ CountedOnce (currentOf [quarters, revisedHour]) ∧
      stretches (currentOf [quarters, revisedHour])
        = [("entsoe", NOON + HOUR / 2, 15), ("entsoe", NOON, 60)] ∧
      (dailyGenerationMix Prod.mk (periodGenerationNet (currentOf [quarters, revisedHour]))).map
        MixRow.energyMwh = [some 250000000]) := by
  have hsources : ¬ (currentOf [quarters, wholeHour]).Pairwise
      fun v w => v.row.Apart w.row.toRow := by decide +kernel
  have hrevision : ¬ (currentOf [quarters, revisedHour]).Pairwise
      fun v w => v.row.Apart w.row.toRow := by decide +kernel
  refine ⟨⟨by decide, fun h => hsources h.disjoint, ?_, ?_⟩,
    ⟨by decide, fun h => hrevision h.disjoint, ?_, ?_⟩⟩
  all_goals decide +kernel

end Gridlens
