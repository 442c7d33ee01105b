import Gridlens.Clocks.Zone
import Gridlens.TimeAxis

/-!
# Wall clocks that are doubled or skipped

An instant shows a reading when the offset of its zone brings it there. A zone
that falls back shows some readings twice, one that springs forward leaves some
out, and `fold` tells the two apart (`FollowsPep495`). `assert_unambiguous` is
meant for the readings shown exactly once; `checks_iff` says when it checks
that.

A zone of transitions of either sign follows PEP 495 (`zoneOf_followsPep495`,
`zoneOf_skipped`), and so does Europe/Paris.
-/

namespace Gridlens

/-! ## Readings -/

/-- The wall clock says `wall` at this UTC instant. -/
def ZoneInfo.Shows (zone : ZoneInfo) (u wall : Int) : Prop := u + zone.fromutc u = wall

instance (zone : ZoneInfo) (u wall : Int) : Decidable (zone.Shows u wall) :=
  inferInstanceAs (Decidable (u + zone.fromutc u = wall))

/-- `utcoffset` in the terms of PEP 495: of the instants that show a reading,
`fold` 0 stands for the first and `fold` 1 for the last. -/
structure ZoneInfo.FollowsPep495 (zone : ZoneInfo) : Prop where
  first : ∀ {u wall}, zone.Shows u wall →
    IsLeast { v | zone.Shows v wall } (wall - zone.utcoffset wall false)
  last : ∀ {u wall}, zone.Shows u wall →
    IsGreatest { v | zone.Shows v wall } (wall - zone.utcoffset wall true)

/-- `assert_unambiguous` returns for this reading if one instant shows it, and
raises `AmbiguousLocalTime` if none or several do. -/
structure ZoneInfo.Checks (zone : ZoneInfo) (wall : Int) (fold : Bool) : Prop where
  returns : assertUnambiguous ⟨wall, fold, some zone⟩ = .ok () ↔ ∃! u, zone.Shows u wall
  raises : (¬ ∃! u, zone.Shows u wall) →
    ∃ message, assertUnambiguous ⟨wall, fold, some zone⟩ = raise .AmbiguousLocalTime message

/-- Two instants show the reading. -/
def ZoneInfo.Doubled (zone : ZoneInfo) (wall : Int) : Prop :=
  ∃ u v, u ≠ v ∧ zone.Shows u wall ∧ zone.Shows v wall

/-- `astimezone` there and back stays within the years a `datetime` has. -/
def ZoneInfo.RoundTrips (zone : ZoneInfo) (wall : Int) (fold : Bool) : Prop :=
  WallInRange (wall - zone.utcoffset wall fold) ∧
    WallInRange (wall - zone.utcoffset wall fold +
      zone.fromutc (wall - zone.utcoffset wall fold))

section Check

variable {zone : ZoneInfo} {wall : Int} {fold : Bool}

/-- Shown once is shown, and not doubled. -/
theorem existsUnique_shows_iff :
    (∃! u, zone.Shows u wall) ↔ (∃ u, zone.Shows u wall) ∧ ¬ zone.Doubled wall := by
  constructor
  · rintro ⟨u, hu, honly⟩
    refine ⟨⟨u, hu⟩, ?_⟩
    rintro ⟨v, v', hne, hv, hv'⟩
    exact hne ((honly v hv).trans (honly v' hv').symm)
  · rintro ⟨⟨u, hu⟩, honce⟩
    refine ⟨u, hu, fun v hv => ?_⟩
    by_contra hne
    exact honce ⟨v, u, hne, hv, hu⟩

/-- Outside of the years a `datetime` has, another exception is raised. -/
theorem assertUnambiguous_outside (h : ¬ zone.RoundTrips wall fold) :
    assertUnambiguous ⟨wall, fold, some zone⟩ =
      raise .OverflowError [.text "date value out of range"] := by
  unfold assertUnambiguous toUtc Instant.ofMicros
  simp only
  by_cases hutc : WallInRange (wall - zone.utcoffset wall fold)
  · have hback : ¬ WallInRange (wall - zone.utcoffset wall fold +
        zone.fromutc (wall - zone.utcoffset wall fold)) := fun hback => h ⟨hutc, hback⟩
    rw [dif_pos hutc, ok_bind, dif_neg hback]
    rfl
  · rw [dif_neg hutc]
    rfl

/-- Inside, the two checks are made. -/
theorem assertUnambiguous_inside (h : zone.RoundTrips wall fold) :
    assertUnambiguous ⟨wall, fold, some zone⟩ =
      if zone.Shows (wall - zone.utcoffset wall fold) wall then
        if zone.utcoffset wall fold ≠ zone.utcoffset wall true then
          raise .AmbiguousLocalTime
            [.isoformat wall (zone.utcoffset wall fold), .text " happens twice"]
        else .ok ()
      else raise .AmbiguousLocalTime
        [.isoformat wall (zone.utcoffset wall fold), .text " does not exist"] := by
  unfold assertUnambiguous toUtc Instant.ofMicros
  simp only
  rw [dif_pos h.1, ok_bind, dif_pos h.2, ok_bind]
  by_cases hshows : zone.Shows (wall - zone.utcoffset wall fold) wall
  · have hback : wall - zone.utcoffset wall fold +
        zone.fromutc (wall - zone.utcoffset wall fold) = wall := hshows
    rw [if_neg (not_not.mpr hback), if_pos hshows]
  · have hback : wall - zone.utcoffset wall fold +
        zone.fromutc (wall - zone.utcoffset wall fold) ≠ wall := hshows
    rw [if_pos hback, if_neg hshows]
    rfl

theorem raise_ambiguous_ne {message : List Piece} :
    (raise .AmbiguousLocalTime message : Py Unit) ≠ .ok () := nofun

/-- A reading no instant shows is refused. -/
theorem checks_skipped (h : zone.RoundTrips wall fold) (hskipped : ¬ ∃ u, zone.Shows u wall) :
    zone.Checks wall fold := by
  have hraise := assertUnambiguous_inside h
  rw [if_neg fun hshows => hskipped ⟨_, hshows⟩] at hraise
  refine ⟨?_, fun _ => ⟨_, hraise⟩⟩
  rw [hraise]
  exact iff_of_false raise_ambiguous_ne fun hunique => hskipped hunique.exists

/-- One that is shown comes back from UTC. -/
theorem assertUnambiguous_shown (hzone : zone.FollowsPep495) (h : zone.RoundTrips wall fold)
    {u : Int} (hu : zone.Shows u wall) : assertUnambiguous ⟨wall, fold, some zone⟩ =
      if zone.utcoffset wall fold ≠ zone.utcoffset wall true then
        raise .AmbiguousLocalTime
          [.isoformat wall (zone.utcoffset wall fold), .text " happens twice"]
      else .ok () := by
  have hshows : zone.Shows (wall - zone.utcoffset wall fold) wall := by
    cases fold with
    | false => exact (hzone.first hu).1
    | true => exact (hzone.last hu).1
  rw [assertUnambiguous_inside h, if_pos hshows]

/-- The first and the last instant of a reading differ exactly if it is doubled. -/
theorem utcoffset_ne_iff (hzone : zone.FollowsPep495) {u : Int} (hu : zone.Shows u wall) :
    zone.utcoffset wall false ≠ zone.utcoffset wall true ↔ zone.Doubled wall := by
  have hfirst := hzone.first hu
  have hlast := hzone.last hu
  constructor
  · intro hne
    exact ⟨_, _, fun heq => hne (by omega), hfirst.1, hlast.1⟩
  · rintro ⟨v, v', hne, hv, hv'⟩ heq
    have hv₁ : wall - zone.utcoffset wall false ≤ v := hfirst.2 hv
    have hv₂ : v ≤ wall - zone.utcoffset wall true := hlast.2 hv
    have hv₁' : wall - zone.utcoffset wall false ≤ v' := hfirst.2 hv'
    have hv₂' : v' ≤ wall - zone.utcoffset wall true := hlast.2 hv'
    omega

/-- With `fold` 0 the second check finds every doubled reading. -/
theorem checks_first (hzone : zone.FollowsPep495) (h : zone.RoundTrips wall false) {u : Int}
    (hu : zone.Shows u wall) : zone.Checks wall false := by
  have hcheck := assertUnambiguous_shown hzone h hu
  have hne := utcoffset_ne_iff hzone hu
  by_cases hdoubled : zone.Doubled wall
  · rw [if_pos (hne.mpr hdoubled)] at hcheck
    refine ⟨?_, fun _ => ⟨_, hcheck⟩⟩
    rw [hcheck, existsUnique_shows_iff]
    exact iff_of_false raise_ambiguous_ne fun honce => honce.2 hdoubled
  · rw [if_neg fun hdiffer => hdoubled (hne.mp hdiffer)] at hcheck
    have hunique := existsUnique_shows_iff.mpr ⟨⟨u, hu⟩, hdoubled⟩
    refine ⟨?_, fun hnot => absurd hunique hnot⟩
    rw [hcheck]
    exact iff_of_true rfl hunique

/-- With `fold` 1 it compares an offset with itself. -/
theorem checks_last_iff (hzone : zone.FollowsPep495) (h : zone.RoundTrips wall true) {u : Int}
    (hu : zone.Shows u wall) : zone.Checks wall true ↔ ¬ zone.Doubled wall := by
  have hcheck := assertUnambiguous_shown hzone h hu
  rw [if_neg (not_not.mpr rfl)] at hcheck
  constructor
  · intro hchecks
    exact (existsUnique_shows_iff.mp (hchecks.returns.mp hcheck)).2
  · intro honce
    have hunique := existsUnique_shows_iff.mpr ⟨⟨u, hu⟩, honce⟩
    refine ⟨?_, fun hnot => absurd hunique hnot⟩
    rw [hcheck]
    exact iff_of_true rfl hunique

theorem not_checks_outside (h : ¬ zone.RoundTrips wall fold) : ¬ zone.Checks wall fold := by
  intro hchecks
  have hraise := assertUnambiguous_outside h
  by_cases hunique : ∃! u, zone.Shows u wall
  · have hok := hchecks.returns.mpr hunique
    rw [hraise] at hok
    cases hok
  · rcases hchecks.raises hunique with ⟨message, hambiguous⟩
    rw [hraise] at hambiguous
    cases hambiguous

end Check

/-- `assert_unambiguous` tells the readings shown once from the others exactly
where `astimezone` stays within the years there are and the reading is not the
second one of two. -/
theorem checks_iff {zone : ZoneInfo} (hzone : zone.FollowsPep495) (wall : Int) (fold : Bool) :
    zone.Checks wall fold ↔ zone.RoundTrips wall fold ∧ ¬ (fold = true ∧ zone.Doubled wall) := by
  by_cases h : zone.RoundTrips wall fold
  · rw [and_iff_right h]
    by_cases hshown : ∃ u, zone.Shows u wall
    · rcases hshown with ⟨u, hu⟩
      cases fold with
      | false => exact iff_of_true (checks_first hzone h hu) fun hlast => Bool.false_ne_true hlast.1
      | true =>
          rw [checks_last_iff hzone h hu]
          simp
    · refine iff_of_true (checks_skipped h hshown) ?_
      rintro ⟨-, u, -, -, hu, -⟩
      exact hshown ⟨u, hu⟩
  · exact iff_of_false (not_checks_outside h) fun hboth => h hboth.1

/-! ## Zones of transitions -/

/-- The `tzinfo` of an offset and its transitions. -/
def zoneOf (zone : Clocks.Zone Int) : ZoneInfo := ⟨zone.offsetAt, zone.utcoffset⟩

theorem zoneOf_followsPep495 (zone : Clocks.Zone Int) : (zoneOf zone).FollowsPep495 :=
  ⟨fun h => Clocks.isLeast_first h, fun h => Clocks.isGreatest_last h⟩

/-- A reading that no instant shows has the offsets on either side of the
transition that skips it. -/
theorem zoneOf_skipped (zone : Clocks.Zone Int) {wall : Int} (fold : Bool)
    (h : ¬ ∃ u, (zoneOf zone).Shows u wall) : ∃ before after,
      Clocks.skippedFrom zone.initial zone.transitions wall = some (before, after) ∧
        (zoneOf zone).utcoffset wall fold = if fold then after else before := by
  have hnone : zone.instants wall = [] := by
    refine List.eq_nil_iff_forall_not_mem.mpr fun u hu => ?_
    exact h ⟨u, Clocks.mem_instants.mp hu⟩
  rcases Clocks.shown_or_skipped zone wall with hshown | ⟨⟨before, after⟩, hskip⟩
  · exact absurd hshown h
  · refine ⟨before, after, hskip, ?_⟩
    show zone.utcoffset wall fold = _
    unfold Clocks.Zone.utcoffset
    rw [hnone, hskip]
    cases fold <;> rfl

/-! ## Europe/Paris -/

/-- An instant that shows a reading in Paris is one of two. -/
theorem paris_shows {u wall : Int} (h : PARIS.Shows u wall) :
    u = wall - HOUR ∨ u = wall - 2 * HOUR := by
  have hu : u + parisOffset u = wall := h
  rcases parisOffset_cases u with hoffset | hoffset
  · left
    omega
  · right
    omega

theorem PARIS_followsPep495 : PARIS.FollowsPep495 where
  first := by
    intro u wall hu
    have hoffset : PARIS.utcoffset wall false = parisOffset (wall - 2 * HOUR) := rfl
    rw [hoffset]
    rcases parisOffset_cases (wall - 2 * HOUR) with hwinter | hsummer
    · -- then the earlier of the two shows another reading
      have hlate : ∀ v, PARIS.Shows v wall → v = wall - HOUR := by
        intro v hv
        rcases paris_shows hv with hlate | rfl
        · exact hlate
        · have hv : wall - 2 * HOUR + parisOffset (wall - 2 * HOUR) = wall := hv
          rw [hwinter, HOUR_eq] at hv
          omega
      rw [hwinter]
      refine ⟨?_, fun v hv => (hlate v hv).ge⟩
      rw [← hlate u hu]
      exact hu
    · rw [hsummer]
      refine ⟨?_, fun v hv => ?_⟩
      · show wall - 2 * HOUR + parisOffset (wall - 2 * HOUR) = wall
        rw [hsummer]
        omega
      · rcases paris_shows hv with rfl | rfl
        · rw [HOUR_eq]
          omega
        · exact le_refl _
  last := by
    intro u wall hu
    have hoffset : PARIS.utcoffset wall true = parisOffset (wall - HOUR) := rfl
    rw [hoffset]
    rcases parisOffset_cases (wall - HOUR) with hwinter | hsummer
    · rw [hwinter]
      refine ⟨?_, fun v hv => ?_⟩
      · show wall - HOUR + parisOffset (wall - HOUR) = wall
        rw [hwinter]
        omega
      · rcases paris_shows hv with rfl | rfl
        · exact le_refl _
        · rw [HOUR_eq]
          omega
    · -- then the later of the two shows another reading
      have hearly : ∀ v, PARIS.Shows v wall → v = wall - 2 * HOUR := by
        intro v hv
        rcases paris_shows hv with rfl | hearly
        · have hv : wall - HOUR + parisOffset (wall - HOUR) = wall := hv
          rw [hsummer, HOUR_eq] at hv
          omega
        · exact hearly
      rw [hsummer]
      refine ⟨?_, fun v hv => (hearly v hv).le⟩
      rw [← hearly u hu]
      exact hu

/-- Half past two on the Sunday of October when the clocks go back. -/
abbrev octoberReading : Int := 739914 * DAY + 2 * HOUR + 30 * MINUTE

theorem checks_october : PARIS.Checks octoberReading false :=
  (checks_iff PARIS_followsPep495 octoberReading false).mpr ⟨⟨by decide, by decide⟩, nofun⟩

/-- The second time it is half past two, nothing is raised. -/
theorem second_reading_returns :
    assertUnambiguous ⟨octoberReading, true, some PARIS⟩ = .ok () ∧
      PARIS.Doubled octoberReading ∧ ¬ PARIS.Checks octoberReading true := by
  have hdoubled : PARIS.Doubled octoberReading :=
    ⟨octoberReading - 2 * HOUR, octoberReading - HOUR, by decide, by decide, by decide⟩
  have hreturns : assertUnambiguous ⟨octoberReading, true, some PARIS⟩ = .ok () := by decide
  exact ⟨hreturns, hdoubled, fun hchecks =>
    (existsUnique_shows_iff.mp (hchecks.returns.mp hreturns)).2 hdoubled⟩

end Gridlens
