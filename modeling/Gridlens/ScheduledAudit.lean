import Gridlens.AuditVerdict
import Gridlens.Firings

/-!
# Auditing what was scheduled

Production is built between two firings and audited weeks later, with every
firing since in bronze. Each of them stamps its rows with its own moment, so a
bound between the two firings tells the rows production read from the ones it
did not (`scheduled_audit`).
-/

namespace Gridlens

open Effects

section Schedule

variable {environ : Environ} {zone : BiddingZone} {before after : List Firing}

/-- Firings add rows, each stamped with the moment of one of them. -/
theorem exists_added (hsound : ∀ f ∈ before ++ after, f.Sound environ zone) :
    ∃ added, bronze "gridlens_bronze" (fired environ (before ++ after)) =
        bronze "gridlens_bronze" (fired environ before) ++ added ∧
      ∀ r ∈ added, ∃ f ∈ after, r.knownAt = f.moment.micros := by
  induction after using List.reverseRecOn with
  | nil => exact ⟨[], by rw [List.append_nil, List.append_nil], nofun⟩
  | append_singleton after f ih =>
      rw [← List.append_assoc] at hsound ⊢
      rcases ih fun g hg => hsound g (List.mem_append_left _ hg) with ⟨added, hadded, hstamps⟩
      rcases exists_firingRun (hsound f (by simp)) (fired environ (before ++ after)) with
        ⟨R, hR, happly⟩
      refine ⟨added ++ R.batch.filter fun s =>
        ¬ Unchanged (bronze "gridlens_bronze" (fired environ (before ++ after))) s ∧
          ¬ Held (bronze "gridlens_bronze" (fired environ (before ++ after))) s, ?_, ?_⟩
      · rw [fired_concat, happly, Run.apply_eq, ← List.append_assoc, ← hadded]
      · intro r hr
        rcases List.mem_append.mp hr with hearlier | hlast
        · rcases hstamps r hearlier with ⟨g, hg, hstamp⟩
          exact ⟨g, List.mem_append_left _ hg, hstamp⟩
        · have hstamp := R.stamped r (List.mem_filter.mp hlast).1
          exact ⟨f, by simp, hstamp.trans hR.knownAt⟩

/-- A bound between two firings selects what the first ones left. -/
theorem byKnownAt_fired {bound : Int} (w : Window)
    (hsound : ∀ f ∈ before ++ after, f.Sound environ zone)
    (hbefore : ∀ f ∈ before, f.moment.micros ≤ bound)
    (hafter : ∀ f ∈ after, bound < f.moment.micros) :
    byKnownAt w bound (bronze "gridlens_bronze" (fired environ (before ++ after))) =
      atSnapshot w (bronze "gridlens_bronze" (fired environ before)) := by
  have hfirst : ∀ f ∈ [] ++ before, f.Sound environ zone := fun f hf =>
    hsound f (List.mem_append_left after hf)
  rcases exists_added hfirst with ⟨rows, hrows, hstamps⟩
  rcases exists_added hsound with ⟨added, hadded, hlater⟩
  have hnothing : bronze "gridlens_bronze" (fired environ []) = [] := rfl
  rw [hnothing, List.nil_append, List.nil_append] at hrows
  rw [hadded, hrows]
  unfold byKnownAt atSnapshot
  rw [List.filter_append]
  have hnone : added.filter (fun r => (Stamped.knownAt r).any (fun u => u ≤ bound) &&
      (Dated.column r).any w.containsTime) = [] := by
    rw [List.filter_eq_nil_iff]
    intro r hr
    rcases hlater r hr with ⟨f, hf, hstamp⟩
    have hlate : ¬ r.knownAt ≤ bound := not_le.mpr (hstamp ▸ hafter f hf)
    simp [Stamped.knownAt, hlate]
  rw [hnone, List.append_nil]
  refine List.filter_congr fun r hr => ?_
  rcases hstamps r hr with ⟨f, hf, hstamp⟩
  have hearly : r.knownAt ≤ bound := hstamp ▸ hbefore f hf
  simp [Stamped.knownAt, hearly]

/-- Where production was built from the table between two firings, and its bound
lies between their moments, an audit after any further firings finds nothing to
report: the clocks agree, and so does every table it rebuilds. -/
theorem scheduled_audit {today : Date} {w : Window} (hw : lastMonth today = .ok w) {δ : Type}
    [DecidableEq δ] (quotient : Int → Int → δ) {bound : Int} (snapshotId : Int)
    (hsound : ∀ f ∈ before ++ after, f.Sound environ zone)
    (hbefore : ∀ f ∈ before, f.moment.micros ≤ bound)
    (hafter : ∀ f ∈ after, bound < f.moment.micros) :
    (∃ c, checkClocks w snapshotId bound (bronze "gridlens_bronze" (fired environ before))
        (bronze "gridlens_bronze" (fired environ (before ++ after))) = .ok c) ∧
      differences (compare w
        (build quotient (some (w.restate bound))
          (bronze "gridlens_bronze" (fired environ (before ++ after))))
        (build quotient none (bronze "gridlens_bronze" (fired environ before)))) = [] := by
  have hselected := byKnownAt_fired w hsound hbefore hafter
  constructor
  · rw [checkClocks_ok_iff, hselected]
    exact Alike.of_perm (List.Perm.refl _)
  · have hidentified : Identified (bronze "gridlens_bronze" (fired environ before)) := by
      rcases exists_landed fun f hf => hsound f (List.mem_append_left after hf) with
        ⟨runs, -, hbronze⟩
      rw [hbronze]
      exact identified_land identified_nil runs
    have hcut : Identified (atSnapshot w (bronze "gridlens_bronze" (fired environ before))) :=
      (List.filter_sublist.map _).nodup hidentified
    have hrows : (atSnapshot w (bronze "gridlens_bronze" (fired environ before))).Perm
        (atSnapshot w (byKnownAt w bound
          (bronze "gridlens_bronze" (fired environ (before ++ after))))) := by
      rw [atSnapshot_byKnownAt, hselected]
    rcases confine_build_perm quotient hw hcut hrows with ⟨hversions, hnet, hmix⟩
    rw [differences_compare_eq_nil_iff, build_restate]
    exact ⟨Alike.of_perm hversions.symm, Alike.of_perm hnet.symm, Alike.of_perm hmix.symm⟩

end Schedule

/-- Production of the 27th, audited in September with the re-fetch of the 28th
in bronze. -/
theorem scheduled_audit_september :
    (∃ c, checkClocks august 1 (739856 * DAY)
        (bronze "gridlens_bronze" (fired smallEnviron [ingestFiring]))
        (bronze "gridlens_bronze" (fired smallEnviron ([ingestFiring] ++ [refetchFiring]))) =
          .ok c) ∧
      differences (compare august
        (build Prod.mk (some (august.restate (739856 * DAY)))
          (bronze "gridlens_bronze" (fired smallEnviron ([ingestFiring] ++ [refetchFiring]))))
        (build Prod.mk none (bronze "gridlens_bronze" (fired smallEnviron [ingestFiring])))) =
          [] :=
  @scheduled_audit smallEnviron .FR [ingestFiring] [refetchFiring] ⟨739864, by decide⟩ august
    (by decide +kernel) _ _ Prod.mk (739856 * DAY) 1 mornings_sound (by decide) (by decide)

end Gridlens
