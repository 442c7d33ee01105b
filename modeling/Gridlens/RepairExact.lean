import Gridlens.RepairRun

/-!
# A run of the gap filler by itself

Where nothing else is loaded into bronze while `bronze_backfill` runs, it
leaves what a single backfill leaves, however it is retried
(`repair_exact`).
-/

namespace Gridlens

open Effects
open Tasks (Occurrence Progress)

/-- The days from the first to the last of a list. -/
def spanned (found : List Date) : List Date :=
  match found.head?, found.getLast? with
  | some first, some last => days first last
  | _, _ => []

section Undisturbed

variable {o : Outside} {environ : Environ} {client : (String → List Row) → GapQuery → QueryAnswer}
  {runAfter : Instant} {zone : BiddingZone} {answer : Instant → Instant → Option Bytes}
  {start stop : Date} {found : List Date} {T : List Row}
  {p p' : Progress RepairTask RepairState} {e : Occurrence RepairTask RepairAction Effect}
  {es : List (Occurrence RepairTask RepairAction Effect)}

/-- A table that was missing these days, and what has been done to it. -/
structure Undisturbed (o : Outside) (zone : BiddingZone) (runAfter : Instant)
    (answer : Instant → Instant → Option Bytes) (start stop : Date) (T : List Row)
    (found : List Date) (p : Progress RepairTask RepairState) : Prop where
  listed : ∀ texts, p.state.gaps = some texts → texts = found.map fun day => dateText day.ordinal
  landed : ∃ done, done <+: spanned found ∧
    (p.state.reply.any (fun reply => reply.isOk) = true → done = spanned found) ∧
    (p.status .findGaps ≠ .ended .success → done = []) ∧
    p.state.bronze = done.foldl (mergeDay o (wholeSecond runAfter).toDateTime answer) T

theorem spanned_eq {first last : Date} (hfirst : found.head? = some first)
    (hlast : found.getLast? = some last) : spanned found = days first last := by
  unfold spanned
  rw [hfirst, hlast]

/-- The days in between lie in the window as well. -/
theorem mem_spanned (hfound : ExactlyMissing T start stop found) {day : Date} :
    day ∈ spanned found → day ∈ days start stop := by
  unfold spanned
  split
  · rename_i first last hfirst hlast
    intro hday
    have hleft := ((hfound.missing first).mp (List.mem_of_mem_head? hfirst)).1
    have hright := ((hfound.missing last).mp (List.mem_of_mem_getLast? hlast)).1
    have hbetween := mem_days.mp hday
    exact mem_days.mpr ⟨by omega, by omega⟩
  · exact fun hday => absurd hday List.not_mem_nil

theorem found_spanned (hfound : ExactlyMissing T start stop found) {day : Date}
    (hday : day ∈ found) : day ∈ spanned found := by
  have hsome : found ≠ [] := List.ne_nil_of_mem hday
  rcases exists_span hfound.increasing hsome with ⟨first, last, hfirst, hlast, -, -, hspan⟩
  rw [spanned_eq hfirst hlast]
  exact mem_days.mpr (hspan day hday)

theorem undisturbed_step (hdeployed : Deployed o environ zone)
    (hclient : ∀ tables q, AnswersWhole tables (client tables) q) (hans : o.Answers zone.value answer)
    (horderly : OrderlyDays o (wholeSecond runAfter).toDateTime answer (days start stop))
    (hwindow : gapWindow runAfter = .ok (start, stop)) (hfound : ExactlyMissing T start stop found)
    (hquiet : ∀ effect, e = .outside effect → effect.commits "gridlens_bronze" = false)
    (hsound : repairGraph.Sound p.status)
    (hstep : Tasks.step (bronzeBackfill o environ client runAfter) p e = some p')
    (horder : RepairOrder p) (hp : Undisturbed o zone runAfter answer start stop T found p) :
    Undisturbed o zone runAfter answer start stop T found p' := by
  rcases hp.landed with ⟨done, hpre, hwhole, hbefore, hbronze⟩
  -- where bronze and the answer stay, so does what is said of them
  have hkept : p'.state.bronze = p.state.bronze →
      (p'.state.reply.any (fun reply => reply.isOk) = true →
        p.state.reply.any (fun reply => reply.isOk) = true) →
      ∃ done, done <+: spanned found ∧
        (p'.state.reply.any (fun reply => reply.isOk) = true → done = spanned found) ∧
        (p'.status .findGaps ≠ .ended .success → done = []) ∧
        p'.state.bronze = done.foldl (mergeDay o (wholeSecond runAfter).toDateTime answer) T := by
    intro hsame hreply
    exact ⟨done, hpre, fun hok => hwhole (hreply hok),
      fun hopen => hbefore fun hsuccess => hopen (Tasks.ended_step hsound hstep hsuccess),
      hsame.trans hbronze⟩
  rcases repair_state hstep with
    hsame | ⟨-, hs'⟩ | ⟨-, hs'⟩ | ⟨hn, hquery⟩ | ⟨hn, hinvoke⟩ | ⟨effect, he, hs'⟩
  · exact ⟨hsame ▸ hp.listed, hkept (by rw [hsame]) (by rw [hsame]; exact id)⟩
  · exact ⟨by rw [hs']; exact nofun, hkept (by rw [hs']; rfl) (by rw [hs']; exact id)⟩
  · exact ⟨by rw [hs']; exact hp.listed, hkept (by rw [hs']; rfl) (by rw [hs']; exact nofun)⟩
  · -- bronze is still what it was
    have hopen : p.status .findGaps ≠ .ended .success := by
      rw [hn]
      exact nofun
    rw [hbefore hopen, List.foldl_nil] at hbronze
    rcases Option.bind_eq_some_iff.mp hquery with ⟨texts, htexts, heq⟩
    have hs' := Option.some.inj heq
    rcases findGaps_ok (hclient _) (toOption_iff.mp htexts) with
      ⟨start', stop', found', hwindow', hexact, hlisted⟩
    rcases Prod.mk.inj (Except.ok.inj (hwindow.symm.trans hwindow')) with ⟨rfl, rfl⟩
    have hexact' : ExactlyMissing T start stop found' := by
      rw [← hbronze]
      exact hexact
    refine ⟨?_, hkept (by rw [← hs']; rfl) (by rw [← hs']; exact id)⟩
    rw [← hs']
    intro texts' htexts'
    obtain rfl : texts = texts' := Option.some.inj htexts'
    rw [hlisted, hexact'.unique hfound]
  · rcases Option.bind_eq_some_iff.mp hinvoke with ⟨texts, htexts, -⟩
    rcases invoke_eq_some hdeployed (hp.listed texts htexts) hfound.increasing htexts hinvoke with
      ⟨first, last, reply, es', hfirst, hlast, -, -, hs', hreply⟩
    have hspan := spanned_eq hfirst hlast
    have hsuccess := found_first hsound horder.asked (Or.inl (by rw [hn]; rfl))
    refine ⟨by rw [hs']; exact hp.listed, ?_⟩
    rw [hs']
    rcases hreply with ⟨⟨error, rfl⟩, rfl⟩ | ⟨stagingBucket, workgroup, hend⟩
    · refine ⟨done, hpre, nofun, ?_, ?_⟩
      · exact fun hopen => hbefore fun h => hopen (Tasks.ended_step hsound hstep h)
      · show bronze _ (p.state.history ++ []) = _
        rw [List.append_nil]
        exact hbronze
    · have hgone : Ends o (backfill (repairArgs zone runAfter first last stagingBucket workgroup))
          (GoesOver o (wholeSecond runAfter).toDateTime answer (days first last)
            (store "gridlens_bronze" p.state.history)) p.state.history :=
        ends_backfill_days _ rfl rfl hans _
      unfold Ends at hgone
      rw [hend, ← hspan] at hgone
      rcases hgone with ⟨done', hpre', hwhole', hbronze'⟩
      rcases mergeDays_again (horderly.mono fun day => mem_spanned hfound) hpre hpre' T with
        ⟨both, hboth, -, hlonger, htwice⟩
      refine ⟨both, hboth, fun hok => ?_,
        fun hopen => absurd (Tasks.ended_step hsound hstep hsuccess) hopen, ?_⟩
      · rw [hwhole' hok] at hlonger
        exact (hlonger.eq_of_length_le hboth.length_le).symm
      · refine (bronze_append _ _ _).trans (hbronze'.trans ?_)
        show done'.foldl _ p.state.bronze = _
        rw [hbronze]
        exact htwice
  · have hsame : p'.state.bronze = p.state.bronze := by
      rw [hs']
      show bronze _ (p.state.history ++ [effect]) = bronze _ p.state.history
      rw [bronze_append, after_singleton]
      exact step_bronze_of_not_commits _ (hquiet effect he)
    exact ⟨by rw [hs']; exact hp.listed, hkept hsame (by rw [hs']; exact id)⟩

/-- Of the missing days those stay missing that the source has nothing of. -/
theorem missing_mergeDays
    (horderly : OrderlyDays o (wholeSecond runAfter).toDateTime answer (days start stop))
    (hfound : ExactlyMissing T start stop found) (day : Date) :
    MissingDay ((spanned found).foldl (mergeDay o (wholeSecond runAfter).toDateTime answer) T)
        start stop day ↔
      MissingDay T start stop day ∧ ∀ bounds, settlementDay day PARIS = .ok bounds →
        answerRows o (wholeSecond runAfter).toDateTime (answer bounds.1 bounds.2) = [] := by
  have hfilled : ∀ d ∈ spanned found, Filled o (wholeSecond runAfter).toDateTime answer
      ((spanned found).foldl (mergeDay o (wholeSecond runAfter).toDateTime answer) T) d := by
    intro d hd
    exact filled_mergeDays hd
  constructor
  · intro hmissing
    have hbefore : MissingDay T start stop day := hmissing.mono subset_mergeDays
    refine ⟨hbefore, fun bounds hbounds => List.eq_nil_iff_forall_not_mem.mpr fun row hrow => ?_⟩
    have hday := found_spanned hfound ((hfound.missing day).mpr hbefore)
    rcases hfilled day hday bounds hbounds row hrow with ⟨r, hr, htime⟩
    have hdate := (parisDate_of_orderly horderly (mem_spanned hfound hday) hbounds hrow).2
    exact hmissing.2 r hr (htime ▸ hdate)
  · intro ⟨hmissing, hnothing⟩
    refine ⟨hmissing.1, fun r hr hdate => ?_⟩
    rcases mem_mergeDays hr with hbefore | ⟨day', hday', bounds, hbounds, hrow⟩
    · exact hmissing.2 r hbefore hdate
    · have hdate' := (parisDate_of_orderly horderly (mem_spanned hfound hday') hbounds hrow).2
      have hsame : day' = day := date_eq_iff.mpr (hdate'.symm.trans hdate)
      rw [hsame] at hbounds
      rw [hnothing bounds hbounds] at hrow
      cases hrow

/-- A run that nothing else loads beside leaves what the first few days of one
backfill leave, from the first missing day to the last, however often it was
tried. A green one leaves what all of them leave, and missing are then exactly
the missing days that the source has nothing of. -/
theorem repair_exact (hdeployed : Deployed o environ zone)
    (hclient : ∀ tables q, AnswersWhole tables (client tables) q) (hans : o.Answers zone.value answer)
    (horderly : OrderlyDays o (wholeSecond runAfter).toDateTime answer (days start stop))
    (hwindow : gapWindow runAfter = .ok (start, stop)) {history : Trace}
    (hfound : ExactlyMissing (bronze "gridlens_bronze" history) start stop found)
    (hquiet : ∀ effect, .outside effect ∈ es → effect.commits "gridlens_bronze" = false)
    (hrun : Tasks.run (bronzeBackfill o environ client runAfter)
      (Tasks.fresh ⟨history, none, none, []⟩) es = some p) :
    (∃ done, done <+: spanned found ∧ p.state.bronze =
      done.foldl (mergeDay o (wholeSecond runAfter).toDateTime answer)
        (bronze "gridlens_bronze" history)) ∧
    (repairGraph.Succeeded p.status →
      p.state.bronze = (spanned found).foldl (mergeDay o (wholeSecond runAfter).toDateTime answer)
        (bronze "gridlens_bronze" history) ∧
      ∀ day, MissingDay p.state.bronze start stop day ↔
        MissingDay (bronze "gridlens_bronze" history) start stop day ∧
          ∀ bounds, settlementDay day PARIS = .ok bounds →
            answerRows o (wholeSecond runAfter).toDateTime (answer bounds.1 bounds.2) = []) := by
  have hinvariant := Tasks.sound_run_invariant
    (I := fun p => RepairOrder p ∧ Undisturbed o zone runAfter answer start stop
      (bronze "gridlens_bronze" history) found p)
    (fun p e he p' hsound hstep hp => ⟨repairOrder_step hsound hstep hp.1,
      undisturbed_step hdeployed hclient hans horderly hwindow hfound
        (fun effect heq => hquiet effect (heq ▸ he)) hsound hstep hp.1 hp.2⟩)
    hrun ⟨⟨nofun, nofun, nofun, nofun, nofun⟩,
      ⟨nofun, [], List.nil_prefix, nofun, fun _ => rfl, rfl⟩⟩
  rcases hinvariant with ⟨horder, hlisted, done, hpre, hwhole, -, hbronze⟩
  refine ⟨⟨done, hpre, hbronze⟩, fun hgreen => ?_⟩
  have hall : done = spanned found := by
    rcases hgreen .backfill leaf_backfill with hsuccess | hskipped
    · exact hwhole (horder.returned hsuccess)
    · have hnone := hlisted [] (horder.skipped hskipped)
      rw [List.map_eq_nil_iff.mp hnone.symm] at hpre ⊢
      exact List.prefix_nil.mp hpre
  rw [hbronze, hall]
  exact ⟨rfl, missing_mergeDays horderly hfound⟩

end Undisturbed

/-! ## The week again -/

theorem week_quiet (effect : Effect)
    (h : .outside effect ∈ [.began .findGaps, .acted .findGaps .queried] ++ weekEvents) :
    effect.commits "gridlens_bronze" = false := by
  have hbegan : effect = .began := by simpa [weekEvents] using h
  rw [hbegan]
  rfl

/-- Six of the days stay missing, and the seventh is there. -/
theorem repair_exact_week : ∃ p, Tasks.run
    (bronzeBackfill weekOutside smallEnviron onePage morning) (Tasks.fresh ⟨[], none, none, []⟩)
      ([.began .findGaps, .acted .findGaps .queried] ++ weekEvents) = some p ∧
    (∃ done, done <+: spanned (days weekStart weekStop) ∧ p.state.bronze =
      done.foldl (mergeDay weekOutside (wholeSecond morning).toDateTime weekAnswer)
        (bronze "gridlens_bronze" [])) ∧
    (repairGraph.Succeeded p.status →
      p.state.bronze = (spanned (days weekStart weekStop)).foldl
        (mergeDay weekOutside (wholeSecond morning).toDateTime weekAnswer)
        (bronze "gridlens_bronze" []) ∧
      ∀ day, MissingDay p.state.bronze weekStart weekStop day ↔
        MissingDay (bronze "gridlens_bronze" []) weekStart weekStop day ∧
          ∀ bounds, settlementDay day PARIS = .ok bounds →
            answerRows weekOutside (wholeSecond morning).toDateTime
              (weekAnswer bounds.1 bounds.2) = []) := by
  rcases exists_week with ⟨p, hrun, -⟩
  exact ⟨p, hrun, repair_exact week_deployed (fun tables => answersWhole_onePage tables)
    week_answers (week_orderly _ _ (by constructor <;> decide +kernel)) week_window week_missing
    week_quiet hrun⟩

end Gridlens
