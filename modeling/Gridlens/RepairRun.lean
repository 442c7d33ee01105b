import Gridlens.Flow.Tasks
import Gridlens.GapRepair

/-!
# A run of the gap filler

`bronze_backfill`: the gaps of the week are found and handed on, under the
trigger rules of airflow, each task with one retry. Other jobs load bronze
meanwhile, and the function may fail wherever it is.

1. `repair_heals`: what a green run leaves missing has no accepted row at the
   source, whatever is loaded meanwhile.
2. `repair_bounded`: how much a run may ask for.
-/

namespace Gridlens

open Effects
open Tasks (Rule Status Graph System Occurrence Progress)

/-! ## The tasks -/

inductive RepairTask where
  | findGaps
  | backfill
deriving DecidableEq, Repr

instance : Fintype RepairTask where
  elems := {.findGaps, .backfill}
  complete n := by cases n <;> decide

/-- `backfill(find_gaps())`, each with one retry. -/
def repairGraph : Graph RepairTask where
  upstream
    | .findGaps => []
    | .backfill => [.findGaps]
  rule _ := .allSuccess
  retries _ := 1
  rank
    | .findGaps => 0
    | .backfill => 1
  rank_lt := by intro n; cases n <;> decide

structure RepairState where
  /-- Everything that happened to the lake. -/
  history : Trace
  /-- What `find_gaps` returned. -/
  gaps : Option (List String)
  /-- What the function answered to this try. -/
  reply : Option (Py BackfillSummary)
  /-- What each invocation has left. -/
  invocations : List Trace

inductive RepairAction where
  | queried
  | invoked

section Execution

variable (o : Outside) (environ : Environ)
  (client : (String → List Row) → GapQuery → QueryAnswer) (runAfter : Instant)

namespace RepairState

def query (s : RepairState) : Option RepairState := do
  let gaps ← (findGaps (client fun database => bronze database s.history) runAfter).toOption
  some { s with gaps := some gaps }

/-- The client sends a request once, and the function runs to its end. -/
def invoke (s : RepairState) : Option RepairState := do
  let gaps ← s.gaps
  let first ← minText gaps
  let last ← maxText gaps
  if s.reply.isSome then none
  else
    let (reply, es) := refetch environ (payload runAfter first last) o s.history
    some { s with
      history := s.history ++ es
      reply := some reply
      invocations := s.invocations ++ [es] }

end RepairState

/-- `bronze_backfill`. Beside it other jobs load bronze, between the
invocations. -/
def bronzeBackfill : System RepairTask RepairAction Effect RepairState where
  toGraph := repairGraph
  start
    | .findGaps, s => { s with gaps := none }
    | .backfill, s => { s with reply := none }
  act
    | .findGaps, s, .queried => s.query client runAfter
    | .backfill, s, .invoked => s.invoke o environ runAfter
    | _, _, _ => none
  returns
    | .findGaps, s => s.gaps.isSome
    -- an answer with a `FunctionError` raises
    | .backfill, s => s.reply.any fun reply => reply.isOk
  skips
    | .findGaps, _ => false
    | .backfill, s => s.gaps = some []
  interfere s e := some { s with history := s.history ++ [e] }

end Execution

/-! ## Runs of the dag -/

/-- The texts are those of days of the week, and no other day of it is missing. -/
structure Listed (T : List Row) (runAfter : Instant) (texts : List String) (found : List Date) :
    Prop where
  texts : texts = found.map fun day => dateText day.ordinal
  increasing : found.Pairwise fun a b => a.ordinal < b.ordinal
  inWeek : ∀ day ∈ found, runAfter.micros / DAY - 7 ≤ day.ordinal ∧
    day.ordinal ≤ runAfter.micros / DAY - 1
  missing : ∀ start stop day, gapWindow runAfter = .ok (start, stop) →
    MissingDay T start stop day → day ∈ found

theorem Listed.mono {T T' : List Row} {runAfter : Instant} {texts : List String}
    {found : List Date} (h : Listed T runAfter texts found) (hT : T ⊆ T') :
    Listed T' runAfter texts found :=
  ⟨h.texts, h.increasing, h.inWeek,
    fun start stop day hwindow hmissing => h.missing start stop day hwindow (hmissing.mono hT)⟩

section Steps

variable {o : Outside} {environ : Environ} {client : (String → List Row) → GapQuery → QueryAnswer}
  {runAfter : Instant} {zone : BiddingZone} {answer : Instant → Instant → Option Bytes}
  {s s' : RepairState} {p p' : Progress RepairTask RepairState}
  {e : Occurrence RepairTask RepairAction Effect}
  {es : List (Occurrence RepairTask RepairAction Effect)}

/-- The table of a state. -/
def RepairState.bronze (s : RepairState) : List Row := Gridlens.bronze "gridlens_bronze" s.history

theorem query_eq_some (hclient : ∀ tables q, AnswersWhole tables (client tables) q)
    (h : s.query client runAfter = some s') : ∃ texts found,
      Listed s.bronze runAfter texts found ∧ s' = { s with gaps := some texts } := by
  rcases Option.bind_eq_some_iff.mp h with ⟨texts, htexts, heq⟩
  rcases findGaps_ok (hclient _) (toOption_iff.mp htexts) with
    ⟨start, stop, found, hwindow, hexact, hfound⟩
  rcases gapWindow_ok hwindow with ⟨hstart, hstop⟩
  refine ⟨texts, found, ⟨hfound, hexact.increasing, fun day hday => ?_, ?_⟩,
    (Option.some.inj heq).symm⟩
  · have hin := ((hexact.missing day).mp hday).1
    omega
  · intro start' stop' day hwindow' hmissing
    rcases Prod.mk.inj (Except.ok.inj (hwindow.symm.trans hwindow')) with ⟨rfl, rfl⟩
    exact (hexact.missing day).mpr hmissing

/-- An invocation is the backfill of the span of the gaps, or nothing. -/
theorem invoke_eq_some (hdeployed : Deployed o environ zone) {texts : List String}
    {found : List Date} (htexts : texts = found.map fun day => dateText day.ordinal)
    (hincreasing : found.Pairwise fun a b => a.ordinal < b.ordinal)
    (hgaps : s.gaps = some texts) (h : s.invoke o environ runAfter = some s') :
    ∃ first last reply es, found.head? = some first ∧ found.getLast? = some last ∧
      (∀ day ∈ found, first.ordinal ≤ day.ordinal ∧ day.ordinal ≤ last.ordinal) ∧
      s.reply = none ∧
      s' = ⟨s.history ++ es, s.gaps, some reply, s.invocations ++ [es]⟩ ∧
      ((∃ error, reply = .error error) ∧ es = [] ∨ ∃ stagingBucket workgroup,
        backfill (repairArgs zone runAfter first last stagingBucket workgroup) o s.history =
          (reply, es)) := by
  rcases Option.bind_eq_some_iff.mp h with ⟨texts', hgaps', h⟩
  obtain rfl : texts = texts' := Option.some.inj (hgaps.symm.trans hgaps')
  rcases Option.bind_eq_some_iff.mp h with ⟨least, hleast, h⟩
  rcases Option.bind_eq_some_iff.mp h with ⟨greatest, hgreatest, h⟩
  have hsome : found ≠ [] := by
    intro hnil
    rw [htexts, hnil] at hleast
    cases hleast
  rcases exists_span hincreasing hsome with ⟨first, last, hfirst, hlast, hmin, hmax, hspan⟩
  rw [htexts] at hleast hgreatest
  obtain rfl : dateText first.ordinal = least := Option.some.inj (hmin.symm.trans hleast)
  obtain rfl : dateText last.ordinal = greatest := Option.some.inj (hmax.symm.trans hgreatest)
  split at h
  · cases h
  · rename_i hreply
    have hend : Ends o (refetch environ
        (payload runAfter (dateText first.ordinal) (dateText last.ordinal))) (fun reply es =>
          (∃ error, reply = .error error) ∧ es = [] ∨ ∃ stagingBucket workgroup,
            backfill (repairArgs zone runAfter first last stagingBucket workgroup) o s.history =
              (reply, es)) s.history :=
      ends_refetch_payload hdeployed (fun error => Or.inl ⟨⟨error, rfl⟩, rfl⟩)
        fun stagingBucket workgroup => Or.inr ⟨stagingBucket, workgroup, rfl⟩
    exact ⟨first, last, _, _, hfirst, hlast, hspan, by simpa using hreply,
      (Option.some.inj h).symm, hend⟩

/-- An event changes the state, if it does, as the dag or another job does. -/
theorem repair_state (hstep : Tasks.step (bronzeBackfill o environ client runAfter) p e = some p') :
    p'.state = p.state ∨
    (p.status .findGaps = .waiting ∧ p'.state = { p.state with gaps := none }) ∨
    (p.status .backfill = .waiting ∧ p'.state = { p.state with reply := none }) ∨
    (p.status .findGaps = .running ∧ p.state.query client runAfter = some p'.state) ∨
    (p.status .backfill = .running ∧ p.state.invoke o environ runAfter = some p'.state) ∨
    ∃ effect, e = .outside effect ∧
      p'.state = { p.state with history := p.state.history ++ [effect] } := by
  rcases Tasks.step_state hstep with
    hsame | ⟨n, hn, -, rfl⟩ | ⟨n, a, s, hn, hact, rfl⟩ | ⟨effect, s, he, hs, rfl⟩
  · exact Or.inl hsame
  · cases n with
    | findGaps => exact Or.inr (Or.inl ⟨hn, rfl⟩)
    | backfill => exact Or.inr (Or.inr (Or.inl ⟨hn, rfl⟩))
  · cases n with
    | findGaps => cases a with
      | queried => exact Or.inr (Or.inr (Or.inr (Or.inl ⟨hn, hact⟩)))
      | invoked => cases hact
    | backfill => cases a with
      | queried => cases hact
      | invoked => exact Or.inr (Or.inr (Or.inr (Or.inr (Or.inl ⟨hn, hact⟩))))
  · exact Or.inr (Or.inr (Or.inr (Or.inr (Or.inr ⟨effect, he, (Option.some.inj hs).symm⟩))))

/-- The second task does something only behind the first. -/
theorem found_first (hsound : repairGraph.Sound p.status)
    (hasked : p.status .findGaps ≠ .ended .skipped)
    (hbackfill : (p.status .backfill).hasStarted = true ∨ p.status .backfill = .ended .skipped) :
    p.status .findGaps = .ended .success := by
  have hready : repairGraph.ready p.status .backfill = true →
      p.status .findGaps = .ended .success := by
    intro hready
    exact (Tasks.ready_allSuccess rfl).mp hready .findGaps List.mem_cons_self
  rcases hbackfill with hstarted | hskipped
  · exact hready (Tasks.justified_of_hasStarted (hsound .backfill) hstarted)
  · have hjustified := hsound .backfill
    rw [hskipped] at hjustified
    rcases hjustified with h | ⟨-, m, hm, hup⟩
    · exact hready h
    · rw [List.mem_singleton.mp hm] at hup
      exact absurd hup hasked

/-- How far the tasks are, and what they have. -/
structure RepairOrder (p : Progress RepairTask RepairState) : Prop where
  asked : p.status .findGaps ≠ .ended .skipped
  replied : p.state.reply.isSome = true → p.status .findGaps = .ended .success
  found : p.status .findGaps = .ended .success → p.state.gaps.isSome = true
  returned : p.status .backfill = .ended .success →
    p.state.reply.any (fun reply => reply.isOk) = true
  skipped : p.status .backfill = .ended .skipped → p.state.gaps = some []

theorem asked_step (hstep : Tasks.step (bronzeBackfill o environ client runAfter) p e = some p')
    (hp : p.status .findGaps ≠ .ended .skipped) : p'.status .findGaps ≠ .ended .skipped := by
  intro hafter
  rcases Tasks.step_ended hstep hp hafter with ⟨-, ⟨hhow, -⟩ | hhow | ⟨-, hskips⟩ | hmark⟩
  · cases hhow
  · cases hhow
  · cases hskips
  · rcases Tasks.skipped_of_mark hmark with ⟨m, hm, -⟩
    cases hm

theorem query_gaps (h : s.query client runAfter = some s') :
    s'.reply = s.reply ∧ s'.gaps.isSome = true := by
  rcases Option.bind_eq_some_iff.mp h with ⟨texts, -, heq⟩
  obtain rfl := Option.some.inj heq
  exact ⟨rfl, rfl⟩

theorem invoke_gaps (h : s.invoke o environ runAfter = some s') : s'.gaps = s.gaps := by
  rcases Option.bind_eq_some_iff.mp h with ⟨texts, -, h⟩
  rcases Option.bind_eq_some_iff.mp h with ⟨least, -, h⟩
  rcases Option.bind_eq_some_iff.mp h with ⟨greatest, -, h⟩
  split at h
  · cases h
  · obtain rfl := Option.some.inj h
    rfl

theorem repairOrder_step (hsound : repairGraph.Sound p.status)
    (hstep : Tasks.step (bronzeBackfill o environ client runAfter) p e = some p')
    (hp : RepairOrder p) : RepairOrder p' := by
  have hchange := repair_state hstep
  constructor
  · exact asked_step hstep hp.asked
  · intro hreply
    refine Tasks.ended_step hsound hstep ?_
    rcases hchange with hsame | ⟨-, hs⟩ | ⟨-, hs⟩ | ⟨-, hquery⟩ | ⟨hn, -⟩ | ⟨effect, -, hs⟩
    · exact hp.replied (hsame ▸ hreply)
    · exact hp.replied (by simpa [hs] using hreply)
    · simp [hs] at hreply
    · exact hp.replied (by rw [← (query_gaps hquery).1]; exact hreply)
    · exact found_first hsound hp.asked (Or.inl (by rw [hn]; rfl))
    · exact hp.replied (by simpa [hs] using hreply)
  · intro hafter
    by_cases hbefore : p.status .findGaps = .ended .success
    · have hgaps := hp.found hbefore
      rcases hchange with hsame | ⟨hn, -⟩ | ⟨-, hs⟩ | ⟨hn, -⟩ | ⟨-, hinvoke⟩ | ⟨effect, -, hs⟩
      · exact hsame ▸ hgaps
      · rw [hn] at hbefore
        cases hbefore
      · rw [hs]
        exact hgaps
      · rw [hn] at hbefore
        cases hbefore
      · rw [invoke_gaps hinvoke]
        exact hgaps
      · rw [hs]
        exact hgaps
    · rcases Tasks.step_ended hstep hbefore hafter with
        ⟨hsame, ⟨-, hreturns⟩ | hhow | ⟨hhow, -⟩ | hmark⟩
      · exact hsame ▸ hreturns
      · cases hhow
      · cases hhow
      · exact absurd hmark Tasks.not_mark_success
  · intro hafter
    by_cases hbefore : p.status .backfill = .ended .success
    · have hok := hp.returned hbefore
      rcases hchange with hsame | ⟨-, hs⟩ | ⟨hn, -⟩ | ⟨-, hquery⟩ | ⟨hn, -⟩ | ⟨effect, -, hs⟩
      · exact hsame ▸ hok
      · rw [hs]
        exact hok
      · rw [hn] at hbefore
        cases hbefore
      · rw [(query_gaps hquery).1]
        exact hok
      · rw [hn] at hbefore
        cases hbefore
      · rw [hs]
        exact hok
    · rcases Tasks.step_ended hstep hbefore hafter with
        ⟨hsame, ⟨-, hreturns⟩ | hhow | ⟨hhow, -⟩ | hmark⟩
      · exact hsame ▸ hreturns
      · cases hhow
      · cases hhow
      · exact absurd hmark Tasks.not_mark_success
  · intro hafter
    by_cases hbefore : p.status .backfill = .ended .skipped
    · have hfirst := found_first hsound hp.asked (Or.inr hbefore)
      have hnone := hp.skipped hbefore
      rcases hchange with hsame | ⟨hn, -⟩ | ⟨hn, -⟩ | ⟨hn, -⟩ | ⟨hn, -⟩ | ⟨effect, -, hs⟩
      · exact hsame ▸ hnone
      · rw [hn] at hfirst
        cases hfirst
      · rw [hn] at hbefore
        cases hbefore
      · rw [hn] at hfirst
        cases hfirst
      · rw [hn] at hbefore
        cases hbefore
      · rw [hs]
        exact hnone
    · rcases Tasks.step_ended hstep hbefore hafter with
        ⟨hsame, ⟨hhow, -⟩ | hhow | ⟨-, hskips⟩ | hmark⟩
      · cases hhow
      · cases hhow
      · rw [hsame]
        exact of_decide_eq_true hskips
      · rcases Tasks.skipped_of_mark hmark with ⟨m, hm, hup⟩
        rw [List.mem_singleton.mp hm] at hup
        exact absurd hup hp.asked

theorem bronze_grows (database : String) (h es : Trace) :
    bronze database h ⊆ bronze database (h ++ es) := by
  rw [bronze_append]
  exact (prefix_after database (store database h) es).subset

/-- What every day has that the function has gone over, and keeps. -/
structure Achieved (o : Outside) (zone : BiddingZone) (runAfter : Instant)
    (F : List Row → Date → Prop) : Prop where
  mono : ∀ T T' day, F T day → T ⊆ T' → F T' day
  returned : ∀ first last stagingBucket workgroup h es summary,
    backfill (repairArgs zone runAfter first last stagingBucket workgroup) o h = (.ok summary, es) →
      ∀ day ∈ days first last, F (bronze "gridlens_bronze" (h ++ es)) day

theorem achieved_filled (hans : o.Answers zone.value answer) : Achieved o zone runAfter
    fun T day => Filled o (wholeSecond runAfter).toDateTime answer T day where
  mono _ _ _ h hT := h.mono hT
  returned first last stagingBucket workgroup h es summary hreturn day hday := by
    rw [bronze_append]
    exact filled_backfill (repairArgs zone runAfter first last stagingBucket workgroup) rfl hans _
      hreturn hday

theorem achieved_true : Achieved o zone runAfter fun _ _ => True :=
  ⟨fun _ _ _ _ _ => trivial, fun _ _ _ _ _ _ _ _ _ _ => trivial⟩

/-- The gaps are the missing days, and where the function returned it has gone
over them. -/
def Repairs (F : List Row → Date → Prop) (runAfter : Instant) (s : RepairState) : Prop :=
  ∀ texts, s.gaps = some texts → ∃ found, Listed s.bronze runAfter texts found ∧
    (s.reply.any (fun reply => reply.isOk) = true → ∀ day ∈ found, F s.bronze day)

theorem repairs_invoke {F : List Row → Date → Prop} (hdeployed : Deployed o environ zone)
    (hF : Achieved o zone runAfter F) (hs : Repairs F runAfter s)
    (h : s.invoke o environ runAfter = some s') : Repairs F runAfter s' := by
  intro texts htexts
  rw [invoke_gaps h] at htexts
  rcases hs texts htexts with ⟨found, hlisted, -⟩
  rcases invoke_eq_some hdeployed hlisted.texts hlisted.increasing htexts h with
    ⟨first, last, reply, es, -, -, hspan, -, rfl, hreply⟩
  refine ⟨found, hlisted.mono (bronze_grows _ _ _), fun hok day hday => ?_⟩
  rcases hreply with ⟨⟨error, rfl⟩, -⟩ | ⟨stagingBucket, workgroup, hend⟩
  · cases hok
  · cases reply with
    | error error => cases hok
    | ok summary => exact hF.returned _ _ _ _ _ _ _ hend day (mem_days.mpr (hspan day hday))

theorem repairs_step {F : List Row → Date → Prop} (hdeployed : Deployed o environ zone)
    (hclient : ∀ tables q, AnswersWhole tables (client tables) q) (hF : Achieved o zone runAfter F)
    (hstep : Tasks.step (bronzeBackfill o environ client runAfter) p e = some p')
    (hp : RepairOrder p) (hs : Repairs F runAfter p.state) : Repairs F runAfter p'.state := by
  rcases repair_state hstep with
    hsame | ⟨-, hs'⟩ | ⟨-, hs'⟩ | ⟨hn, hquery⟩ | ⟨-, hinvoke⟩ | ⟨effect, -, hs'⟩
  · exact hsame ▸ hs
  · rw [hs']
    exact nofun
  · rw [hs']
    intro texts htexts
    rcases hs texts htexts with ⟨found, hlisted, -⟩
    exact ⟨found, hlisted, nofun⟩
  · -- the function has not been asked yet
    have hreply : p.state.reply = none := by
      cases hreply : p.state.reply with
      | none => rfl
      | some reply =>
          have hsuccess := hp.replied (by rw [hreply]; rfl)
          rw [hn] at hsuccess
          cases hsuccess
    rcases query_eq_some hclient hquery with ⟨texts, found, hlisted, hs'⟩
    rw [hs']
    intro texts' htexts'
    obtain rfl : texts = texts' := Option.some.inj htexts'
    refine ⟨found, hlisted, fun hok => ?_⟩
    simp [hreply] at hok
  · exact repairs_invoke hdeployed hF hs hinvoke
  · rw [hs']
    intro texts htexts
    rcases hs texts htexts with ⟨found, hlisted, hfilled⟩
    exact ⟨found, hlisted.mono (bronze_grows _ _ _),
      fun hok day hday => hF.mono _ _ _ (hfilled hok day hday) (bronze_grows _ _ _)⟩

/-- The run of a dag that has nothing yet. -/
theorem repairs_run {F : List Row → Date → Prop} (hdeployed : Deployed o environ zone)
    (hclient : ∀ tables q, AnswersWhole tables (client tables) q) (hF : Achieved o zone runAfter F)
    {history : Trace}
    (hrun : Tasks.run (bronzeBackfill o environ client runAfter)
      (Tasks.fresh ⟨history, none, none, []⟩) es = some p) :
    RepairOrder p ∧ Repairs F runAfter p.state :=
  Tasks.sound_run_invariant (I := fun p => RepairOrder p ∧ Repairs F runAfter p.state)
    (fun _ _ _ _ hsound hstep hp =>
      ⟨repairOrder_step hsound hstep hp.1, repairs_step hdeployed hclient hF hstep hp.1 hp.2⟩)
    hrun ⟨⟨nofun, nofun, nofun, nofun, nofun⟩, nofun⟩

theorem leaf_backfill : repairGraph.Leaf .backfill := by
  intro m
  cases m <;> decide

/-- Whatever fails, is tried again or is loaded meanwhile: when a run is green,
a day of the week that is still missing is one of which the source has no
accepted row. -/
theorem repair_heals (hdeployed : Deployed o environ zone)
    (hclient : ∀ tables q, AnswersWhole tables (client tables) q) (hans : o.Answers zone.value answer)
    {history : Trace} {start stop : Date} (hwindow : gapWindow runAfter = .ok (start, stop))
    (hrun : Tasks.run (bronzeBackfill o environ client runAfter)
      (Tasks.fresh ⟨history, none, none, []⟩) es = some p)
    (hgreen : repairGraph.Succeeded p.status) (later : Trace) :
    ∀ day, MissingDay (bronze "gridlens_bronze" (p.state.history ++ later)) start stop day →
      ∀ bounds, settlementDay day PARIS = .ok bounds →
        ∀ row ∈ answerRows o (wholeSecond runAfter).toDateTime (answer bounds.1 bounds.2),
          parisDate row.validTime ≠ day.ordinal := by
  rcases repairs_run hdeployed hclient (achieved_filled hans) hrun with ⟨horder, hrepairs⟩
  intro day hmissing bounds hbounds row hrow hdate
  replace hmissing := hmissing.mono (bronze_grows _ _ _)
  rcases hgreen .backfill leaf_backfill with hsuccess | hskipped
  · have hfirst := found_first (Tasks.sound_run hrun) horder.asked (Or.inl (by rw [hsuccess]; rfl))
    rcases Option.isSome_iff_exists.mp (horder.found hfirst) with ⟨texts, htexts⟩
    rcases hrepairs texts htexts with ⟨found, hlisted, hfilled⟩
    have hday := hlisted.missing start stop day hwindow hmissing
    rcases hfilled (horder.returned hsuccess) day hday bounds hbounds row hrow with ⟨r, hr, htime⟩
    exact hmissing.2 r hr (htime ▸ hdate)
  · rcases hrepairs [] (horder.skipped hskipped) with ⟨found, hlisted, -⟩
    have hday := hlisted.missing start stop day hwindow hmissing
    rw [List.map_eq_nil_iff.mp hlisted.texts.symm] at hday
    cases hday

/-- What one invocation asks for: days of the week, in order and once each. -/
def AsksInWeek (runAfter : Instant) (es : Trace) : Prop :=
  ∃ asked : List Date, asked.IsChain (fun a b => b.ordinal = a.ordinal + 1) ∧
    (∀ day ∈ asked, runAfter.micros / DAY - 7 ≤ day.ordinal ∧
      day.ordinal ≤ runAfter.micros / DAY - 1) ∧
    List.Forall₂ (fun day bounds => settlementDay day PARIS = .ok bounds) asked (windows es)

/-- There are seven of them at the most. -/
theorem AsksInWeek.length_le {es : Trace} (h : AsksInWeek runAfter es) :
    (windows es).length ≤ 7 := by
  rcases h with ⟨asked, hchain, hweek, hwindows⟩
  rw [← hwindows.length_eq]
  have hindex : ∀ (ds : List Date) (d : Date), (d :: ds).IsChain
      (fun a b => b.ordinal = a.ordinal + 1) → ∃ last ∈ d :: ds,
        last.ordinal = d.ordinal + ds.length := by
    intro ds
    induction ds with
    | nil => exact fun d _ => ⟨d, List.mem_cons_self, by simp⟩
    | cons d' ds ih =>
        intro d hds
        rw [List.isChain_cons_cons] at hds
        rcases ih d' hds.2 with ⟨last, hlast, hordinal⟩
        refine ⟨last, List.mem_cons_of_mem d hlast, ?_⟩
        rw [hordinal, hds.1, List.length_cons]
        omega
  cases asked with
  | nil => exact Nat.zero_le _
  | cons d ds =>
      rcases hindex ds d hchain with ⟨last, hlast, hordinal⟩
      have hfirst := hweek d List.mem_cons_self
      have hend := hweek last hlast
      rw [List.length_cons]
      omega

theorem asksInWeek_invoke {F : List Row → Date → Prop} (hdeployed : Deployed o environ zone)
    (hs : Repairs F runAfter s) (h : s.invoke o environ runAfter = some s') :
    s.reply = none ∧ s'.reply.isSome = true ∧ ∃ es, AsksInWeek runAfter es ∧
      s'.invocations = s.invocations ++ [es] := by
  rcases Option.bind_eq_some_iff.mp h with ⟨texts, htexts, -⟩
  rcases hs texts htexts with ⟨found, hlisted, -⟩
  rcases invoke_eq_some hdeployed hlisted.texts hlisted.increasing htexts h with
    ⟨first, last, reply, es, hfirst, hlast, -, hnone, rfl, hreply⟩
  refine ⟨hnone, rfl, es, ?_, rfl⟩
  rcases hreply with ⟨-, rfl⟩ | ⟨stagingBucket, workgroup, hend⟩
  · exact ⟨[], .nil, by simp, .nil⟩
  · have hasked : Ends o
        (backfill (repairArgs zone runAfter first last stagingBucket workgroup)) _ s.history :=
      ends_backfill_windows
    unfold Ends at hasked
    rw [hend] at hasked
    rcases hasked with ⟨asked, hpre, hwindows⟩
    replace hpre : asked <+: days first last := hpre
    have hchain : asked.IsChain fun a b => b.ordinal = a.ordinal + 1 := by
      rcases hpre with ⟨rest, hrest⟩
      have hall := days_isChain first last
      rw [← hrest] at hall
      exact hall.left_of_append
    refine ⟨asked, hchain, fun day hday => ?_, hwindows⟩
    have hbetween := mem_days.mp (hpre.subset hday)
    have hleft := hlisted.inWeek first (List.mem_of_mem_head? hfirst)
    have hright := hlisted.inWeek last (List.mem_of_mem_getLast? hlast)
    omega

/-- How often the function was asked: once a try at the most. -/
structure Spent (runAfter : Instant) (p : Progress RepairTask RepairState) : Prop where
  count : p.state.invocations.length ≤ p.begun .backfill
  spare : p.status .backfill = .running → p.state.reply = none →
    p.state.invocations.length + 1 ≤ p.begun .backfill
  inWeek : ∀ es ∈ p.state.invocations, AsksInWeek runAfter es

theorem spent_step {F : List Row → Date → Prop} (hdeployed : Deployed o environ zone)
    (hstep : Tasks.step (bronzeBackfill o environ client runAfter) p e = some p')
    (hs : Repairs F runAfter p.state) (hp : Spent runAfter p) : Spent runAfter p' := by
  have hmono := Tasks.begun_mono hstep .backfill
  -- what asks for nothing leaves a try what it had
  have hkept : p'.state.invocations = p.state.invocations →
      (p.status .backfill = .running → p'.state.reply = none → p.state.reply = none) →
      Spent runAfter p' := by
    intro hsame hreply
    constructor
    · exact hsame ▸ hp.count.trans hmono
    · intro hn hnone
      rw [hsame]
      rcases Tasks.running_step hstep hn with hrunning | rfl
      · exact (hp.spare hrunning (hreply hrunning hnone)).trans hmono
      · rw [Tasks.begun_began hstep]
        exact Nat.succ_le_succ hp.count
    · exact hsame ▸ hp.inWeek
  rcases repair_state hstep with
    hsame | ⟨-, hs'⟩ | ⟨hn, hs'⟩ | ⟨-, hquery⟩ | ⟨hn, hinvoke⟩ | ⟨effect, -, hs'⟩
  · exact hkept (by rw [hsame]) fun _ hnone => hsame ▸ hnone
  · exact hkept (by rw [hs']) fun _ hnone => by simpa [hs'] using hnone
  · refine hkept (by rw [hs']) fun hrunning => ?_
    rw [hn] at hrunning
    cases hrunning
  · rcases Option.bind_eq_some_iff.mp hquery with ⟨texts, -, heq⟩
    have hs' := Option.some.inj heq
    exact hkept (by rw [← hs']) fun _ hnone => by simpa [← hs'] using hnone
  · rcases asksInWeek_invoke hdeployed hs hinvoke with ⟨hnone, hsome, es, hasks, hone⟩
    constructor
    · rw [hone, List.length_append, List.length_singleton]
      exact (hp.spare hn hnone).trans hmono
    · intro _ hreply
      rw [hreply] at hsome
      cases hsome
    · intro es' hes'
      rw [hone, List.mem_append, List.mem_singleton] at hes'
      rcases hes' with hbefore | rfl
      · exact hp.inWeek es' hbefore
      · exact hasks
  · exact hkept (by rw [hs']) fun _ hnone => by simpa [hs'] using hnone

/-- However a run goes, the function is asked twice at the most, each time for
at most seven windows, and all of them are those of days of the week. -/
theorem repair_bounded (hdeployed : Deployed o environ zone)
    (hclient : ∀ tables q, AnswersWhole tables (client tables) q) {history : Trace}
    (hrun : Tasks.run (bronzeBackfill o environ client runAfter)
      (Tasks.fresh ⟨history, none, none, []⟩) es = some p) :
    p.state.invocations.length ≤ 2 ∧ ∀ es ∈ p.state.invocations, (windows es).length ≤ 7 ∧
      ∀ bounds ∈ windows es, ∃ day, settlementDay day PARIS = .ok bounds ∧
        runAfter.micros / DAY - 7 ≤ day.ordinal ∧ day.ordinal ≤ runAfter.micros / DAY - 1 := by
  have hinvariant := Tasks.sound_run_invariant
    (I := fun p => RepairOrder p ∧ Repairs (fun _ _ => True) runAfter p.state ∧ Spent runAfter p)
    (fun _ _ _ _ hsound hstep hp => ⟨repairOrder_step hsound hstep hp.1,
      repairs_step hdeployed hclient achieved_true hstep hp.1 hp.2.1,
      spent_step hdeployed hstep hp.2.1 hp.2.2⟩)
    hrun ⟨⟨nofun, nofun, nofun, nofun, nofun⟩, nofun, ⟨Nat.zero_le _, nofun, nofun⟩⟩
  have hspent := hinvariant.2.2
  refine ⟨hspent.count.trans (Tasks.begun_le hrun .backfill), fun es hes => ?_⟩
  have hasks := hspent.inWeek es hes
  refine ⟨hasks.length_le, fun bounds hbounds => ?_⟩
  rcases hasks with ⟨asked, -, hweek, hwindows⟩
  rcases exists_of_mem_right hwindows hbounds with ⟨day, hday, hok⟩
  exact ⟨day, hok, hweek day hday⟩

end Steps

/-! ## A week with one document -/

/-- Texts of `isoformat` are read, and those of the documents. -/
def isoReaders : Readers :=
  { smallReaders with
    date := dateFromIso
    datetime := fun text => match fromIsoformat text with
      | .ok moment => .ok moment
      | .error _ => smallReaders.datetime text }

theorem isoReaders_readsIso : ReadsIso isoReaders where
  date day := by
    show dateFromIso (dateText day.ordinal) = _
    unfold dateFromIso
    rw [castDate_dateText day.inRange]
    exact dif_pos day.inRange
  datetime moment := by
    unfold isoReaders
    simp only [fromIsoformat_isoformat moment.inRange]
    rfl

/-- The source has the document of 26 August 2026 and nothing else. -/
def weekOutside : Outside :=
  { smallOutside ["100"] with
    readers := isoReaders
    fetch := fun _ _ start _ =>
      if start.micros = 739854 * DAY - 2 * HOUR then .ok ⟨augustBody, morning, 200⟩
      else .error ⟨.EntsoeNoData, []⟩ }

def weekAnswer (start _ : Instant) : Option Bytes :=
  if start.micros = 739854 * DAY - 2 * HOUR then some augustBody else none

theorem week_deployed : Deployed weekOutside smallEnviron .FR where
  zone := by decide +kernel
  zoneTz := rfl
  database := by decide
  readers := isoReaders_readsIso

theorem week_answers : weekOutside.Answers BiddingZone.FR.value weekAnswer := by
  intro h start stop
  have hfetch : weekOutside.fetch h BiddingZone.FR.value start stop =
    if start.micros = 739854 * DAY - 2 * HOUR then .ok ⟨augustBody, morning, 200⟩
    else .error ⟨.EntsoeNoData, []⟩ := rfl
  rw [hfetch]
  unfold weekAnswer
  split
  · refine ⟨fun fetched hfetched => ?_, fun error herror => nomatch herror⟩
    exact congrArg (fun f => some f.body) (Except.ok.inj hfetched)
  · exact ⟨fun fetched hfetched => (nomatch hfetched), fun _ _ _ => rfl⟩

/-- Of a document whose rows lie on the 26th, the rows of any days do. -/
theorem week_orderly (knownAt : DateTime) (ds : List Date)
    (hbody : Identified (answerRows weekOutside knownAt (some augustBody)) ∧
      ∀ row ∈ answerRows weekOutside knownAt (some augustBody),
        MergeWindow.contains ⟨parisMidnight 739854, parisMidnight 739855⟩ row.validTime = true) :
    OrderlyDays weekOutside knownAt weekAnswer ds := by
  intro day _ bounds hbounds
  have hparis := @settlementDay_paris _ bounds.1 bounds.2 hbounds
  unfold weekAnswer
  split
  · rename_i hstart
    have hordinal : day.ordinal = 739854 := by
      have hoffset := parisOffset_cases (day.ordinal * DAY - 2 * HOUR)
      rw [hparis.1, parisMidnight] at hstart
      generalize parisOffset (day.ordinal * DAY - 2 * HOUR) = offset at *
      rw [DAY_eq, HOUR_eq] at *
      omega
    rw [hparis.1, hparis.2, hordinal]
    exact hbody
  · exact ⟨identified_nil, by simp [answerRows]⟩

theorem week_inRange : 1 ≤ (739848 : Int) ∧ (739848 : Int) ≤ MAX_ORDINAL := by decide

/-- The window of the run on the morning of the 27th. -/
def weekStart : Date := ⟨739848, week_inRange⟩

def weekStop : Date := ⟨739854, august_inRange⟩

theorem week_window : gapWindow morning = .ok (weekStart, weekStop) := by rfl

theorem week_missing : ExactlyMissing (bronze "gridlens_bronze" []) weekStart weekStop
    (days weekStart weekStop) where
  increasing := days_pairwise _ _
  missing _ := mem_days.trans ⟨fun h => ⟨h, fun _ hr => nomatch hr⟩, fun h => h.1⟩

/-- The texts of its days. -/
def weekTexts : List String :=
  (days weekStart weekStop).map fun day => dateText day.ordinal

theorem week_query : RepairState.query onePage morning ⟨[], none, none, []⟩ =
    some ⟨[], some weekTexts, none, []⟩ := by
  have hclient := answersWhole_onePage fun database => bronze database []
  have hle : weekStart.ordinal ≤ weekStop.ordinal := by decide
  have hbounded : Bounded weekStart weekStop := ⟨by decide, by decide⟩
  rcases missingSettlementDays_ok "gridlens_bronze" (hclient _) hle hbounded with
    ⟨found, hfound, hexact⟩
  have hgaps : findGaps (onePage fun database => bronze database []) morning = .ok weekTexts := by
    unfold findGaps
    rw [week_window, ok_bind]
    simp only
    rw [hfound, ok_bind, hexact.unique week_missing]
    rfl
  unfold RepairState.query
  rw [hgaps]
  rfl

/-- What the run has when the gaps are found. -/
def weekFound : Progress RepairTask RepairState :=
  { (Tasks.fresh ⟨[], none, none, []⟩ : Progress RepairTask RepairState).set .findGaps .running with
    state := ⟨[], some weekTexts, none, []⟩ }

/-- The first try is cut off before it asks, the second returns. -/
def weekEvents : List (Occurrence RepairTask RepairAction Effect) :=
  [.returned .findGaps, .began .backfill, .raised .backfill, .outside .began, .began .backfill,
    .acted .backfill .invoked, .returned .backfill]

theorem exists_week : ∃ p, Tasks.run
    (bronzeBackfill weekOutside smallEnviron onePage morning) (Tasks.fresh ⟨[], none, none, []⟩)
      ([.began .findGaps, .acted .findGaps .queried] ++ weekEvents) = some p ∧
        repairGraph.Succeeded p.status := by
  have hfound : Tasks.run (bronzeBackfill weekOutside smallEnviron onePage morning)
      (Tasks.fresh ⟨[], none, none, []⟩) [.began .findGaps, .acted .findGaps .queried] =
        some weekFound :=
    Tasks.run_cons.mpr ⟨_, Tasks.step_began.mpr ⟨rfl, rfl, rfl⟩,
      Tasks.run_cons.mpr ⟨_, Tasks.step_acted.mpr ⟨rfl, _, week_query, rfl⟩, rfl⟩⟩
  have hgreen : (Tasks.run (bronzeBackfill weekOutside smallEnviron onePage morning) weekFound
      weekEvents).any (fun p => p.status .backfill = .ended .success) = true := by decide +kernel
  rcases (Option.any_eq_true _ _).mp hgreen with ⟨p, hrun, hsuccess⟩
  refine ⟨p, Tasks.run_append.mpr ⟨_, hfound, hrun⟩, fun n hleaf => ?_⟩
  cases n with
  | findGaps => exact absurd List.mem_cons_self (hleaf .backfill)
  | backfill => exact Or.inl (of_decide_eq_true hsuccess)

theorem repair_heals_week : ∃ p, Tasks.run
    (bronzeBackfill weekOutside smallEnviron onePage morning) (Tasks.fresh ⟨[], none, none, []⟩)
      ([.began .findGaps, .acted .findGaps .queried] ++ weekEvents) = some p ∧
    ∀ day, MissingDay (bronze "gridlens_bronze" (p.state.history ++ [])) weekStart weekStop day →
      ∀ bounds, settlementDay day PARIS = .ok bounds →
        ∀ row ∈ answerRows weekOutside (wholeSecond morning).toDateTime
            (weekAnswer bounds.1 bounds.2), parisDate row.validTime ≠ day.ordinal := by
  rcases exists_week with ⟨p, hrun, hgreen⟩
  exact ⟨p, hrun, repair_heals week_deployed (fun tables => answersWhole_onePage tables)
    week_answers week_window hrun hgreen []⟩

theorem repair_bounded_week : ∃ p, Tasks.run
    (bronzeBackfill weekOutside smallEnviron onePage morning) (Tasks.fresh ⟨[], none, none, []⟩)
      ([.began .findGaps, .acted .findGaps .queried] ++ weekEvents) = some p ∧
    p.state.invocations.length ≤ 2 ∧ ∀ es ∈ p.state.invocations, (windows es).length ≤ 7 ∧
      ∀ bounds ∈ windows es, ∃ day, settlementDay day PARIS = .ok bounds ∧
        morning.micros / DAY - 7 ≤ day.ordinal ∧ day.ordinal ≤ morning.micros / DAY - 1 := by
  rcases exists_week with ⟨p, hrun, -⟩
  exact ⟨p, hrun, repair_bounded week_deployed (fun tables => answersWhole_onePage tables) hrun⟩

end Gridlens
