import Gridlens.Calls
import Gridlens.Sql.Totals
import Mathlib.Algebra.Order.BigOperators.Group.List

/-!
# What bronze holds at every moment

`gridlens.quality.queries.INVARIANTS` looks at the table as a whole for what
the writer is supposed to guarantee. Part of it the writer does guarantee:
every row is a record of the contract (`bronze_sound`), so its period is not
later than its `known_at`, its quantity is plausible and nothing was rounded,
and its period lies on a boundary.

The other part rests on `known_at`, which a caller may give. Where it is a
reading of the clock, it is not later than the merge that carries it. Where it
is given, nothing compares it with the clock: `guarantees_iff` says that a
`known_at` given later than the clock, on a merge that inserts a row, is the
only way to a row learned in the future.
-/

namespace Gridlens

open Effects

/-! ## The query -/

/-- `current_timestamp`, which has milliseconds. -/
def currentTimestamp (now : Instant) : Int := now.micros - now.micros % 1000

/-- `keyed`: the bitemporal identities, with how often each is held. -/
def keyed (T : List Row) : List ((SeriesKey × Int) × Int) :=
  Sql.groupBy Row.identity (fun rows => (rows.length : Int)) T

/-- The row `INVARIANTS` returns. -/
structure InvariantCounts where
  duplicateKeys : Int
  futurePeriods : Nat
  knownBeforeItHappened : Nat
  negativeQuantities : Nat
  /-- Null over an empty table. -/
  hoursSinceLastLearned : Option Int

/-- `INVARIANTS`, run at a moment. -/
def INVARIANTS (T : List Row) (now : Instant) : InvariantCounts where
  duplicateKeys :=
    (Sql.sum (((keyed T).filter fun g => 1 < g.2).map fun g => some (g.2 - 1))).getD 0
  futurePeriods := (T.filter fun r => r.validTime > currentTimestamp now).length
  knownBeforeItHappened := (T.filter fun r => r.knownAt < r.validTime).length
  negativeQuantities := (T.filter fun r => r.quantityMw < 0).length
  hoursSinceLastLearned :=
    (T.map Row.knownAt).max?.map fun latest => (currentTimestamp now - latest).tdiv HOUR

section Keyed

variable {T : List Row}

theorem mem_keyed {g : (SeriesKey × Int) × Int} :
    g ∈ keyed T ↔ g.1 ∈ T.map Row.identity ∧ g.2 = (T.map Row.identity).count g.1 := by
  have hcount : (Sql.partition Row.identity g.1 T).length = (T.map Row.identity).count g.1 := by
    rw [List.count_eq_countP, List.countP_map, List.countP_eq_length_filter, Sql.partition]
    congr 2
    funext r
    exact (beq_eq_decide (Row.identity r) g.1).symm
  rw [keyed, Sql.mem_groupBy, List.mem_map, hcount]

/-- `duplicate_keys` is zero exactly where no two rows share an identity. -/
theorem duplicateKeys_eq_zero_iff (now : Instant) :
    (INVARIANTS T now).duplicateKeys = 0 ↔ Identified T := by
  -- no group is counted exactly where no identity is held twice
  have hnone : (keyed T).filter (fun g => 1 < g.2) = [] ↔ Identified T := by
    rw [List.filter_eq_nil_iff, Identified, List.nodup_iff_count_le_one]
    constructor
    · intro hall i
      by_cases hi : i ∈ T.map Row.identity
      · have hle := hall (i, ((T.map Row.identity).count i : Int)) (mem_keyed.mpr ⟨hi, rfl⟩)
        simpa using hle
      · rw [List.count_eq_zero_of_not_mem hi]
        exact Nat.zero_le 1
    · intro hle g hg
      have hcount := hle g.1
      rw [(mem_keyed.mp hg).2, decide_eq_true_eq, not_lt]
      exact_mod_cast hcount
  rw [← hnone]
  show (Sql.sum (((keyed T).filter fun g => 1 < g.2).map fun g => some (g.2 - 1))).getD 0 = 0 ↔ _
  rcases List.eq_nil_or_concat ((keyed T).filter fun g => 1 < g.2) with hnil | hmany
  · rw [hnil]
    simp [Sql.sum]
  · have hne : (keyed T).filter (fun g => 1 < g.2) ≠ [] := by
      rcases hmany with ⟨groups, g, heq⟩
      rw [heq]
      simp
    -- every group that is counted adds at least one
    have hpos : 0 < (((keyed T).filter fun g => 1 < g.2).map fun g => g.2 - 1).sum := by
      refine List.sum_pos _ (fun n hn => ?_) (by simpa using hne)
      rcases List.mem_map.mp hn with ⟨g, hg, rfl⟩
      have hcopies := of_decide_eq_true (List.mem_filter.mp hg).2
      omega
    rw [Sql.sum_map_some _ hne, Option.getD_some]
    exact iff_of_false hpos.ne' hne

end Keyed

/-! ## What a row keeps -/

/-- What the record contract says of a row. -/
structure Row.Sound (row : Row) : Prop where
  known_after : row.validTime ≤ row.knownAt
  quantity_bounds : 0 ≤ row.quantityMw ∧ row.quantityMw ≤ MAX_QUANTITY_MW * 1000
  /-- The thousandths are all of a quantity the contract accepts. -/
  three_decimals : ∃ q, Plausible q ∧ (Decimal.ofThousandths row.quantityMw).equals q = true
  resolution_bounds : 0 < row.resolutionMinutes ∧ row.resolutionMinutes ≤ 1440
  on_boundary : row.validTime % DAY % (row.resolutionMinutes * MINUTE) = 0

theorem stagedRow_sound (r : GenerationRecord) : (stagedRow r).Sound where
  known_after := r.known_after
  quantity_bounds := r.quantity_plausible.thousandths_bounds
  three_decimals := ⟨r.quantityMw, r.quantity_plausible, r.equals_thousandths⟩
  resolution_bounds := r.resolution_bounds
  on_boundary := r.on_boundary

/-- A period on a boundary begins on a whole minute. -/
theorem Row.Sound.minute {row : Row} (h : row.Sound) : MINUTE ∣ row.validTime := by
  have hday : MINUTE ∣ DAY := ⟨1440, rfl⟩
  have hperiod : MINUTE ∣ row.validTime % DAY :=
    (Dvd.intro_left row.resolutionMinutes rfl).trans (Int.dvd_of_emod_eq_zero h.on_boundary)
  rw [← Int.emod_add_mul_ediv row.validTime DAY]
  exact Int.dvd_add hperiod (Int.dvd_mul_of_dvd_left hday)

/-- So milliseconds are enough to see whether it lies in the future. -/
theorem Row.Sound.le_currentTimestamp {row : Row} (h : row.Sound) {now : Instant}
    (hnow : row.validTime ≤ now.micros) : row.validTime ≤ currentTimestamp now := by
  rcases h.minute with ⟨minutes, hminutes⟩
  have hminute : MINUTE = 60000000 := rfl
  rw [hminute] at hminutes
  unfold currentTimestamp
  omega

/-! ## What an effect inserts -/

section Inserted

variable {database : String} {h : Trace} {e : Effect} {row : Row}

/-- The rows an effect inserts. -/
def inserted (database : String) (h : Trace) (e : Effect) : List Row :=
  (bronze database (h ++ [e])).drop (bronze database h).length

/-- Nothing is removed, so what is held afterwards was held or is new. -/
theorem bronze_concat (database : String) (h : Trace) (e : Effect) :
    bronze database (h ++ [e]) = bronze database h ++ inserted database h e := by
  have hpre : bronze database h <+: bronze database (h ++ [e]) := by
    rw [bronze, bronze, store_concat]
    exact Store.prefix_step database _ e
  rcases hpre with ⟨new, hnew⟩
  rw [inserted, ← hnew, List.drop_left]

/-- A row that is new is of the batch of a merge. -/
theorem mem_inserted (hrow : row ∈ inserted database h e) :
    ∃ workgroup batchId W outcome, e = .merged database workgroup batchId W outcome ∧
      row ∈ (store database h).batch batchId := by
  have hstep : bronze database (h ++ [e]) = ((store database h).step database e).bronze := by
    rw [bronze, store_concat]
  rw [inserted, hstep, Store.step_bronze] at hrow
  cases e with
  | merged database' workgroup batchId W outcome =>
      simp only at hrow
      split at hrow
      · -- behind the rows held stand the staged rows the merge keeps
        rename_i hcommit
        rcases hcommit with ⟨rfl, -⟩
        rw [bronze, merge_eq, List.drop_left] at hrow
        exact ⟨workgroup, batchId, W, outcome, rfl, List.mem_of_mem_filter hrow⟩
      · rw [bronze, List.drop_length] at hrow
        cases hrow
  | _ =>
      simp only [bronze, List.drop_length] at hrow
      cases hrow

/-- Every row held was inserted by some effect. -/
theorem exists_inserted (hrow : row ∈ bronze database h) :
    ∃ pre e, pre ++ [e] <+: h ∧ row ∈ inserted database pre e := by
  induction h using List.reverseRecOn with
  | nil => cases hrow
  | append_singleton h e ih =>
      rw [bronze_concat, List.mem_append] at hrow
      rcases hrow with hheld | hnew
      · rcases ih hheld with ⟨pre, e', hpre, hinserted⟩
        exact ⟨pre, e', hpre.trans (List.prefix_append h [e]), hinserted⟩
      · exact ⟨h, e, List.prefix_refl _, hnew⟩

/-- Every row is a record of the contract. -/
theorem bronze_sound (hrow : row ∈ bronze database h) : row.Sound := by
  rcases exists_inserted hrow with ⟨pre, e, -, hinserted⟩
  rcases mem_inserted hinserted with ⟨_, batchId, _, _, -, hbatch⟩
  rcases List.mem_map.mp hbatch with ⟨r, -, rfl⟩
  exact stagedRow_sound r

end Inserted

/-! ## The clock, and what a call is given -/

/-- The clock does not go back, and a fetch is stamped when its answer is there. -/
structure Outside.Clocked (o : Outside) : Prop where
  now_le : ∀ h e, (o.now h).micros ≤ (o.now (h ++ [e])).micros
  fetchedAt_le : ∀ h code start stop fetched, o.fetch h code start stop = .ok fetched →
    fetched.fetchedAt.micros ≤ (o.now (h ++ [.fetched code start stop (.ok fetched)])).micros

/-- The moment an event gives as `known_at`, if it gives one. -/
def Event.given (readers : Readers) (event : Event) : Option Int :=
  if event.knownAt = "" then none
  else (readers.datetime (replaceZ event.knownAt)).toOption.bind fun moment =>
    moment.utcoffset.map fun offset => moment.wall - offset

/-- The `known_at` a call is given, if it is given one. -/
def Call.given (o : Outside) : Call → Option Int
  | .ingest _ event => event.given o.readers
  | .backfill args => some args.knownAt.wall
  | .refetch _ event => event.given o.readers
  | .poll _ => none

section Clock

variable {o : Outside} {h h' : Trace}

theorem Outside.Clocked.mono (ho : o.Clocked) (hpre : h <+: h') :
    (o.now h).micros ≤ (o.now h').micros := by
  rcases hpre with ⟨rest, rfl⟩
  induction rest using List.reverseRecOn with
  | nil => rw [List.append_nil]
  | append_singleton rest e ih =>
      rw [← List.append_assoc]
      exact ih.trans (ho.now_le _ e)

/-- What `parse_known_at` makes of an event: the moment given, or the default. -/
theorem parseKnownAt_ok {readers : Readers} {event : Event} {now : Instant} {knownAt : DateTime}
    (hknown : (parseKnownAt readers event.knownAt now).map Instant.toDateTime = .ok knownAt) :
    event.given readers = some knownAt.wall ∨
      (event.given readers = none ∧ knownAt.wall = now.micros) := by
  cases hparse : parseKnownAt readers event.knownAt now with
  | error error =>
      rw [hparse] at hknown
      cases hknown
  | ok known =>
      rw [hparse] at hknown
      cases hknown
      unfold parseKnownAt at hparse
      unfold Event.given
      split at hparse
      · rename_i hnone
        cases hparse
        rw [if_pos hnone]
        exact Or.inr ⟨rfl, rfl⟩
      · rename_i hsome
        rw [bind_eq_ok] at hparse
        rcases hparse with ⟨moment, hmoment, hoffset⟩
        rw [if_neg hsome, hmoment]
        left
        split at hoffset
        · cases hoffset
        · rename_i offset hutc
          show _ = some known.micros
          rw [Instant.ofMicros_ok hoffset]
          simp [Except.toOption, hutc]

/-- A document becomes known at the moment the call is given, or else at a
reading of the clock. -/
theorem Call.knownAt_ok {c : Call} {fetched : FetchResult} {knownAt : DateTime}
    (hknown : c.knownAt o h fetched = .ok knownAt) :
    c.given o = some knownAt.wall ∨ (c.given o = none ∧
      (knownAt.wall ≤ fetched.fetchedAt.micros ∨ knownAt.wall ≤ (o.now h).micros)) := by
  cases c with
  | ingest environ event =>
      rcases parseKnownAt_ok hknown with hgiven | ⟨hgiven, hwall⟩
      · exact Or.inl hgiven
      · exact Or.inr ⟨hgiven, Or.inl hwall.le⟩
  | backfill args =>
      cases hknown
      exact Or.inl rfl
  | refetch environ event =>
      rcases parseKnownAt_ok hknown with hgiven | ⟨hgiven, hwall⟩
      · exact Or.inl hgiven
      · exact Or.inr ⟨hgiven, Or.inr hwall.le⟩
  | poll args =>
      cases hknown
      refine Or.inr ⟨rfl, Or.inl ?_⟩
      show fetched.fetchedAt.micros - fetched.fetchedAt.micros % 1000000 ≤ _
      omega

end Clock

/-! ## The effects of a run -/

/-- The trace in which the next call begins. -/
def started (o : Outside) (before : List Call) : Trace := runAll o before ++ [.began]

section Steps

variable {o : Outside} {calls : List Call} {pre : Trace} {e : Effect}

/-- The last of some effects is among the first ones, or after them. -/
theorem concat_prefix_append {A B : Trace} (hpre : pre ++ [e] <+: A ++ B) :
    pre ++ [e] <+: A ∨ ∃ es, pre = A ++ es ∧ es ++ [e] <+: B := by
  -- of two prefixes of one list, one is a prefix of the other
  rcases List.prefix_or_prefix_of_prefix hpre (List.prefix_append A B) with hbefore | hafter
  · exact Or.inl hbefore
  · rcases List.prefix_concat_iff.mp hafter with rfl | hstrict
    · exact Or.inl (List.prefix_refl _)
    · rcases hstrict with ⟨es, rfl⟩
      rw [List.append_assoc, List.prefix_append_right_inj] at hpre
      exact Or.inr ⟨es, rfl, hpre⟩

/-- Every effect but the mark is an effect of some call. -/
theorem exists_call_of_effect (hpre : pre ++ [e] <+: runAll o calls) (he : e ≠ .began) :
    ∃ before c es, before ++ [c] <+: calls ∧ pre = started o before ++ es ∧
      es ++ [e] <+: (c.run o (started o before)).2 := by
  induction calls using List.reverseRecOn with
  | nil => simp [runAll] at hpre
  | append_singleton calls c ih =>
      rw [runAll_concat, Call.after] at hpre
      rcases concat_prefix_append hpre with hbefore | ⟨es, rfl, hes⟩
      · rcases concat_prefix_append hbefore with hearlier | ⟨es, -, hmark⟩
        · rcases ih hearlier with ⟨before, c', es, hcalls, hstart, hes⟩
          exact ⟨before, c', es, hcalls.trans (List.prefix_append _ _), hstart, hes⟩
        · -- the mark itself
          have hlast := hmark.subset (List.mem_append_right es (List.mem_singleton_self e))
          exact absurd (List.mem_singleton.mp hlast) he
      · exact ⟨calls, c, es, List.prefix_refl _, rfl, hes⟩

/-- And every effect of a call is one of the run. -/
theorem effect_of_call {before : List Call} {c : Call} {es : Trace} (hcalls : before ++ [c] <+: calls)
    (hes : es ++ [e] <+: (c.run o (started o before)).2) :
    started o before ++ es ++ [e] <+: runAll o calls := by
  refine List.IsPrefix.trans ?_ (runAll_mono hcalls)
  rw [runAll_concat, List.append_assoc]
  exact (List.prefix_append_right_inj _).mpr hes

/-- A fetch has the answer of the outside. -/
def Answered (o : Outside) (h : Trace) : Effect → Prop
  | .fetched code start stop answer => answer = o.fetch h code start stop
  | _ => True

theorem GatedAs.answered {k : FetchResult → Py DateTime} {h : Trace} (he : GatedAs o k h e) :
    Answered o h e := by
  cases e with
  | fetched code start stop answer => exact he
  | _ => trivial

/-- What was fetched in a run was stamped at a moment that has passed. -/
theorem fetchedAt_le_now {code : String} {start stop : Instant} {fetched : FetchResult}
    (ho : o.Clocked) (hpre : pre <+: runAll o calls)
    (hmem : .fetched code start stop (.ok fetched) ∈ pre) :
    fetched.fetchedAt.micros ≤ (o.now pre).micros := by
  rcases List.append_of_mem hmem with ⟨h, rest, hsplit⟩
  have hat : h ++ [.fetched code start stop (.ok fetched)] <+: pre := ⟨rest, by simp [hsplit]⟩
  have hanswered : Along (Answered o) [] (runAll o calls) :=
    along_runAll (fun _ => trivial) (fun c _ => (wp_run c).1.mono fun _ _ => GatedAs.answered) calls
  have hanswer : .ok fetched = o.fetch h code start stop := hanswered.at (hat.trans hpre)
  exact (ho.fetchedAt_le h code start stop fetched hanswer.symm).trans (ho.mono hat)

/-- A row a call inserts carries the `known_at` of a document of the call. -/
theorem inserted_knownAt {database : String} {c : Call} {h es : Trace} {row : Row}
    (hes : es ++ [e] <+: (c.run o h).2) (hrow : row ∈ inserted database (h ++ es) e) :
    ∃ code start stop fetched knownAt, .fetched code start stop (.ok fetched) ∈ h ++ es ∧
      c.knownAt o h fetched = .ok knownAt ∧ row.knownAt = knownAt.wall := by
  rcases mem_inserted hrow with ⟨workgroup, batchId, W, outcome, rfl, hbatch⟩
  rcases (wp_run c).1.at_append hes with
    ⟨_, _, start, stop, code, fetched, knownAt, result, -, -, hfetched, hknown, hgate, hstaged⟩
  -- the batch is what the gate made of that document
  rw [hstaged database] at hbatch
  rcases List.mem_map.mp hbatch with ⟨r, hr, rfl⟩
  rcases bind_eq_ok.mp hgate with ⟨document, -, happly⟩
  exact ⟨code, start, stop, fetched, knownAt, hfetched, hknown, stamped_applyGate happly r hr⟩

end Steps

/-! ## What is guaranteed, and when -/

/-- What bronze and `INVARIANTS` show after `h`. -/
structure Guarantees (o : Outside) (database : String) (h : Trace) : Prop where
  sound : ∀ row ∈ bronze database h, row.Sound
  /-- No row was learned later than its merge committed. -/
  learned : ∀ pre e, pre ++ [e] <+: h → ∀ row ∈ inserted database pre e,
    row.knownAt ≤ (o.now (pre ++ [e])).micros
  futurePeriods : ∀ now, (o.now h).micros ≤ now.micros →
    (INVARIANTS (bronze database h) now).futurePeriods = 0
  knownBeforeItHappened : ∀ now, (INVARIANTS (bronze database h) now).knownBeforeItHappened = 0
  negativeQuantities : ∀ now, (INVARIANTS (bronze database h) now).negativeQuantities = 0

/-- A call that is given a `known_at` merges no new row before that moment. -/
def Timely (o : Outside) (database : String) (calls : List Call) : Prop :=
  ∀ before c, before ++ [c] <+: calls → ∀ known, c.given o = some known →
    ∀ es e, es ++ [e] <+: (c.run o (started o before)).2 →
      inserted database (started o before ++ es) e ≠ [] →
        known ≤ (o.now (started o before ++ es ++ [e])).micros

section Guarantees

variable {o : Outside} {database : String} {calls : List Call} {h : Trace}

theorem learned_of_timely (ho : o.Clocked) (htimely : Timely o database calls) {pre : Trace}
    {e : Effect} {row : Row} (hpre : pre ++ [e] <+: runAll o calls)
    (hrow : row ∈ inserted database pre e) : row.knownAt ≤ (o.now (pre ++ [e])).micros := by
  have hmerge : e ≠ .began := by
    rcases mem_inserted hrow with ⟨_, _, _, _, rfl, -⟩
    exact Effect.noConfusion
  rcases exists_call_of_effect hpre hmerge with ⟨before, c, es, hcalls, rfl, hes⟩
  rcases inserted_knownAt hes hrow with ⟨_, _, _, fetched, knownAt, hfetched, hknown, hwall⟩
  rw [hwall]
  rcases Call.knownAt_ok hknown with hgiven | ⟨-, hstamp | hnow⟩
  · -- given: the condition
    exact htimely before c hcalls _ hgiven es e hes (List.ne_nil_of_mem hrow)
  · -- the stamp of the fetch
    have hpast := fetchedAt_le_now ho ((List.prefix_append _ [e]).trans hpre) hfetched
    exact hstamp.trans (hpast.trans (ho.now_le _ e))
  · -- the clock at the beginning of the call
    refine hnow.trans (ho.mono ?_)
    rw [List.append_assoc]
    exact List.prefix_append _ _

/-- Where nothing was learned in the future, no period lies there. -/
theorem futurePeriods_eq_zero (ho : o.Clocked)
    (hlearned : ∀ pre e, pre ++ [e] <+: h → ∀ row ∈ inserted database pre e,
      row.knownAt ≤ (o.now (pre ++ [e])).micros) {now : Instant}
    (hnow : (o.now h).micros ≤ now.micros) :
    (INVARIANTS (bronze database h) now).futurePeriods = 0 := by
  refine List.length_eq_zero_iff.mpr (List.filter_eq_nil_iff.mpr fun row hrow => ?_)
  rcases exists_inserted hrow with ⟨pre, e, hpre, hinserted⟩
  have hsound := bronze_sound hrow
  have hle : row.validTime ≤ now.micros :=
    calc row.validTime ≤ row.knownAt := hsound.known_after
      _ ≤ (o.now (pre ++ [e])).micros := hlearned pre e hpre row hinserted
      _ ≤ (o.now h).micros := ho.mono hpre
      _ ≤ now.micros := hnow
  rw [decide_eq_true_eq, gt_iff_lt, not_lt]
  exact hsound.le_currentTimestamp hle

theorem guarantees_of_learned (ho : o.Clocked)
    (hlearned : ∀ pre e, pre ++ [e] <+: h → ∀ row ∈ inserted database pre e,
      row.knownAt ≤ (o.now (pre ++ [e])).micros) : Guarantees o database h where
  sound _ hrow := bronze_sound hrow
  learned := hlearned
  futurePeriods _ hnow := futurePeriods_eq_zero ho hlearned hnow
  knownBeforeItHappened _ := by
    refine List.length_eq_zero_iff.mpr (List.filter_eq_nil_iff.mpr fun row hrow => ?_)
    rw [decide_eq_true_eq, not_lt]
    exact (bronze_sound hrow).known_after
  negativeQuantities _ := by
    refine List.length_eq_zero_iff.mpr (List.filter_eq_nil_iff.mpr fun row hrow => ?_)
    rw [decide_eq_true_eq, not_lt]
    exact (bronze_sound hrow).quantity_bounds.1

/-- Over any sequence of calls, bronze keeps all of it at every moment if and
only if no call is given a `known_at` later than a merge of new rows. -/
theorem guarantees_iff (o : Outside) (ho : o.Clocked) (database : String) (calls : List Call) :
    (∀ h, h <+: runAll o calls → Guarantees o database h) ↔ Timely o database calls := by
  constructor
  · intro hall before c hcalls known hgiven es e hes hnew
    have hpre := effect_of_call hcalls hes
    rcases List.exists_mem_of_ne_nil _ hnew with ⟨row, hrow⟩
    have hlearned := (hall _ (List.prefix_refl _)).learned _ e hpre row hrow
    -- the row carries what the call was given
    rcases inserted_knownAt hes hrow with ⟨_, _, _, fetched, knownAt, -, hknown, hwall⟩
    rcases Call.knownAt_ok hknown with hgiven' | ⟨hgiven', -⟩
    · rw [hgiven] at hgiven'
      cases hgiven'
      rw [← hwall]
      exact hlearned
    · -- a call that is given a moment takes no other
      rw [hgiven] at hgiven'
      cases hgiven'
  · intro htimely h hpre
    exact guarantees_of_learned ho fun pre e hbefore row hrow =>
      learned_of_timely ho htimely (hbefore.trans hpre) hrow

end Guarantees

/-! ## A row learned tomorrow -/

theorem smallOutside_clocked (quantities : List String) : (smallOutside quantities).Clocked where
  now_le _ _ := le_refl _
  fetchedAt_le _ _ _ _ fetched hfetch := by
    cases hfetch
    exact le_refl _

theorem timely_smallBackfill :
    Timely (smallOutside ["100"]) "gridlens_bronze" [smallBackfill] := by
  intro before c hcalls known hgiven es e _ _
  have hlength := hcalls.length_le
  rw [List.length_append, List.length_singleton, List.length_singleton] at hlength
  have hfirst : before = [] := List.eq_nil_of_length_eq_zero (by omega)
  rw [hfirst] at hcalls
  have hcall : c = smallBackfill := by simpa using hcalls
  have hmorning : smallBackfill.given (smallOutside ["100"]) = some morning.micros := rfl
  rw [hcall, hmorning] at hgiven
  rw [← Option.some.inj hgiven]
  -- the moment the clock shows
  exact le_refl morning.micros

/-- A backfill as known now. -/
theorem guarantees_smallBackfill : Guarantees (smallOutside ["100"]) "gridlens_bronze"
    (runAll (smallOutside ["100"]) [smallBackfill]) :=
  (guarantees_iff (smallOutside ["100"]) (smallOutside_clocked ["100"]) "gridlens_bronze"
    [smallBackfill]).mpr timely_smallBackfill _ (List.prefix_refl _)

/-- 11:00 UTC on 26 August 2026, an hour before the period of the document. -/
abbrev eleven : Instant := ⟨noonPlus (-1), by decide⟩

/-- The small outside at that moment. -/
def elevenOutside : Outside :=
  { smallOutside ["100"] with
    now := fun _ => eleven
    fetch := fun h code start stop =>
      ((smallOutside ["100"]).fetch h code start stop).map fun fetched =>
        { fetched with fetchedAt := eleven } }

theorem elevenOutside_clocked : elevenOutside.Clocked where
  now_le _ _ := le_refl _
  fetchedAt_le h code start stop fetched hfetch := by
    have hstamp : ∀ x : Py FetchResult,
        (x.map fun fetched => { fetched with fetchedAt := eleven }) = .ok fetched →
          fetched.fetchedAt = eleven := by
      intro x hx
      cases x with
      | error error => cases hx
      | ok fetched' =>
          cases hx
          rfl
    have heleven := hstamp ((smallOutside ["100"]).fetch h code start stop) hfetch
    exact (congrArg Instant.micros heleven).le

/-- A backfill as known the next morning, at 06:00: the document has a period
that has not begun, and the row is taken. -/
theorem future_row_taken : elevenOutside.Clocked ∧
    ¬ ∀ h, h <+: runAll elevenOutside [smallBackfill] →
      Guarantees elevenOutside "gridlens_bronze" h := by
  refine ⟨elevenOutside_clocked, fun hall => ?_⟩
  have hzero := (hall _ (List.prefix_refl _)).futurePeriods eleven (le_refl _)
  have hone : (INVARIANTS (bronze "gridlens_bronze" (runAll elevenOutside [smallBackfill]))
      eleven).futurePeriods = 1 := by
    decide +kernel
  rw [hone] at hzero
  cases hzero

end Gridlens
