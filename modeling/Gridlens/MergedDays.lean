import Gridlens.Resume
import Gridlens.SettlementDays

/-!
# Settlement days merged under one stamp

Every load fetches settlement days one by one and merges the rows of each under
one `known_at`. What that comes to does not depend on who loads.

1. `filled_mergeDays`: a day that was gone over is filled.
2. `mergeDays_again`: days gone over twice, of which either time only the first
   few, are gone over once.
3. `exists_mergedRun`: the days of one stamp are one run, whose batch is the
   rows of all of them.
-/

namespace Gridlens

open Effects Sql

/-- What the source has of a settlement day, as rows under a `known_at`. -/
def dayRows (o : Outside) (knownAt : DateTime) (answer : Instant → Instant → Option Bytes)
    (day : Date) : List Row :=
  match settlementDay day PARIS with
  | .ok (start, stop) => answerRows o knownAt (answer start stop)
  | .error _ => []

/-- What going over a day does to bronze. -/
def mergeDay (o : Outside) (knownAt : DateTime) (answer : Instant → Instant → Option Bytes)
    (T : List Row) (day : Date) : List Row :=
  match settlementDay day PARIS with
  | .ok (start, stop) =>
      merge ⟨start.micros, stop.micros⟩ (answerRows o knownAt (answer start stop)) T
  | .error _ => T

/-- The rows that the source has of these days lie on them, and are distinct. -/
def OrderlyDays (o : Outside) (knownAt : DateTime) (answer : Instant → Instant → Option Bytes)
    (ds : List Date) : Prop :=
  ∀ day ∈ ds, ∀ bounds, settlementDay day PARIS = .ok bounds →
    Identified (answerRows o knownAt (answer bounds.1 bounds.2)) ∧
      ∀ row ∈ answerRows o knownAt (answer bounds.1 bounds.2),
        MergeWindow.contains ⟨bounds.1.micros, bounds.2.micros⟩ row.validTime = true

/-- Wherever the source has a row of the day, the table has one of that time. -/
def Filled (o : Outside) (knownAt : DateTime) (answer : Instant → Instant → Option Bytes)
    (T : List Row) (day : Date) : Prop :=
  ∀ bounds, settlementDay day PARIS = .ok bounds →
    ∀ row ∈ answerRows o knownAt (answer bounds.1 bounds.2), ∃ r ∈ T, r.validTime = row.validTime

theorem bronze_append (database : String) (h es : Trace) :
    bronze database (h ++ es) = ((store database h).after database es).bronze := by
  simp [bronze, store, Store.after]

/-- The effects go over the first few of the days, and all of them where the
call returns. -/
def GoesOver {α : Type} (o : Outside) (knownAt : DateTime)
    (answer : Instant → Instant → Option Bytes) (ds : List Date) (s : Store) (r : Py α)
    (es : Trace) : Prop :=
  ∃ done, done <+: ds ∧ (r.isOk = true → done = ds) ∧
    (s.after "gridlens_bronze" es).bronze = done.foldl (mergeDay o knownAt answer) s.bronze

section Days

variable {o : Outside} {knownAt : DateTime} {answer : Instant → Instant → Option Bytes}
  {T : List Row} {day : Date} {ds done done' : List Date}

/-- A backfill of French days goes over them. -/
theorem landDay_paris (args : BackfillArgs) (hparis : args.zoneTz = PARIS) :
    landDay o args answer = mergeDay o args.knownAt answer := by
  funext T day
  cases hday : settlementDay day PARIS with
  | ok bounds => simp only [landDay, mergeDay, hparis, hday]
  | error error => simp only [landDay, mergeDay, hparis, hday]

/-- A call that raises and leaves bronze alone has gone over nothing. -/
theorem GoesOver.nothing {α : Type} {s : Store} {es : Trace} {asked : List (Instant × Instant)}
    (hes : Quiet "gridlens_bronze" es asked) (error : PyError) :
    GoesOver o knownAt answer ds s (.error error : Py α) es :=
  ⟨[], List.nil_prefix, nofun, hes.bronze s⟩

/-- A backfill goes over its days. -/
theorem ends_backfill_days {h : Trace} (args : BackfillArgs) (hparis : args.zoneTz = PARIS)
    (hdatabase : args.database = "gridlens_bronze") (hans : o.Answers args.zone.value answer)
    (s : Store) :
    Ends o (backfill args) (GoesOver o args.knownAt answer (days args.start args.stop) s) h := by
  refine (ends_backfill hans s).mono fun r es hend => ?_
  rw [hdatabase, landDay_paris args hparis] at hend
  cases r with
  | ok summary => exact ⟨_, List.prefix_refl _, fun _ => rfl, hend⟩
  | error error =>
      rcases hend with ⟨done, hpre, hbronze⟩
      exact ⟨done, hpre, nofun, hbronze⟩

/-! ## Days that are filled -/

/-- A row that is merged is inserted, or one of its time is there. -/
theorem exists_of_merge {W : MergeWindow} {S : List Row} {s : Row} (hs : s ∈ S) :
    ∃ r ∈ merge W S T, r.validTime = s.validTime := by
  by_cases hun : Unchanged T s
  · rcases Option.map_eq_some_iff.mp hun with ⟨r, hr, -⟩
    rcases (Sql.newest_spec hr).1 with ⟨hmem, hkey⟩
    refine ⟨r, ?_, congrArg SeriesKey.validTime hkey⟩
    rw [merge_eq]
    exact List.mem_append_left _ hmem
  · rcases List.mem_map.mp (held_of_merge (W := W) hs hun) with ⟨r, hr, hidentity⟩
    exact ⟨r, hr, congrArg (fun i => i.1.validTime) hidentity⟩

theorem Filled.mono {T' : List Row} (h : Filled o knownAt answer T day) (hT : T ⊆ T') :
    Filled o knownAt answer T' day := by
  intro bounds hbounds row hrow
  rcases h bounds hbounds row hrow with ⟨r, hr, htime⟩
  exact ⟨r, hT hr, htime⟩

theorem subset_mergeDay : T ⊆ mergeDay o knownAt answer T day := by
  unfold mergeDay
  split
  · rw [merge_eq]
    exact List.subset_append_left _ _
  · exact List.Subset.refl _

theorem filled_mergeDay : Filled o knownAt answer (mergeDay o knownAt answer T day) day := by
  intro bounds hbounds row hrow
  unfold mergeDay
  rw [hbounds]
  exact exists_of_merge hrow

theorem subset_mergeDays : T ⊆ ds.foldl (mergeDay o knownAt answer) T := by
  induction ds generalizing T with
  | nil => exact List.Subset.refl T
  | cons d ds ih => exact List.Subset.trans subset_mergeDay ih

/-- Days that were gone over are filled. -/
theorem filled_mergeDays (hday : day ∈ ds) :
    Filled o knownAt answer (ds.foldl (mergeDay o knownAt answer) T) day := by
  induction ds generalizing T with
  | nil => cases hday
  | cons d ds ih =>
      rcases List.mem_cons.mp hday with rfl | hlater
      · exact filled_mergeDay.mono subset_mergeDays
      · exact ih hlater

/-- A row of the table was there or is one of the days'. -/
theorem mem_mergeDays {r : Row} (hr : r ∈ ds.foldl (mergeDay o knownAt answer) T) :
    r ∈ T ∨ ∃ day ∈ ds, ∃ bounds, settlementDay day PARIS = .ok bounds ∧
      r ∈ answerRows o knownAt (answer bounds.1 bounds.2) := by
  induction ds generalizing T with
  | nil => exact Or.inl hr
  | cons day ds ih =>
      rcases ih hr with hone | ⟨day', hday', bounds, hbounds, hrow⟩
      · unfold mergeDay at hone
        split at hone
        · rename_i start stop hbounds
          rw [merge_eq, List.mem_append] at hone
          rcases hone with hbefore | hrow
          · exact Or.inl hbefore
          · exact Or.inr ⟨day, List.mem_cons_self, (start, stop), hbounds,
              (List.mem_filter.mp hrow).1⟩
        · exact Or.inl hone
      · exact Or.inr ⟨day', List.mem_cons_of_mem day hday', bounds, hbounds, hrow⟩

/-! ## Days that are gone over again -/

theorem OrderlyDays.mono (h : OrderlyDays o knownAt answer ds) (hsub : done ⊆ ds) :
    OrderlyDays o knownAt answer done := fun day hday => h day (hsub hday)

/-- A row of a day's answer lies on that day. -/
theorem parisDate_of_orderly (horderly : OrderlyDays o knownAt answer ds) (hday : day ∈ ds)
    {bounds : Instant × Instant} (hbounds : settlementDay day PARIS = .ok bounds) {row : Row}
    (hrow : row ∈ answerRows o knownAt (answer bounds.1 bounds.2)) :
    WallInRange row.validTime ∧ parisDate row.validTime = day.ordinal := by
  have hin := (horderly day hday bounds hbounds).2 row hrow
  simp only [MergeWindow.contains, Bool.and_eq_true, decide_eq_true_eq] at hin
  have hrange : WallInRange row.validTime := by
    have hleft := bounds.1.inRange
    have hright := bounds.2.inRange
    unfold WallInRange at *
    omega
  exact ⟨hrange, (within_settlementDay_iff hbounds ⟨row.validTime, hrange⟩).mp hin⟩

/-- A day is a run of its own. -/
theorem exists_dayRun (horderly : OrderlyDays o knownAt answer ds) (hday : day ∈ ds) :
    ∃ R : Run, R.knownAt = knownAt.wall ∧ R.batch = dayRows o knownAt answer day ∧
      ∀ T, mergeDay o knownAt answer T day = R.apply T := by
  unfold mergeDay dayRows
  cases hbounds : settlementDay day PARIS with
  | error error =>
      exact ⟨⟨⟨0, 0⟩, knownAt.wall, [], by simp, by simp, identified_nil⟩, rfl, rfl,
        fun T => (merge_nil _ T).symm⟩
  | ok bounds =>
      rcases horderly day hday bounds hbounds with ⟨hidentified, hwindow⟩
      exact ⟨⟨_, knownAt.wall, _, answerRows_stamped, hwindow, hidentified⟩, rfl, rfl,
        fun _ => rfl⟩

/-- The days are runs of one `known_at`. -/
theorem exists_runs (horderly : OrderlyDays o knownAt answer ds) :
    ∃ run : Date → Run, (∀ day, (run day).knownAt = knownAt.wall) ∧
      ∀ done : List Date, done ⊆ ds → ∀ T,
        done.foldl (mergeDay o knownAt answer) T = land T (done.map run) := by
  have hexists : ∀ day, ∃ R : Run, R.knownAt = knownAt.wall ∧
      (day ∈ ds → ∀ T, mergeDay o knownAt answer T day = R.apply T) := by
    intro day
    by_cases hday : day ∈ ds
    · rcases exists_dayRun horderly hday with ⟨R, hR, -, happly⟩
      exact ⟨R, hR, fun _ => happly⟩
    · exact ⟨⟨⟨0, 0⟩, _, [], by simp, by simp, identified_nil⟩, rfl, fun h => absurd h hday⟩
  choose run hknown happly using hexists
  refine ⟨run, hknown, fun done hdone => ?_⟩
  induction done with
  | nil => exact fun T => rfl
  | cons day done ih =>
      intro T
      rw [List.foldl_cons, happly day (hdone List.mem_cons_self), List.map_cons, land_cons]
      exact ih (List.subset_of_cons_subset hdone) _

/-- Two attempts leave what the longer one leaves. -/
theorem mergeDays_again (horderly : OrderlyDays o knownAt answer ds) (hdone : done <+: ds)
    (hdone' : done' <+: ds) (T : List Row) :
    ∃ both, both <+: ds ∧ done <+: both ∧ done' <+: both ∧
      done'.foldl (mergeDay o knownAt answer) (done.foldl (mergeDay o knownAt answer) T) =
        both.foldl (mergeDay o knownAt answer) T := by
  rcases exists_runs horderly with ⟨run, hknown, hland⟩
  have hrun : ∀ {done : List Date}, ∀ R ∈ done.map run, R.knownAt = knownAt.wall := by
    intro done R hR
    rcases List.mem_map.mp hR with ⟨day, -, rfl⟩
    exact hknown day
  rw [hland done hdone.subset, hland done' hdone'.subset]
  rcases List.prefix_or_prefix_of_prefix hdone hdone' with hshort | hlong
  · refine ⟨done', hdone', hshort, List.prefix_refl _, ?_⟩
    rw [hland done' hdone'.subset]
    exact land_resumed hrun (hshort.map run)
  · refine ⟨done, hdone, List.prefix_refl _, hlong, ?_⟩
    rw [hland done hdone.subset]
    exact land_eq_self fun R hR => settled_land hrun R ((hlong.map run).subset hR)

/-! ## One run for all of them -/

/-- A row of a day comes with the day. -/
theorem mem_dayRows {row : Row} (hrow : row ∈ dayRows o knownAt answer day) :
    ∃ bounds, settlementDay day PARIS = .ok bounds ∧
      row ∈ answerRows o knownAt (answer bounds.1 bounds.2) := by
  unfold dayRows at hrow
  split at hrow
  · rename_i start stop hbounds
    exact ⟨(start, stop), hbounds, hrow⟩
  · cases hrow

theorem parisDate_dayRows (horderly : OrderlyDays o knownAt answer ds) (hday : day ∈ ds)
    {row : Row} (hrow : row ∈ dayRows o knownAt answer day) :
    WallInRange row.validTime ∧ parisDate row.validTime = day.ordinal := by
  rcases mem_dayRows hrow with ⟨bounds, hbounds, hmem⟩
  exact parisDate_of_orderly horderly hday hbounds hmem

/-- Rows of different days are of different keys. -/
theorem dayRows_apart (horderly : OrderlyDays o knownAt answer ds) {day' : Date}
    (hday : day ∈ ds) (hday' : day' ∈ ds) (hne : day ≠ day') {row row' : Row}
    (hrow : row ∈ dayRows o knownAt answer day) (hrow' : row' ∈ dayRows o knownAt answer day') :
    row.key ≠ row'.key := by
  intro hkey
  have htime : row.validTime = row'.validTime := congrArg SeriesKey.validTime hkey
  have hordinal : day.ordinal = day'.ordinal := by
    rw [← (parisDate_dayRows horderly hday hrow).2, ← (parisDate_dayRows horderly hday' hrow').2,
      htime]
  exact hne (date_eq_iff.mpr hordinal)

/-- The rows of all the days are distinct. -/
theorem identified_dayRows (horderly : OrderlyDays o knownAt answer ds) (hnodup : ds.Nodup) :
    Identified (ds.flatMap (dayRows o knownAt answer)) := by
  rw [Identified, List.map_flatMap, List.nodup_flatMap]
  refine ⟨fun day hday => ?_, hnodup.pairwise_of_forall_ne fun day hday day' hday' hne => ?_⟩
  · rcases exists_dayRun horderly hday with ⟨R, -, hbatch, -⟩
    exact hbatch ▸ R.identified
  · intro i hi hi'
    rcases List.mem_map.mp hi with ⟨row, hrow, rfl⟩
    rcases List.mem_map.mp hi' with ⟨row', hrow', hid⟩
    exact dayRows_apart horderly hday hday' hne hrow hrow' (congrArg Prod.fst hid).symm

/-- A run that carries nothing of a row's key leaves it to be decided as before. -/
theorem decided_apply {R : Run} {s : Row} (h : R.row? s.key = none) :
    (Unchanged (R.apply T) s ↔ Unchanged T s) ∧ (Held (R.apply T) s ↔ Held T s) := by
  refine ⟨by rw [Unchanged, Unchanged, newestHeld_apply_of_none h], fun hheld => ?_,
    fun hheld => hheld.mono (R.prefix_apply T)⟩
  rcases List.mem_map.mp hheld with ⟨r, hr, hid⟩
  rcases Run.mem_apply.mp hr with hbefore | ⟨hin, -⟩
  · rw [Held, ← hid]
    exact List.mem_map_of_mem hbefore
  · exact absurd (congrArg Prod.fst hid) (Run.row?_eq_none.mp h r hin)

/-- What is inserted of the later days does not depend on the first. -/
theorem mergeDays_eq (horderly : OrderlyDays o knownAt answer ds) (hnodup : ds.Nodup)
    (T : List Row) : ds.foldl (mergeDay o knownAt answer) T =
      T ++ (ds.flatMap (dayRows o knownAt answer)).filter
        fun s => ¬ Unchanged T s ∧ ¬ Held T s := by
  induction ds generalizing T with
  | nil => exact (List.append_nil T).symm
  | cons day ds ih =>
      rcases List.nodup_cons.mp hnodup with ⟨hnew, hrest⟩
      rcases exists_dayRun horderly (List.mem_cons_self (a := day)) with ⟨R, -, hbatch, happly⟩
      have hsame : ∀ s ∈ ds.flatMap (dayRows o knownAt answer),
          (Unchanged (R.apply T) s ↔ Unchanged T s) ∧ (Held (R.apply T) s ↔ Held T s) := by
        intro s hs
        rcases List.mem_flatMap.mp hs with ⟨day', hday', hrow'⟩
        refine decided_apply (Run.row?_eq_none.mpr ?_)
        rw [hbatch]
        intro r hr
        exact dayRows_apart horderly List.mem_cons_self (List.mem_cons_of_mem day hday')
          (fun heq => hnew (heq ▸ hday')) hr hrow'
      have hfilter : (ds.flatMap (dayRows o knownAt answer)).filter
            (fun s => ¬ Unchanged (R.apply T) s ∧ ¬ Held (R.apply T) s) =
          (ds.flatMap (dayRows o knownAt answer)).filter
            (fun s => ¬ Unchanged T s ∧ ¬ Held T s) := by
        refine List.filter_congr fun s hs => decide_eq_decide.mpr ?_
        rw [(hsame s hs).1, (hsame s hs).2]
      rw [List.foldl_cons, happly, ih (horderly.mono (List.subset_cons_self day ds)) hrest, hfilter,
        Run.apply_eq, hbatch, List.flatMap_cons, List.filter_append, List.append_assoc]

/-- Distinct days of one stamp are one run, of the rows of all of them. -/
theorem exists_mergedRun (horderly : OrderlyDays o knownAt answer ds) (hnodup : ds.Nodup) :
    ∃ R : Run, R.knownAt = knownAt.wall ∧ R.batch = ds.flatMap (dayRows o knownAt answer) ∧
      ∀ T, ds.foldl (mergeDay o knownAt answer) T = R.apply T := by
  have hstamped : ∀ s ∈ ds.flatMap (dayRows o knownAt answer), s.knownAt = knownAt.wall := by
    intro s hs
    rcases List.mem_flatMap.mp hs with ⟨day, -, hrow⟩
    rcases mem_dayRows hrow with ⟨bounds, -, hmem⟩
    exact answerRows_stamped s hmem
  -- any window will do that holds every time there is
  have hwindow : ∀ s ∈ ds.flatMap (dayRows o knownAt answer),
      MergeWindow.contains ⟨DAY, (MAX_ORDINAL + 1) * DAY⟩ s.validTime = true := by
    intro s hs
    rcases List.mem_flatMap.mp hs with ⟨day, hday, hrow⟩
    simp only [MergeWindow.contains, Bool.and_eq_true, decide_eq_true_eq]
    exact (parisDate_dayRows horderly hday hrow).1
  refine ⟨⟨_, knownAt.wall, _, hstamped, hwindow, identified_dayRows horderly hnodup⟩, rfl, rfl,
    fun T => ?_⟩
  rw [Run.apply_eq]
  exact mergeDays_eq horderly hnodup T

end Days

end Gridlens
