import Gridlens.Teardown

/-!
# What a teardown that returns has done

`teardown_confined` says what the script never does. This is the other half: a
run that returns has dropped every relation the catalog listed, one after
another and each to its success, has deleted the schema behind them, and then
has requested the deletion of every object the store listed. Its summary says
so (`teardown_done`). No call was refused; what an answer says of single keys
is not looked at.
-/

namespace Gridlens.Teardown

open Effects
open Effects.Program (lift ask act)

/-! ## Deeds -/

/-- What a teardown does to what is there. -/
inductive Deed where
  | drop (sql : String)
  | schema (name : String)
  | objects (bucket : String) (keys : List String)
deriving DecidableEq, Repr

def deedOf : Effect → Option Deed
  | .query sql _ _ => some (.drop sql)
  | .deletedDatabase name _ => some (.schema name)
  | .deletedObjects bucket keys _ => some (.objects bucket keys)
  | _ => none

/-- In the order they were done. -/
def deeds (es : List Effect) : List Deed := es.filterMap deedOf

/-- The drops of a listing, and the schema behind them. -/
def dropDeeds (database : String) (found : Option (List (String × Bool))) : List Deed :=
  (found.getD []).map (fun relation => .drop (dropSql database relation)) ++
    if found.isSome then [.schema database] else []

/-- The effect is answered, and no drop that fails. -/
def Fine : Effect → Prop
  | .query _ _ id => id.isOk = true
  | .status _ (.ok status) => status.State ∈ TERMINAL → status.State = "SUCCEEDED"
  | .status _ (.error _) => False
  | .slept => True
  | .deletedDatabase _ answer => answer.isOk = true
  | .deletedObjects _ _ answer => answer.isOk = true

/-- These deeds were done: every call was answered, and every drop succeeded. -/
structure Done (done : List Deed) (es : List Effect) : Prop where
  deeds : deeds es = done
  fine : ∀ e ∈ es, Fine e
  dropped : ∀ sql, .drop sql ∈ done → Succeeded es sql

section Done

variable {o : Outside} {database workgroup : String} {isalnum : Char → Bool} {polls : Nat}
  {h es es' : List Effect} {done done' : List Deed} {sql : String}

theorem Succeeded.prepend (hdone : Succeeded es' sql) (es : List Effect) :
    Succeeded (es ++ es') sql := by
  rcases hdone with ⟨before, workgroup, id, waits, status, after, rfl, hwaits, hstate⟩
  refine ⟨es ++ before, workgroup, id, waits, status, after, ?_, hwaits, hstate⟩
  simp

theorem Done.nil : Done [] [] :=
  ⟨rfl, fun _ he => absurd he List.not_mem_nil, fun _ hsql => absurd hsql List.not_mem_nil⟩

theorem Done.append (hes : Done done es) (hes' : Done done' es') :
    Done (done ++ done') (es ++ es') := by
  refine ⟨?_, fun e he => ?_, fun sql hsql => ?_⟩
  · unfold Teardown.deeds
    rw [List.filterMap_append]
    exact congrArg₂ (· ++ ·) hes.deeds hes'.deeds
  · rcases List.mem_append.mp he with hfront | hback
    · exact hes.fine e hfront
    · exact hes'.fine e hback
  · rcases List.mem_append.mp hsql with hfront | hback
    · exact (hes.dropped sql hfront).append es'
    · exact (hes'.dropped sql hback).prepend es

/-- The polls of a query, and its last status. -/
theorem post_awaitTerminal {id : String} :
    Post o (awaitTerminal id polls) (fun status es => ∃ waits,
      es = waits ++ [.status id (.ok status)] ∧ ∀ e ∈ waits, Polls id e) h := by
  induction polls generalizing h with
  | zero =>
      rw [awaitTerminal, post_lift]
      intro status hstatus
      cases hstatus
  | succ polls ih =>
      rw [awaitTerminal, post_bind, getQuery, post_act]
      intro status hstatus
      rw [answerOf_ok hstatus]
      split
      · rw [post_pure]
        exact ⟨[], rfl, fun e he => absurd he List.not_mem_nil⟩
      · rename_i hrunning
        rw [post_bind, sleep, post_act]
        intro _ _
        refine ih.mono fun last es hlast => ?_
        rcases hlast with ⟨waits, rfl, hwaits⟩
        refine ⟨.status id (.ok status) :: .slept :: waits, rfl, fun e he => ?_⟩
        rcases List.mem_cons.mp he with rfl | he
        · exact Or.inr ⟨status, rfl, hrunning⟩
        · rcases List.mem_cons.mp he with rfl | he
          · exact Or.inl rfl
          · exact hwaits e he

theorem deeds_polls {id : String} {waits : List Effect} (hwaits : ∀ e ∈ waits, Polls id e) :
    deeds waits = [] := by
  refine List.filterMap_eq_nil_iff.mpr fun e he => ?_
  rcases hwaits e he with rfl | ⟨status, rfl, -⟩
  · rfl
  · rfl

/-- A drop that returns is done. -/
theorem post_run : Post o (run polls sql workgroup) (fun _ es => Done [.drop sql] es) h := by
  rw [run, post_bind, startQuery, post_act]
  intro id hid
  rw [answerOf_ok hid, post_bind]
  refine post_awaitTerminal.mono fun status es hended => ?_
  rcases hended with ⟨waits, rfl, hwaits⟩
  split
  · rw [post_lift]
    intro _ hraised
    cases hraised
  · rename_i hstate
    rw [not_not] at hstate
    rw [post_pure, List.append_nil]
    refine ⟨?_, fun e he => ?_, fun sql' hsql' => ?_⟩
    · unfold Teardown.deeds
      rw [List.filterMap_append, List.filterMap_append]
      have hnone : waits.filterMap deedOf = [] := deeds_polls hwaits
      rw [hnone]
      rfl
    · rcases List.mem_append.mp he with hquery | hafter
      · rw [List.mem_singleton.mp hquery]
        rfl
      · rcases List.mem_append.mp hafter with hwait | hlast
        · rcases hwaits e hwait with rfl | ⟨running, rfl, hrunning⟩
          · exact trivial
          · exact fun hterminal => absurd hterminal hrunning
        · rw [List.mem_singleton.mp hlast]
          exact fun _ => hstate
    · cases List.mem_singleton.mp hsql'
      exact ⟨[], workgroup, id, waits, status, [], by simp, hwaits, hstate⟩

/-- The relations, one after another. -/
theorem post_drops (found : List (String × Bool)) :
    Post o (found.foldlM (dropRelation isalnum polls database workgroup) []) (fun dropped es =>
      dropped = found.map Prod.fst ∧
        Done (found.map fun relation => .drop (dropSql database relation)) es) h := by
  refine post_foldlM (I := fun done dropped es => dropped = done.map Prod.fst ∧
    Done (done.map fun relation => .drop (dropSql database relation)) es)
    (fun done relation dropped es hdone => ?_) found ⟨rfl, Done.nil⟩
  rw [dropRelation, post_bind, post_lift]
  intro _ _
  rw [post_bind]
  refine post_run.mono fun _ es' hrun => ?_
  rw [post_pure, hdone.1, List.map_append, List.map_append, List.append_nil, List.nil_append]
  exact ⟨rfl, hdone.2.append hrun⟩

/-- And then the schema. -/
theorem post_dropAll (found : Option (List (String × Bool))) :
    Post o (dropAll isalnum polls database workgroup found) (fun dropped es =>
      dropped = (found.getD []).map Prod.fst ∧ Done (dropDeeds database found) es) h := by
  cases found with
  | none =>
      rw [dropAll, post_pure]
      exact ⟨rfl, Done.nil⟩
  | some found =>
      rw [dropAll, post_bind]
      refine (post_drops found).mono fun dropped es hdrops => ?_
      rw [post_bind, post_act]
      intro _ hanswer
      rw [post_pure, List.append_nil]
      refine ⟨hdrops.1, hdrops.2.append ⟨rfl, fun e he => ?_, fun sql hsql => ?_⟩⟩
      · rw [List.mem_singleton.mp he]
        show (o.deleteDatabase _ database).isOk = true
        rw [answerOf_ok hanswer]
        rfl
      · cases List.mem_singleton.mp hsql

/-! ## What is left of the data -/

/-- What the store lists of the schema after `h`, page by page, to the end of
the listing; nothing where no store or no prefix is given. -/
def Leftover (o : Outside) (database : String) (store : Bool) (dataPrefix : Option String)
    (h : List Effect) (bucket : String) (pages : List (List String)) : Prop :=
  match dataPrefix with
  | some address =>
      if store = true ∧ address ≠ "" then
        ∃ path, o.urlparse address = .ok (bucket, path) ∧
          o.objects h bucket (dataOf path database) = (pages, none)
      else pages = []
  | none => pages = []

/-- The deeds of a sweep: an empty page is passed over. -/
def sweepDeeds (bucket : String) (pages : List (List String)) : List Deed :=
  (pages.filter fun keys => keys ≠ []).map fun keys => .objects bucket keys

theorem post_deletePage {bucket : String} {deleted : Nat} {keys : List String} :
    Post o (deletePage bucket deleted keys) (fun n es =>
      n = deleted + keys.length ∧ Done (sweepDeeds bucket [keys]) es) h := by
  unfold sweepDeeds
  rw [deletePage]
  split
  · rename_i hnone
    rw [post_pure, hnone]
    exact ⟨rfl, Done.nil⟩
  · rename_i hsome
    rw [post_bind, post_act]
    intro _ hanswer
    rw [post_pure, List.append_nil, List.filter_cons_of_pos (by simpa using hsome)]
    refine ⟨rfl, rfl, fun e he => ?_, fun sql hsql => ?_⟩
    · rw [List.mem_singleton.mp he]
      show (o.deleteObjects h bucket keys).isOk = true
      rw [answerOf_ok hanswer]
      rfl
    · cases List.mem_singleton.mp hsql

theorem sweepDeeds_append (bucket : String) (pages pages' : List (List String)) :
    sweepDeeds bucket (pages ++ pages') = sweepDeeds bucket pages ++ sweepDeeds bucket pages' := by
  unfold sweepDeeds
  rw [List.filter_append, List.map_append]

theorem post_pages (bucket : String) (pages : List (List String)) :
    Post o (pages.foldlM (deletePage bucket) 0) (fun n es =>
      n = pages.flatten.length ∧ Done (sweepDeeds bucket pages) es) h := by
  refine post_foldlM (I := fun done n es => n = done.flatten.length ∧
    Done (sweepDeeds bucket done) es) (fun done keys n es hdone => ?_) pages ⟨rfl, Done.nil⟩
  refine post_deletePage.mono fun m es' hpage => ?_
  rw [hpage.1, hdone.1, sweepDeeds_append, List.flatten_append, List.length_append,
    List.flatten_singleton]
  exact ⟨rfl, hdone.2.append hpage.2⟩

theorem post_sweepIf (store : Bool) (dataPrefix : Option String) :
    Post o (sweepIf database store dataPrefix) (fun n es => ∃ bucket pages,
      Leftover o database store dataPrefix h bucket pages ∧ n = pages.flatten.length ∧
        Done (sweepDeeds bucket pages) es) h := by
  have hnothing : Post o (pure 0 : Script Nat) (fun n es =>
      n = ([] : List (List String)).flatten.length ∧ Done (sweepDeeds "" []) es) h := by
    rw [post_pure]
    exact ⟨rfl, Done.nil⟩
  cases dataPrefix with
  | none => exact hnothing.mono fun n es hes => ⟨"", [], rfl, hes⟩
  | some address =>
      simp only [sweepIf, Leftover]
      by_cases hgiven : store = true ∧ address ≠ ""
      · simp only [if_pos hgiven, sweep, post_bind, post_ask, post_lift, List.append_nil,
          List.nil_append]
        rintro ⟨bucket, path⟩ hparsed
        refine (post_pages bucket _).mono fun n es hpages => ?_
        cases hlisting : o.objects h bucket (dataOf path database) with
        | mk pages failure =>
            simp only [hlisting] at hpages ⊢
            cases failure with
            | none =>
                rw [post_pure, List.append_nil]
                exact ⟨bucket, pages, ⟨path, answerOf_ok hparsed, hlisting⟩, hpages⟩
            | some error =>
                rw [post_lift]
                intro _ hraised
                cases hraised
      · simp only [if_neg hgiven]
        exact hnothing.mono fun n es hes => ⟨"", [], rfl, hes⟩

theorem post_teardown (store : Bool) (dataPrefix : Option String) :
    Post o (teardown isalnum polls database workgroup store dataPrefix)
      (fun summary es => ∃ found before bucket pages,
        relationsOf (o.tables [] database) = .ok found ∧ before <+: es ∧
        Done (dropDeeds database found) before ∧
        Leftover o database store dataPrefix before bucket pages ∧
        summary = ⟨database, found.isSome, (found.getD []).map Prod.fst, pages.flatten.length⟩ ∧
        Done (dropDeeds database found ++ sweepDeeds bucket pages) es) [] := by
  simp only [teardown, relations, post_bind, post_lift, post_ask, List.nil_append]
  intro _ _ found hfound
  refine (post_dropAll found).mono fun dropped before hdrops => ?_
  refine (post_sweepIf store dataPrefix).mono fun n es hswept => ?_
  rcases hswept with ⟨bucket, pages, hlisted, hcount, hdone⟩
  rw [post_pure, List.append_nil, hdrops.1, hcount]
  exact ⟨found, before, bucket, pages, hfound, List.prefix_append before es, hdrops.2, hlisted,
    rfl, hdrops.2.append hdone⟩

end Done

/-! ## A run that returns -/

/-- A run that returns found the relations the catalog listed, dropped every
one of them in that order, each with success, deleted the schema, then requested
the deletion of what the store listed of it, and did nothing else. The summary
counts that. -/
theorem teardown_done {isalnum : Char → Bool} {o : Outside} {polls : Nat}
    {database workgroup : String} {store : Bool} {dataPrefix : Option String} {summary : Summary}
    {es : List Effect} (hreturn : teardown isalnum polls database workgroup store dataPrefix o [] =
      (.ok summary, es)) :
    ∃ found before bucket pages, relationsOf (o.tables [] database) = .ok found ∧
      before <+: es ∧ Done (dropDeeds database found) before ∧
      Leftover o database store dataPrefix before bucket pages ∧
      summary = ⟨database, found.isSome, (found.getD []).map Prod.fst, pages.flatten.length⟩ ∧
      Done (dropDeeds database found ++ sweepDeeds bucket pages) es :=
  post_teardown store dataPrefix summary es hreturn

/-- A pull request's schema: a table, a view, and one object of its own. -/
theorem teardown_done_pullRequest : ∃ es,
    teardown Char.isAlphanum 3 "gridlens_ci_pr_14" "gridlens" true
        (some "s3://gridlens-lake/ci/") pullRequest [] = (.ok ⟨"gridlens_ci_pr_14", true,
          ["generation_versions", "generation_current"], 1⟩, es) ∧
      ∃ found before bucket pages,
        relationsOf (pullRequest.tables [] "gridlens_ci_pr_14") = .ok found ∧
        before <+: es ∧ Done (dropDeeds "gridlens_ci_pr_14" found) before ∧
        Leftover pullRequest "gridlens_ci_pr_14" true (some "s3://gridlens-lake/ci/") before
          bucket pages ∧
        (⟨"gridlens_ci_pr_14", true, ["generation_versions", "generation_current"], 1⟩ : Summary) =
          ⟨"gridlens_ci_pr_14", found.isSome, (found.getD []).map Prod.fst,
            pages.flatten.length⟩ ∧
        Done (dropDeeds "gridlens_ci_pr_14" found ++ sweepDeeds bucket pages) es := by
  have hreturn : ∃ es, teardown Char.isAlphanum 3 "gridlens_ci_pr_14" "gridlens" true
      (some "s3://gridlens-lake/ci/") pullRequest [] = (.ok ⟨"gridlens_ci_pr_14", true,
        ["generation_versions", "generation_current"], 1⟩, es) := by
    refine ⟨_, Prod.ext ?_ rfl⟩
    rfl
  rcases hreturn with ⟨es, hreturn⟩
  exact ⟨es, hreturn, teardown_done hreturn⟩

end Gridlens.Teardown
