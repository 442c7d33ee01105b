import Gridlens.Effects.Program
import Gridlens.Python
import Gridlens.Text.Digits

/-!
# Dropping a throwaway schema

`scripts/dbt_teardown.py`: every relation of a ci or audit schema is dropped
through athena, then the catalog entry is deleted, then what is left of its
data. A step that fails raises, and what comes after it does not happen.

1. `dropTarget_dropSql`: the statement names the relation it is for.
2. `not_under_of_ne`: what lies under one schema lies under no other.
3. `wp_teardown`: every step is allowed where it happens.
4. `teardown_confined`: what that means for a whole run.
-/

namespace Gridlens.Teardown

open Effects
open Effects.Program (lift ask act)

/-- The only schemas this will drop. -/
def PREFIXES : List String := ["gridlens_ci_", "gridlens_audit_"]

def TERMINAL : List String := ["SUCCEEDED", "FAILED", "CANCELLED"]

/-- An exception of something the script calls, with the code of its response. -/
structure CallError where
  code : Option String

/-- Why the script goes no further. -/
inductive Stop where
  | RefusedSchema (message : List Piece)
  | DropFailed (message : List Piece)
  | KeyError (key : String)
  | raised (error : CallError)
  /-- A query is still not terminal. -/
  | waiting

/-- An entry of a `TableList`. -/
structure Table where
  Name : Option String
  TableType : Option String

/-- `execution["Status"]`. -/
structure Status where
  State : String
  StateChangeReason : Option String

/-- What the script does to the outside, with the answer. -/
inductive Effect where
  | query (sql workgroup : String) (id : Except CallError String)
  | status (id : String) (status : Except CallError Status)
  | slept
  | deletedDatabase (name : String) (answer : Except CallError Unit)
  | deletedObjects (bucket : String) (keys : List String) (answer : Except CallError (List String))

/-- The services. A listing is its pages, and the exception it ends with, if
it does; a store lists what begins as it is asked, and answers a deletion with
the keys it has not deleted. -/
structure Outside where
  tables : List Effect → String → List (List Table) × Option CallError
  startQuery : List Effect → String → String → Except CallError String
  status : List Effect → String → Except CallError Status
  deleteDatabase : List Effect → String → Except CallError Unit
  /-- The netloc and the path. -/
  urlparse : String → Except CallError (String × String)
  objects : List Effect → String → String → List (List String) × Option CallError
  objects_under : ∀ h bucket start, ∀ keys ∈ (objects h bucket start).1, ∀ key ∈ keys,
    start.toList <+: key.toList
  deleteObjects : List Effect → String → List String → Except CallError (List String)

abbrev Script := Program Outside Effect Stop

/-- What a call answers, or raises. -/
def answerOf {α : Type} : Except CallError α → Except Stop α
  | .ok a => .ok a
  | .error error => .error (.raised error)

/-! ## The script -/

/-- `check_schema`. -/
def checkSchema (isalnum : Char → Bool) (name : String) : Except Stop Unit :=
  if ¬ PREFIXES.any fun p => decide (p.toList <+: name.toList) && decide (name ≠ p) then
    .error (.RefusedSchema [.repr name,
      .text " is not a ci or audit schema, refusing to drop it"])
  else if ¬ name.toList.all fun c => isalnum c || decide (c = '_') then
    .error (.RefusedSchema [.repr name, .text " contains characters these schemas never have"])
  else .ok ()

/-- `_missing`. -/
def isMissing (error : CallError) : Bool := error.code = some "EntityNotFoundException"

/-- A table as (name, is_view). -/
def relationOf (table : Table) : Except Stop (String × Bool) :=
  match table.Name with
  | some name => .ok (name, table.TableType = some "VIRTUAL_VIEW")
  | none => .error (.KeyError "Name")

/-- What `relations` makes of a listing. -/
def relationsOf (listing : List (List Table) × Option CallError) :
    Except Stop (Option (List (String × Bool))) := do
  let found ← listing.1.flatten.mapM relationOf
  match listing.2 with
  | none => .ok (some found)
  | some error => if isMissing error then .ok none else .error (.raised error)

/-- `relations`. -/
def relations (database : String) : Script (Option (List (String × Bool))) := do
  lift (relationsOf (← ask fun o h => o.tables h database))

def startQuery (sql workgroup : String) : Script String :=
  act fun o h => (answerOf (o.startQuery h sql workgroup),
    .query sql workgroup (o.startQuery h sql workgroup))

def getQuery (id : String) : Script Status :=
  act fun o h => (answerOf (o.status h id), .status id (o.status h id))

def sleep : Script Unit := act fun _ _ => (.ok (), .slept)

/-- The loop of `_run`, for so many polls. -/
def awaitTerminal (id : String) : Nat → Script Status
  | 0 => lift (.error .waiting)
  | polls + 1 => do
      let status ← getQuery id
      if status.State ∈ TERMINAL then return status
      else do
        sleep
        awaitTerminal id polls

/-- `_run`. -/
def run (polls : Nat) (sql workgroup : String) : Script Unit := do
  let id ← startQuery sql workgroup
  let status ← awaitTerminal id polls
  if status.State ≠ "SUCCEEDED" then
    lift (.error (.DropFailed [.text sql, .text ": ",
      .text (status.StateChangeReason.getD "no reason given")]))
  else return ()

/-- The quoting differs by relation. -/
def dropSql (database : String) (relation : String × Bool) : String :=
  if relation.2 then
    "DROP VIEW IF EXISTS \"" ++ database ++ "\".\"" ++ relation.1 ++ "\""
  else "DROP TABLE IF EXISTS `" ++ database ++ "`.`" ++ relation.1 ++ "`"

/-- `path.lstrip("/").rstrip("/")`. -/
def stripSlashes (path : String) : String :=
  String.ofList (((path.toList.dropWhile (· = '/')).reverse.dropWhile (· = '/')).reverse)

/-- Where the data of a schema lies. -/
def dataOf (path database : String) : String := stripSlashes path ++ "/" ++ database ++ "/"

/-- One page of what is left. -/
def deletePage (bucket : String) (deleted : Nat) (keys : List String) : Script Nat := do
  if keys = [] then return deleted
  else do
    -- the answer is not looked at: a key that it lists as left counts too
    let _ ← act fun o h => (answerOf (o.deleteObjects h bucket keys),
      .deletedObjects bucket keys (o.deleteObjects h bucket keys))
    return deleted + keys.length

/-- `sweep`. -/
def sweep (dataPrefix database : String) : Script Nat := do
  let (bucket, path) ← lift (answerOf (← ask fun o _ => o.urlparse dataPrefix))
  let (pages, failure) ← ask fun o h => o.objects h bucket (dataOf path database)
  let deleted ← pages.foldlM (deletePage bucket) 0
  match failure with
  | none => return deleted
  | some error => lift (.error (.raised error))

/-- What `teardown` returns. -/
structure Summary where
  schema : String
  existed : Bool
  dropped : List String
  objectsSwept : Nat

section Teardown

variable (isalnum : Char → Bool) (polls : Nat) (database workgroup : String)

/-- One relation of the schema. -/
def dropRelation (dropped : List String) (relation : String × Bool) : Script (List String) := do
  lift (checkSchema isalnum database)
  run polls (dropSql database relation) workgroup
  return dropped ++ [relation.1]

/-- Every relation, and then the schema, if it is there. -/
def dropAll : Option (List (String × Bool)) → Script (List String)
  | none => return []
  | some found => do
      let dropped ← found.foldlM (dropRelation isalnum polls database workgroup) []
      act fun o h => (answerOf (o.deleteDatabase h database),
        .deletedDatabase database (o.deleteDatabase h database))
      return dropped

/-- `sweep(..) if store and data_prefix else 0`. -/
def sweepIf (store : Bool) (dataPrefix : Option String) : Script Nat :=
  match dataPrefix with
  | some dataPrefix =>
      if store = true ∧ dataPrefix ≠ "" then sweep dataPrefix database else return 0
  | none => return 0

/-- `teardown`. -/
def teardown (store : Bool) (dataPrefix : Option String) : Script Summary := do
  lift (checkSchema isalnum database)
  let found ← relations database
  let dropped ← dropAll isalnum polls database workgroup found
  let swept ← sweepIf database store dataPrefix
  return ⟨database, found.isSome, dropped, swept⟩

end Teardown

/-! ## Names -/

/-- Without a quote of either sort. -/
def Unquoted (name : String) : Prop := '"' ∉ name.toList ∧ '`' ∉ name.toList

/-- A name in quotes, and what follows it. -/
def readQuoted (quote : Char) : List Char → Option (String × List Char)
  | [] => none
  | c :: s =>
      if c = quote then
        match s.dropWhile (· ≠ quote) with
        | [] => none
        | _ :: rest => some (String.ofList (s.takeWhile (· ≠ quote)), rest)
      else none

/-- A schema and a relation, quoted, and nothing behind them. -/
def readRelation (quote : Char) (s : List Char) : Option (String × String) := do
  let (schema, s) ← readQuoted quote s
  let s ← Text.dropWord ['.'] s
  let (relation, s) ← readQuoted quote s
  if s = [] then some (schema, relation) else none

/-- What a statement drops: its schema, its name, and whether it is a view. A
view is quoted as trino does, a table as hive. -/
def dropTarget (sql : String) : Option (String × String × Bool) :=
  match Text.dropWord "DROP VIEW IF EXISTS ".toList sql.toList with
  | some s => (readRelation '"' s).map fun r => (r.1, r.2, true)
  | none => do
      let s ← Text.dropWord "DROP TABLE IF EXISTS ".toList sql.toList
      (readRelation '`' s).map fun r => (r.1, r.2, false)

/-- A text before the first character it does not have. -/
theorem span_before {c : Char} {s : List Char} (h : c ∉ s) (rest : List Char) :
    (s ++ c :: rest).takeWhile (· ≠ c) = s ∧ (s ++ c :: rest).dropWhile (· ≠ c) = c :: rest := by
  have hs : ∀ d ∈ s, decide (d ≠ c) = true := by
    intro d hd
    rw [decide_eq_true_eq]
    intro heq
    rw [heq] at hd
    exact h hd
  rw [List.takeWhile_append_of_pos hs, List.dropWhile_append_of_pos hs]
  simp

theorem readQuoted_quoted {quote : Char} {name : String} (h : quote ∉ name.toList)
    (rest : List Char) :
    readQuoted quote (quote :: name.toList ++ quote :: rest) = some (name, rest) := by
  rcases span_before h rest with ⟨htake, hdrop⟩
  rw [List.cons_append, readQuoted, if_pos rfl, hdrop, htake, String.ofList_toList]

theorem readRelation_quoted {quote : Char} {schema relation : String}
    (hschema : quote ∉ schema.toList) (hrelation : quote ∉ relation.toList) :
    readRelation quote (quote :: schema.toList ++ quote :: '.' ::
      (quote :: relation.toList ++ [quote])) = some (schema, relation) := by
  have hdot : Text.dropWord ['.'] ('.' :: (quote :: relation.toList ++ [quote])) =
      some (quote :: relation.toList ++ [quote]) := Text.dropWord_append ['.'] _
  unfold readRelation
  rw [some_bind (readQuoted_quoted hschema _)]
  simp only
  rw [some_bind hdot, some_bind (readQuoted_quoted hrelation [])]
  rfl

/-- What the names in a statement stand between. -/
def quoteOf (isView : Bool) : Char := if isView then '"' else '`'

theorem Unquoted.quote {name : String} (h : Unquoted name) (isView : Bool) :
    quoteOf isView ∉ name.toList := by
  cases isView with
  | true => exact h.1
  | false => exact h.2

/-- A statement is read as what it was written from. -/
theorem dropTarget_eq (database : String) (relation : String × Bool) :
    dropTarget (dropSql database relation) =
      (readRelation (quoteOf relation.2)
        (quoteOf relation.2 :: database.toList ++ quoteOf relation.2 :: '.' ::
          (quoteOf relation.2 :: relation.1.toList ++ [quoteOf relation.2]))).map
        fun r => (r.1, r.2, relation.2) := by
  rcases relation with ⟨name, isView⟩
  cases isView with
  | true =>
      have hsql : (dropSql database (name, true)).toList = "DROP VIEW IF EXISTS ".toList ++
          ('"' :: database.toList ++ '"' :: '.' :: ('"' :: name.toList ++ ['"'])) := by
        simp [dropSql]
      unfold dropTarget
      rw [hsql, Text.dropWord_append]
      rfl
  | false =>
      have hsql : (dropSql database (name, false)).toList = "DROP TABLE IF EXISTS ".toList ++
          ('`' :: database.toList ++ '`' :: '.' :: ('`' :: name.toList ++ ['`'])) := by
        simp [dropSql]
      have hview : ∀ s, Text.dropWord "DROP VIEW IF EXISTS ".toList
          ("DROP TABLE IF EXISTS ".toList ++ s) = none := by
        intro s
        refine if_neg ?_
        simp
      unfold dropTarget
      rw [hsql, hview]
      simp only
      rw [some_bind (Text.dropWord_append _ _)]
      rfl

/-- The statement is for the relation, and of its kind. -/
theorem dropTarget_dropSql {database : String} {relation : String × Bool}
    (hdatabase : Unquoted database) (hrelation : Unquoted relation.1) :
    dropTarget (dropSql database relation) = some (database, relation.1, relation.2) := by
  rw [dropTarget_eq, readRelation_quoted (hdatabase.quote _) (hrelation.quote _)]
  rfl

/-- The key lies in the data of the schema. -/
def Under (path schema key : String) : Prop := (dataOf path schema).toList <+: key.toList

theorem under_iff {path schema key : String} : Under path schema key ↔
    ∃ rest, (stripSlashes path ++ "/").toList ++ (schema.toList ++ '/' :: rest) = key.toList := by
  unfold Under dataOf
  constructor
  · rintro ⟨rest, hrest⟩
    refine ⟨rest, ?_⟩
    rw [← hrest]
    simp
  · rintro ⟨rest, hrest⟩
    refine ⟨rest, ?_⟩
    rw [← hrest]
    simp

/-- What lies under one schema lies under no other, whatever its name begins
with. -/
theorem not_under_of_ne {path schema other key : String} (hschema : '/' ∉ schema.toList)
    (hother : '/' ∉ other.toList) (hne : other ≠ schema) (hkey : Under path schema key) :
    ¬ Under path other key := by
  intro hkey'
  rcases under_iff.mp hkey with ⟨rest, hrest⟩
  rcases under_iff.mp hkey' with ⟨rest', hrest'⟩
  rw [← hrest'] at hrest
  have hsame := congrArg (List.takeWhile (· ≠ '/')) (List.append_cancel_left hrest)
  rw [(span_before hschema rest).1, (span_before hother rest').1] at hsame
  exact hne (String.toList_inj.mp hsame.symm)

section Checked

variable {isalnum : Char → Bool} {name : String}

/-- An accepted name has no character of the sql around it, and no slash. -/
theorem not_mem_of_checked (hascii : ∀ c : Char, c.toNat < 128 → isalnum c = c.isAlphanum)
    (h : checkSchema isalnum name = .ok ()) {c : Char} (hsmall : c.toNat < 128)
    (hc : c.isAlphanum = false) (hunder : c ≠ '_') : c ∉ name.toList := by
  intro hmem
  unfold checkSchema at h
  split at h
  · cases h
  · split at h
    · cases h
    · rename_i hall
      rw [not_not, List.all_eq_true] at hall
      have hchar := hall c hmem
      rw [hascii c hsmall, hc, Bool.false_or, decide_eq_true_eq] at hchar
      exact hunder hchar

theorem unquoted_of_checked (hascii : ∀ c : Char, c.toNat < 128 → isalnum c = c.isAlphanum)
    (h : checkSchema isalnum name = .ok ()) : Unquoted name :=
  ⟨not_mem_of_checked hascii h (by decide) (by decide) (by decide),
    not_mem_of_checked hascii h (by decide) (by decide) (by decide)⟩

end Checked

/-! ## What is allowed, and when -/

/-- A drop that did not start, could not be followed, or did not succeed. -/
def Failed : Effect → Prop
  | .query _ _ (.error _) => True
  | .status _ (.error _) => True
  | .status _ (.ok status) => status.State ∈ TERMINAL ∧ status.State ≠ "SUCCEEDED"
  | _ => False

def DeletesDatabase : Effect → Prop
  | .deletedDatabase _ _ => True
  | _ => False

/-- Deletes the catalog entry, or objects. -/
def Deletes : Effect → Prop
  | .deletedDatabase _ _ => True
  | .deletedObjects _ _ _ => True
  | _ => False

/-- Nothing failed, and the schema is still there. -/
def Clean (h : List Effect) : Prop := ∀ e ∈ h, ¬ Failed e ∧ ¬ DeletesDatabase e

/-- Between the start of a query and its end it is polled. -/
def Polls (id : String) (e : Effect) : Prop :=
  e = .slept ∨ ∃ status, e = .status id (.ok status) ∧ status.State ∉ TERMINAL

/-- The statement was started, and its query polled until it SUCCEEDED. -/
def Succeeded (h : List Effect) (sql : String) : Prop :=
  ∃ before workgroup id polls status after,
    h = before ++ .query sql workgroup (.ok id) :: polls ++ .status id (.ok status) :: after ∧
      (∀ e ∈ polls, Polls id e) ∧ status.State = "SUCCEEDED"

/-- The relations the catalog lists of the schema, when the script asks. -/
def Outside.Lists (o : Outside) (database : String) (found : List (String × Bool)) : Prop :=
  relationsOf (o.tables [] database) = .ok (some found)

/-- What the script may do after a history. -/
def Allowed (o : Outside) (database : String) (dataPrefix : Option String) (h : List Effect) :
    Effect → Prop
  | .query sql _ _ => (∀ e ∈ h, ¬ Failed e) ∧ ∃ found, o.Lists database found ∧
      ∃ relation ∈ found, sql = dropSql database relation
  | .status _ _ => True
  | .slept => True
  | .deletedDatabase name _ => (∀ e ∈ h, ¬ Failed e) ∧ (∀ e ∈ h, ¬ DeletesDatabase e) ∧
      name = database ∧ ∃ found, o.Lists database found ∧
        ∀ relation ∈ found, Succeeded h (dropSql database relation)
  | .deletedObjects bucket keys _ => (∀ e ∈ h, ¬ Failed e) ∧ ∃ address path,
      dataPrefix = some address ∧ o.urlparse address = .ok (bucket, path) ∧
        ∀ key ∈ keys, Under path database key

section Allowed

variable {o : Outside} {database workgroup : String} {dataPrefix : Option String}
  {isalnum : Char → Bool} {polls : Nat} {h : List Effect} {sql : String}

theorem Succeeded.append (hdone : Succeeded h sql) (es : List Effect) :
    Succeeded (h ++ es) sql := by
  rcases hdone with ⟨before, workgroup, id, waits, status, after, rfl, hwaits, hstate⟩
  refine ⟨before, workgroup, id, waits, status, after ++ es, ?_, hwaits, hstate⟩
  simp

theorem answerOf_ok {α : Type} {answer : Except CallError α} {a : α} (h : answerOf answer = .ok a) :
    answer = .ok a := by
  cases answer with
  | ok b =>
      cases h
      rfl
  | error error => cases h

theorem Polls.clean {id : String} {waits : List Effect} (h : ∀ e ∈ waits, Polls id e) :
    Clean waits := by
  intro e he
  rcases h e he with rfl | ⟨status, rfl, hrunning⟩
  · exact ⟨fun hfailed => hfailed, fun hdeletes => hdeletes⟩
  · exact ⟨fun hfailed => hrunning hfailed.1, fun hdeletes => hdeletes⟩

theorem Clean.append {es : List Effect} (h₁ : Clean h) (h₂ : Clean es) : Clean (h ++ es) := by
  intro e he
  rcases List.mem_append.mp he with he | he
  · exact h₁ e he
  · exact h₂ e he

theorem clean_singleton {e : Effect} (hfailed : ¬ Failed e) (hdeletes : ¬ DeletesDatabase e) :
    Clean [e] := by
  intro e' he'
  rw [List.mem_singleton.mp he']
  exact ⟨hfailed, hdeletes⟩

/-- The loop polls the query, and ends with a terminal status. -/
theorem wp_awaitTerminal {id : String} {before waits : List Effect}
    (hwaits : ∀ e ∈ waits, Polls id e) :
    Wp o (Allowed o database dataPrefix) (awaitTerminal id polls) (fun status h' =>
      ∃ waits', h' = before ++ waits' ++ [.status id (.ok status)] ∧ status.State ∈ TERMINAL ∧
        ∀ e ∈ waits', Polls id e) (before ++ waits) := by
  induction polls generalizing waits with
  | zero =>
      rw [awaitTerminal, wp_lift]
      intro status hstatus
      cases hstatus
  | succ polls ih =>
      rw [awaitTerminal, wp_bind, getQuery, wp_act]
      refine ⟨trivial, fun status hstatus => ?_⟩
      rw [answerOf_ok hstatus]
      split
      · rename_i hterminal
        rw [wp_pure]
        exact ⟨waits, rfl, hterminal, hwaits⟩
      · rename_i hrunning
        rw [wp_bind, sleep, wp_act]
        refine ⟨trivial, fun _ _ => ?_⟩
        rw [List.append_assoc, List.append_assoc]
        refine ih fun e he => ?_
        rcases List.mem_append.mp he with he | he
        · exact hwaits e he
        · rcases List.mem_cons.mp he with rfl | he
          · exact Or.inr ⟨status, rfl, hrunning⟩
          · exact Or.inl (List.mem_singleton.mp he)

/-- A drop that returns has SUCCEEDED. -/
theorem wp_run (hclean : Clean h) (hsql : ∃ found, o.Lists database found ∧
    ∃ relation ∈ found, sql = dropSql database relation) :
    Wp o (Allowed o database dataPrefix) (run polls sql workgroup) (fun _ h' =>
      Clean h' ∧ Succeeded h' sql ∧ ∀ sql', Succeeded h sql' → Succeeded h' sql') h := by
  rw [run, wp_bind, startQuery, wp_act]
  refine ⟨⟨fun e he => (hclean e he).1, hsql⟩, fun id hid => ?_⟩
  rw [answerOf_ok hid, wp_bind]
  have hstarted : Clean [Effect.query sql workgroup (.ok id)] :=
    clean_singleton (fun hfailed => hfailed) fun hdeletes => hdeletes
  rw [← List.append_nil (h ++ [_])]
  refine (wp_awaitTerminal fun _ he => absurd he List.not_mem_nil).mono fun status h' hended => ?_
  rcases hended with ⟨waits, rfl, hterminal, hwaits⟩
  split
  · rw [wp_lift]
    intro _ hraised
    cases hraised
  · rename_i hstate
    rw [not_not] at hstate
    rw [wp_pure]
    refine ⟨?_, ?_, fun sql' hdone => ?_⟩
    · refine ((hclean.append hstarted).append (Polls.clean hwaits)).append ?_
      exact clean_singleton (fun hfailed => hfailed.2 hstate) fun hdeletes => hdeletes
    · refine ⟨h, workgroup, id, waits, status, [], ?_, hwaits, hstate⟩
      simp
    · rw [List.append_assoc, List.append_assoc]
      exact hdone.append _

/-- The loop over the relations ends with every one of them dropped. -/
theorem wp_drops {found : List (String × Bool)} (hlists : o.Lists database found)
    {rest : List (String × Bool)} (hrest : ∀ relation ∈ rest, relation ∈ found)
    (hclean : Clean h) (dropped : List String) :
    Wp o (Allowed o database dataPrefix)
      (rest.foldlM (dropRelation isalnum polls database workgroup) dropped) (fun _ h' =>
        Clean h' ∧ (∀ relation ∈ rest, Succeeded h' (dropSql database relation)) ∧
          ∀ sql', Succeeded h sql' → Succeeded h' sql') h := by
  induction rest generalizing h dropped with
  | nil =>
      rw [List.foldlM_nil, wp_pure]
      exact ⟨hclean, fun _ hmem => absurd hmem List.not_mem_nil, fun _ => id⟩
  | cons relation rest ih =>
      rw [List.forall_mem_cons] at hrest
      rw [List.foldlM_cons, wp_bind, dropRelation, wp_bind, wp_lift]
      intro _ _
      rw [wp_bind]
      refine (wp_run hclean ⟨found, hlists, relation, hrest.1, rfl⟩).mono fun _ h' hran => ?_
      rcases hran with ⟨hclean', hdone, hkept⟩
      rw [wp_pure]
      refine (ih hrest.2 hclean' _).mono fun _ h'' hrestran => ?_
      rcases hrestran with ⟨hclean'', hall, hkept'⟩
      refine ⟨hclean'', ?_, fun sql' hsql' => hkept' sql' (hkept sql' hsql')⟩
      rw [List.forall_mem_cons]
      exact ⟨hkept' _ hdone, hall⟩

/-- The catalog entry is deleted behind the drops. -/
theorem wp_dropAll {found : Option (List (String × Bool))}
    (hfound : ∀ l, found = some l → o.Lists database l) (hclean : Clean h) :
    Wp o (Allowed o database dataPrefix) (dropAll isalnum polls database workgroup found)
      (fun _ h' => ∀ e ∈ h', ¬ Failed e) h := by
  cases found with
  | none =>
      rw [dropAll, wp_pure]
      exact fun e he => (hclean e he).1
  | some found =>
      have hlists := hfound found rfl
      rw [dropAll, wp_bind]
      refine (wp_drops hlists (fun _ => id) hclean []).mono fun _ h' hran => ?_
      rcases hran with ⟨hclean', hall, -⟩
      rw [wp_bind, wp_act]
      refine ⟨⟨fun e he => (hclean' e he).1, fun e he => (hclean' e he).2, rfl, found, hlists, hall⟩,
        fun _ _ => ?_⟩
      rw [wp_pure]
      intro e he
      rcases List.mem_append.mp he with he | he
      · exact (hclean' e he).1
      · rw [List.mem_singleton.mp he]
        exact fun hfailed => hfailed

/-- What is swept lies under the schema. -/
theorem wp_sweep {address : String} (haddress : dataPrefix = some address)
    (hok : ∀ e ∈ h, ¬ Failed e) :
    Wp o (Allowed o database dataPrefix) (sweep address database) (fun _ _ => True) h := by
  rw [sweep, wp_bind, wp_ask, wp_bind, wp_lift]
  rintro ⟨bucket, path⟩ hparsed
  have hparsed := answerOf_ok hparsed
  simp only
  rw [wp_bind, wp_ask, wp_bind]
  have hpages : Wp o (Allowed o database dataPrefix)
      ((o.objects h bucket (dataOf path database)).1.foldlM (deletePage bucket) 0)
      (fun _ h' => ∀ e ∈ h', ¬ Failed e) h := by
    refine wp_foldlM_mem (fun deleted keys hkeys h' hok' => ?_) hok
    rw [deletePage]
    split
    · rw [wp_pure]
      exact hok'
    · rw [wp_bind, wp_act]
      refine ⟨⟨hok', address, path, haddress, hparsed,
        o.objects_under h bucket (dataOf path database) keys hkeys⟩, fun _ _ => ?_⟩
      rw [wp_pure]
      intro e he
      rcases List.mem_append.mp he with he | he
      · exact hok' e he
      · rw [List.mem_singleton.mp he]
        exact fun hfailed => hfailed
  refine hpages.mono fun deleted h' _ => ?_
  split
  · rw [wp_pure]
    exact trivial
  · rw [wp_lift]
    exact fun _ _ => trivial

/-- Every step is allowed where it happens. -/
theorem wp_teardown (store : Bool) :
    Wp o (Allowed o database dataPrefix)
      (teardown isalnum polls database workgroup store dataPrefix) (fun _ _ => True) [] := by
  rw [teardown, wp_bind, wp_lift]
  intro _ _
  rw [wp_bind, relations, wp_bind, wp_ask, wp_lift]
  intro found hfound
  have hlists : ∀ l, found = some l → o.Lists database l := by
    intro l hl
    rw [hl] at hfound
    exact hfound
  rw [wp_bind]
  refine (wp_dropAll hlists fun _ he => absurd he List.not_mem_nil).mono fun dropped h' hok => ?_
  rw [wp_bind]
  have hswept : Wp o (Allowed o database dataPrefix) (sweepIf database store dataPrefix)
      (fun _ _ => True) h' := by
    unfold sweepIf
    split
    · split
      · exact wp_sweep rfl hok
      · rw [wp_pure]
        exact trivial
    · rw [wp_pure]
      exact trivial
  refine hswept.mono fun _ _ _ => ?_
  rw [wp_pure]
  exact trivial

/-- A name that is refused leaves nothing behind. -/
theorem teardown_refused {store : Bool} {stop : Stop}
    (h : checkSchema isalnum database = .error stop) (o : Outside) :
    teardown isalnum polls database workgroup store dataPrefix o [] = (.error stop, []) := by
  refine Program.bind_of_error ?_
  rw [h]
  rfl

end Allowed

/-! ## A whole run -/

/-- What a record of a teardown of this schema never goes beyond. -/
structure Confined (isalnum : Char → Bool) (o : Outside) (database : String)
    (dataPrefix : Option String) (es : List Effect) : Prop where
  /-- Nothing is done to a schema whose name is refused. -/
  checked : es ≠ [] → checkSchema isalnum database = .ok ()
  /-- Every statement drops a relation of the schema, of the kind listed. -/
  drops : ∀ sql workgroup id, .query sql workgroup id ∈ es → ∃ found, o.Lists database found ∧
    ∃ relation ∈ found, sql = dropSql database relation ∧
      (Unquoted relation.1 → dropTarget sql = some (database, relation.1, relation.2))
  /-- The schema is deleted once, behind every drop. -/
  deletes : ∀ before name answer after, es = before ++ .deletedDatabase name answer :: after →
    name = database ∧ (∀ e ∈ before ++ after, ¬ DeletesDatabase e) ∧
      ∃ found, o.Lists database found ∧
        ∀ relation ∈ found, Succeeded before (dropSql database relation)
  /-- An object that is deleted lies under the schema, and under no other. -/
  objects : ∀ bucket keys answer, .deletedObjects bucket keys answer ∈ es → ∃ address path,
    dataPrefix = some address ∧ o.urlparse address = .ok (bucket, path) ∧
      ∀ key ∈ keys, Under path database key ∧
        ∀ other : String, '/' ∉ other.toList → other ≠ database → ¬ Under path other key
  /-- Behind a drop that fails nothing is deleted. -/
  stops : ∀ before failed after, es = before ++ failed :: after → Failed failed →
    ∀ e ∈ after, ¬ Deletes e

/-- A teardown cannot reach outside its schema, and stops where a drop fails. -/
theorem teardown_confined {isalnum : Char → Bool}
    (hascii : ∀ c : Char, c.toNat < 128 → isalnum c = c.isAlphanum) (o : Outside) (polls : Nat)
    (database workgroup : String) (store : Bool) (dataPrefix : Option String) :
    Confined isalnum o database dataPrefix
      (teardown isalnum polls database workgroup store dataPrefix o []).2 := by
  cases hcheck : checkSchema isalnum database with
  | error stop =>
      rw [teardown_refused hcheck]
      refine ⟨fun hne => absurd rfl hne, fun _ _ _ he => absurd he List.not_mem_nil, ?_,
        fun _ _ _ he => absurd he List.not_mem_nil, ?_⟩
      · intro before _ _ _ hes
        exact absurd hes.symm (by simp)
      · intro before _ _ hes
        exact absurd hes.symm (by simp)
  | ok _ =>
      have halong : Along (Allowed o database dataPrefix) []
          (teardown isalnum polls database workgroup store dataPrefix o []).2 := (wp_teardown store).1
      generalize (teardown isalnum polls database workgroup store dataPrefix o []).2 = es at halong ⊢
      have hat : ∀ before e after, es = before ++ e :: after →
          Allowed o database dataPrefix before e := by
        intro before e after hes
        refine halong.at ⟨after, ?_⟩
        rw [hes]
        simp
      have hname := unquoted_of_checked hascii hcheck
      have hslash : '/' ∉ database.toList :=
        not_mem_of_checked hascii hcheck (by decide) (by decide) (by decide)
      refine ⟨fun _ => hcheck, ?_, ?_, ?_, ?_⟩
      · intro sql workgroup id he
        rcases List.append_of_mem he with ⟨before, after, hes⟩
        rcases (hat _ _ _ hes).2 with ⟨found, hlists, relation, hrelation, rfl⟩
        exact ⟨found, hlists, relation, hrelation, rfl, dropTarget_dropSql hname⟩
      · intro before name answer after hes
        rcases hat _ _ _ hes with ⟨-, hnone, hdatabase, hfound⟩
        refine ⟨hdatabase, fun e he => ?_, hfound⟩
        rcases List.mem_append.mp he with he | he
        · exact hnone e he
        · rcases List.append_of_mem he with ⟨between, rest, rfl⟩
          have hsplit : es = (before ++ .deletedDatabase name answer :: between) ++ e :: rest := by
            rw [hes]
            simp
          intro hagain
          cases e with
          | deletedDatabase name' answer' =>
              refine (hat _ _ _ hsplit).2.1 (.deletedDatabase name answer) ?_ trivial
              exact List.mem_append_right before List.mem_cons_self
          | _ => exact hagain
      · intro bucket keys answer he
        rcases List.append_of_mem he with ⟨before, after, hes⟩
        rcases (hat _ _ _ hes).2 with ⟨address, path, haddress, hparsed, hkeys⟩
        refine ⟨address, path, haddress, hparsed, fun key hkey => ⟨hkeys key hkey, ?_⟩⟩
        intro other hother hne
        exact not_under_of_ne hslash hother hne (hkeys key hkey)
      · intro before failed after hes hfailed e he
        rcases List.append_of_mem he with ⟨between, rest, rfl⟩
        have hsplit : es = (before ++ failed :: between) ++ e :: rest := by
          rw [hes]
          simp
        have hmem : failed ∈ before ++ failed :: between :=
          List.mem_append_right before List.mem_cons_self
        intro hdeletes
        cases e with
        | deletedDatabase _ _ => exact (hat _ _ _ hsplit).1 failed hmem hfailed
        | deletedObjects _ _ _ => exact (hat _ _ _ hsplit).1 failed hmem hfailed
        | _ => exact hdeletes

/-! ## A pull request's schema -/

/-- A table, a view, and an object of each of two pull requests. -/
def pullRequest : Outside where
  tables _ _ := ([[⟨some "generation_versions", some "EXTERNAL_TABLE"⟩],
    [⟨some "generation_current", some "VIRTUAL_VIEW"⟩]], none)
  startQuery _ _ _ := .ok "q"
  status _ _ := .ok ⟨"SUCCEEDED", none⟩
  deleteDatabase _ _ := .ok ()
  urlparse address :=
    if address = "s3://gridlens-lake/ci/" then .ok ("gridlens-lake", "/ci/") else .error ⟨none⟩
  objects _ _ start := ([["ci/gridlens_ci_pr_14/t/data.parquet",
    "ci/gridlens_ci_pr_140/t/data.parquet"].filter fun key => start.toList <+: key.toList], none)
  objects_under := by
    intro _ _ start keys hkeys key hkey
    rw [List.mem_singleton.mp hkeys] at hkey
    exact of_decide_eq_true (List.mem_filter.mp hkey).2
  deleteObjects _ _ _ := .ok []

theorem teardown_confined_pullRequest : Confined Char.isAlphanum pullRequest "gridlens_ci_pr_14"
    (some "s3://gridlens-lake/ci/")
    (teardown Char.isAlphanum 3 "gridlens_ci_pr_14" "gridlens" true
      (some "s3://gridlens-lake/ci/") pullRequest []).2 :=
  teardown_confined (fun _ _ => rfl) pullRequest 3 "gridlens_ci_pr_14" "gridlens" true
    (some "s3://gridlens-lake/ci/")

example : ∃ es, teardown Char.isAlphanum 3 "gridlens_ci_pr_14" "gridlens" true
    (some "s3://gridlens-lake/ci/") pullRequest [] = (.ok ⟨"gridlens_ci_pr_14", true,
      ["generation_versions", "generation_current"], 1⟩, es) := by
  refine ⟨_, Prod.ext ?_ rfl⟩
  rfl

end Gridlens.Teardown
