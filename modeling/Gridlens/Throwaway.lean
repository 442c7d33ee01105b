import Gridlens.Targets
import Gridlens.TeardownDone

/-!
# Throwaway schemas

The lake that production builds, and the schemas of the catalog. dbt writes a
model where its target places it. The teardown script takes away what its
statements name, and what the objects it deletes are of; nothing else says
whose that is.

1. `materialize_production`: under the production target a model is what a
   production run makes of it.
2. `materialize_apart`: under another one it changes the schema of that target,
   and nothing of the lake.
3. `perform_own`: a deed on one schema touches no other.
4. `own_deeds`: all deeds of a run of the script are on the schema it is for.
5. `gone_of_returned`: when the script returns, the schema is gone.
-/

namespace Gridlens

open Teardown (Deed)

/-! ## The catalog -/

/-- A schema: the relations in it, and what the tables hold. -/
structure Rebuilt (δ : Type) where
  relations : List Node
  versions : List Version
  net : List NetRow
  mix : List (MixRow δ)

def Rebuilt.tables {δ : Type} (r : Rebuilt δ) : Build δ := ⟨r.versions, r.net, r.mix⟩

/-- As the catalog lists them: the name, and whether it is a view. -/
def Rebuilt.listing {δ : Type} (r : Rebuilt δ) : List (String × Bool) :=
  r.relations.map fun n => (n.name, n.isView)

def Lakehouse.tables {δ : Type} (s : Lakehouse δ) : Build δ := ⟨s.versions, s.net, s.mix⟩

/-- What production's tables hold is in the lake. -/
structure Catalog (δ : Type) where
  lake : Lakehouse δ
  schemas : String → Option (Rebuilt δ)

section Catalog

variable {δ : Type}

/-- The schema, and an empty one where there is none. -/
def Catalog.schemaAt (c : Catalog δ) (name : String) : Rebuilt δ :=
  (c.schemas name).getD ⟨[], [], [], []⟩

/-! ## Models under a target -/

/-- What the place of the model is in. -/
def Catalog.tablesOf (target : Target) (c : Catalog δ) (n : Node) : Build δ :=
  if target.place n = PROD.place n then c.lake.tables else (c.schemaAt (target.schemaOf n)).tables

/-- What `ref()` finds under the target. -/
def Catalog.referred (target : Target) (c : Catalog δ) : Build δ where
  versions := (c.tablesOf target .generationVersions).versions
  net := (c.tablesOf target .periodGenerationNet).net
  mix := (c.tablesOf target .dailyGenerationMix).mix

def Rebuilt.put (n : Node) (tables : Build δ) (r : Rebuilt δ) : Rebuilt δ :=
  ⟨r.relations.insert n, tables.versions, tables.net, tables.mix⟩

def Lakehouse.put (tables : Build δ) (s : Lakehouse δ) : Lakehouse δ :=
  { s with versions := tables.versions, net := tables.net, mix := tables.mix }

section Build

variable (quotient : Int → Int → δ)

/-- A node over these tables. The views are read where the table over them is
built. -/
def Node.remake (vars : Option Restate) (bronze : List Row) (refs : Build δ) (n : Node)
    (tables : Build δ) : Build δ :=
  match n with
  | generationVersions =>
      { tables with
        versions := Gridlens.generationVersions (Gridlens.stgGeneration vars bronze) }
  | periodGenerationNet =>
      { tables with net := Gridlens.periodGenerationNet (Gridlens.generationCurrent refs.versions) }
  | dailyGenerationMix => { tables with mix := Gridlens.dailyGenerationMix quotient refs.net }
  | _ => tables

/-- A node of `dbt run` under the target. -/
def Catalog.materialize (target : Target) (vars : Option Restate) (n : Node) (c : Catalog δ) :
    Catalog δ :=
  let remake := n.remake quotient vars (rowsOf c.lake.bronze.current) (c.referred target)
  let name := target.schemaOf n
  { lake := if target.place n = PROD.place n then c.lake.put (remake c.lake.tables) else c.lake
    schemas := Function.update c.schemas name
      (some ((c.schemaAt name).put n (remake (c.schemaAt name).tables))) }

/-- A node over a schema that holds all that it refers to, under the variables of
`restate`. -/
def Node.rebuild (vars : Restate) (bronze : List Row) (n : Node) (r : Rebuilt δ) : Rebuilt δ :=
  r.put n (n.remake quotient (some vars) bronze r.tables r.tables)

/-- Under the production target it is a node of production. -/
theorem materialize_production (inv : Invocation) (n : Node) (c : Catalog δ) :
    (c.materialize quotient PROD none n).lake.tables = (n.execute quotient inv c.lake).tables := by
  have htables : ∀ m, c.tablesOf PROD m = c.lake.tables := fun m => if_pos rfl
  unfold Catalog.materialize Catalog.referred
  simp only [htables, if_true]
  cases n <;> rfl

theorem referred_apart {target : Target} (h : target.name ≠ "prod")
    (hschema : target.schema ∉ PRODUCTION) (c : Catalog δ) :
    c.referred target = (c.schemaAt target.schema).tables := by
  have htables : ∀ n, c.tablesOf target n = (c.schemaAt target.schema).tables := by
    intro n
    unfold Catalog.tablesOf
    rw [if_neg (place_apart h hschema), schemaOf_of_ne h]
  unfold Catalog.referred
  rw [htables, htables, htables]

/-- Off production all of the target is in one schema. -/
theorem materialize_apart {target : Target} (h : target.name ≠ "prod")
    (hschema : target.schema ∉ PRODUCTION) (vars : Restate) (n : Node) (c : Catalog δ) :
    c.materialize quotient target (some vars) n =
      { c with
        schemas := Function.update c.schemas target.schema
          (some (n.rebuild quotient vars (rowsOf c.lake.bronze.current)
            (c.schemaAt target.schema))) } := by
  unfold Catalog.materialize Node.rebuild
  simp only [if_neg (place_apart (n := n) (m := n) h hschema)]
  rw [schemaOf_of_ne h, referred_apart h hschema]

end Build

/-! ## What is taken away -/

/-- The schema and the table that an object is of. Tables are stored under
`<s3_data_dir>/<schema>/<table>/<id>/`, and bronze under `bronze/generation/`. -/
def ownerOf (key : String) : Option (String × String) :=
  match key.toList.splitOn '/' with
  | first :: second :: third :: _ =>
      if String.ofList first = "bronze" then some ("gridlens_bronze", String.ofList second)
      else some (String.ofList second, String.ofList third)
  | _ => none

/-- The tables at these places are empty. -/
def Lakehouse.without (gone : String × String → Bool) (s : Lakehouse δ) : Lakehouse δ where
  bronze := if gone ("gridlens_bronze", "generation") then ⟨[], List.nodup_nil, .nil⟩ else s.bronze
  versions := if gone (PROD.place .generationVersions) then [] else s.versions
  readFrom := s.readFrom
  net := if gone (PROD.place .periodGenerationNet) then [] else s.net
  mix := if gone (PROD.place .dailyGenerationMix) then [] else s.mix
  runManifest := if gone (PROD.place .runManifest) then [] else s.runManifest

def Rebuilt.without (gone : String → Bool) (r : Rebuilt δ) : Rebuilt δ where
  relations := r.relations
  versions := if gone Node.generationVersions.name then [] else r.versions
  net := if gone Node.periodGenerationNet.name then [] else r.net
  mix := if gone Node.dailyGenerationMix.name then [] else r.mix

def Catalog.without (gone : String × String → Bool) (c : Catalog δ) : Catalog δ where
  lake := c.lake.without gone
  schemas name := (c.schemas name).map (Rebuilt.without fun relation => gone (name, relation))

/-- The relation is no longer listed. -/
def Catalog.unlist (place : String × String) (c : Catalog δ) : Catalog δ :=
  { c with schemas := Function.update c.schemas place.1 ((c.schemas place.1).map fun r =>
      { r with relations := r.relations.filter fun n => n.name ≠ place.2 }) }

/-- A deed that takes effect, on whatever it is. -/
def Catalog.perform (c : Catalog δ) : Deed → Catalog δ
  | .drop sql =>
      match Teardown.dropTarget sql with
      | some (schema, relation, _) =>
          (c.without fun place => place = (schema, relation)).unlist (schema, relation)
      | none => c
  | .schema name =>
      { lake := c.lake.without fun place => place.1 = name
        schemas := Function.update c.schemas name none }
  | .objects _ keys => c.without fun place => keys.any fun key => ownerOf key = some place

/-- A deed on this schema, or on nothing. -/
def Own (name : String) : Deed → Prop
  | .drop sql => ∀ target, Teardown.dropTarget sql = some target → target.1 = name
  | .schema schema => schema = name
  | .objects _ keys => ∀ key ∈ keys, ∀ place, ownerOf key = some place → place.1 = name

section Perform

variable {c : Catalog δ} {name other : String} {d : Deed} {ds : List Deed}
  {gone : String × String → Bool}

theorem Lakehouse.without_eq {s : Lakehouse δ}
    (h : ∀ place, place.1 ∈ PRODUCTION → gone place = false) :
    s.without gone = s := by
  unfold Lakehouse.without
  rw [h _ (by decide), h _ (place_production _), h _ (place_production _),
    h _ (place_production _), h _ (place_production _)]
  rfl

theorem Rebuilt.without_eq {r : Rebuilt δ} {gone : String → Bool}
    (h : ∀ relation, gone relation = false) :
    r.without gone = r := by
  unfold Rebuilt.without
  rw [h, h, h]
  rfl

/-- What goes is of one schema, and that is none of production's. -/
theorem without_own (c : Catalog δ) (gone : String × String → Bool)
    (hgone : ∀ place, gone place = true → place.1 = name) (hname : name ∉ PRODUCTION) :
    (c.without gone).lake = c.lake ∧
      ∀ other, other ≠ name → (c.without gone).schemas other = c.schemas other := by
  have hstays : ∀ place : String × String, place.1 ≠ name → gone place = false := by
    intro place hne
    rw [Bool.eq_false_iff]
    exact fun hgoes => hne (hgone place hgoes)
  refine ⟨Lakehouse.without_eq fun place hplace => hstays place ?_, fun other hne => ?_⟩
  · rintro rfl
    exact hname hplace
  · show (c.schemas other).map _ = c.schemas other
    rw [Option.map_congr fun r _ => Rebuilt.without_eq fun relation =>
      hstays (other, relation) hne, Option.map_id']

/-- A deed on a schema that is none of production's leaves all others alone. -/
theorem perform_own (hown : Own name d) (hname : name ∉ PRODUCTION) :
    (c.perform d).lake = c.lake ∧
      ∀ other, other ≠ name → (c.perform d).schemas other = c.schemas other := by
  cases d with
  | drop sql =>
      cases htarget : Teardown.dropTarget sql with
      | none =>
          simp [Catalog.perform, htarget]
      | some target =>
          obtain ⟨schema, relation, isView⟩ := target
          obtain rfl : schema = name := hown _ htarget
          have hwithout := without_own c (fun place => place = (schema, relation))
            (fun place hplace => congrArg Prod.fst (of_decide_eq_true hplace)) hname
          simp only [Catalog.perform, htarget]
          refine ⟨hwithout.1, fun other hne => ?_⟩
          exact (Function.update_of_ne hne _ _).trans (hwithout.2 other hne)
  | schema schema =>
      obtain rfl : schema = name := hown
      have hwithout := without_own c (fun place => place.1 = schema)
        (fun place hplace => of_decide_eq_true hplace) hname
      exact ⟨hwithout.1, fun other hne => Function.update_of_ne hne _ _⟩
  | objects bucket keys =>
      refine without_own c _ (fun place hplace => ?_) hname
      obtain ⟨key, hkey, howner⟩ := List.any_eq_true.mp hplace
      exact hown key hkey place (of_decide_eq_true howner)

theorem performs_own (hown : ∀ d ∈ ds, Own name d) (hname : name ∉ PRODUCTION) :
    (ds.foldl Catalog.perform c).lake = c.lake ∧
      ∀ other, other ≠ name → (ds.foldl Catalog.perform c).schemas other = c.schemas other := by
  induction ds generalizing c with
  | nil => exact ⟨rfl, fun _ _ => rfl⟩
  | cons d ds ih =>
      rw [List.forall_mem_cons] at hown
      obtain ⟨hlake, hothers⟩ := perform_own (c := c) hown.1 hname
      obtain ⟨hlake', hothers'⟩ := ih (c := c.perform d) hown.2
      exact ⟨hlake'.trans hlake, fun other hne => (hothers' other hne).trans (hothers other hne)⟩

/-- No deed brings a schema back. -/
theorem perform_gone (h : c.schemas name = none) (d : Deed) :
    (c.perform d).schemas name = none := by
  have hwithout : ∀ gone, (c.without gone).schemas name = none := by
    intro gone
    show (c.schemas name).map _ = none
    rw [h, Option.map_none]
  cases d with
  | drop sql =>
      simp only [Catalog.perform]
      split
      · rename_i schema relation isView _
        unfold Catalog.unlist
        by_cases hname : name = schema
        · rw [← hname]
          simp only [Function.update_self, hwithout, Option.map_none]
        · simp only
          rw [Function.update_of_ne hname]
          exact hwithout _
      · exact h
  | schema schema =>
      by_cases hname : name = schema
      · rw [hname]
        exact Function.update_self _ _ _
      · exact (Function.update_of_ne hname _ _).trans h
  | objects bucket keys => exact hwithout _

theorem performs_gone (h : c.schemas name = none) :
    (ds.foldl Catalog.perform c).schemas name = none := by
  induction ds generalizing c with
  | nil => exact h
  | cons d ds ih => exact ih (perform_gone h d)

end Perform

end Catalog

end Gridlens

/-! ## The script -/

namespace Gridlens.Teardown

open Effects

section Script

variable {isalnum : Char → Bool} {o : Outside} {polls : Nat} {database workgroup : String}
  {store : Bool} {dataPrefix : Option String} {name : String}

/-- No schema of production is one that the script may drop. -/
theorem not_production (h : checkSchema isalnum name = .ok ()) : name ∉ PRODUCTION := by
  intro hname
  have hrefused : ∀ n ∈ PRODUCTION, ¬ PREFIXES.any (fun p =>
      decide (p.toList <+: n.toList) && decide (n ≠ p)) = true := by decide
  unfold checkSchema at h
  rw [if_pos (hrefused name hname)] at h
  cases h

/-- The schema in a statement is the one it was written for, whatever the
relation is called. -/
theorem own_dropSql (hname : Unquoted name) (relation : String × Bool) :
    Own name (.drop (dropSql name relation)) := by
  intro target htarget
  rw [dropTarget_eq] at htarget
  obtain ⟨read, hread, rfl⟩ := Option.map_eq_some_iff.mp htarget
  unfold readRelation at hread
  rw [some_bind (readQuoted_quoted (hname.quote relation.2) _)] at hread
  obtain ⟨s, -, hread⟩ := Option.bind_eq_some_iff.mp hread
  obtain ⟨⟨relation, s⟩, -, hread⟩ := Option.bind_eq_some_iff.mp hread
  simp only at hread
  split at hread
  · cases hread
    rfl
  · cases hread

/-- An object under the schema is one of its own. -/
theorem own_under (hname : '/' ∉ name.toList) {key : String} (hkey : Under "/audit/" name key)
    {place : String × String} (howner : ownerOf key = some place) : place.1 = name := by
  obtain ⟨rest, hrest⟩ := under_iff.mp hkey
  have hdir : (stripSlashes "/audit/" ++ "/").toList = "audit".toList ++ ['/'] := by decide
  rw [hdir, List.append_assoc, List.singleton_append] at hrest
  have hpath : key.toList.splitOn '/' =
      "audit".toList :: name.toList :: rest.splitOn '/' := by
    rw [← hrest, List.splitOn_append_cons_self_of_not_mem (by decide),
      List.splitOn_append_cons_self_of_not_mem hname]
  unfold ownerOf at howner
  rw [hpath] at howner
  cases hrest : rest.splitOn '/' with
  | nil => exact absurd hrest (List.splitOn_ne_nil _ _)
  | cons table rest =>
      rw [hrest] at howner
      simp only [String.ofList_toList] at howner
      rw [if_neg (by decide)] at howner
      cases howner
      rfl

/-- What the script does is on the schema it is given. -/
theorem own_deeds (hascii : ∀ c : Char, c.toNat < 128 → isalnum c = c.isAlphanum)
    (hpath : ∀ address bucket path, dataPrefix = some address →
      o.urlparse address = .ok (bucket, path) → path = "/audit/") :
    ∀ d ∈ deeds (teardown isalnum polls database workgroup store dataPrefix o []).2,
      Own database d := by
  cases hcheck : checkSchema isalnum database with
  | error stop =>
      rw [teardown_refused hcheck]
      exact fun d hd => absurd hd List.not_mem_nil
  | ok _ =>
      have halong : Along (Allowed o database dataPrefix) []
          (teardown isalnum polls database workgroup store dataPrefix o []).2 :=
        (wp_teardown store).1
      have hname := unquoted_of_checked hascii hcheck
      have hslash : '/' ∉ database.toList :=
        not_mem_of_checked hascii hcheck (by decide) (by decide) (by decide)
      intro d hd
      obtain ⟨e, he, hdeed⟩ := List.mem_filterMap.mp hd
      obtain ⟨before, after, hes⟩ := List.append_of_mem he
      have hallowed : Allowed o database dataPrefix before e :=
        halong.at ⟨after, by rw [hes]; simp⟩
      cases e with
      | query sql workgroup id =>
          cases hdeed
          obtain ⟨-, found, -, relation, -, rfl⟩ := hallowed
          exact own_dropSql hname relation
      | deletedDatabase name answer =>
          cases hdeed
          exact hallowed.2.2.1
      | deletedObjects bucket keys answer =>
          cases hdeed
          obtain ⟨-, address, path, haddress, hparsed, hkeys⟩ := hallowed
          intro key hkey place howner
          refine own_under hslash ?_ howner
          rw [← hpath address bucket path haddress hparsed]
          exact hkeys key hkey
      | status id status => cases hdeed
      | slept => cases hdeed

/-- When the script returns the schema is gone, if the catalog answered whether
it was there. -/
theorem gone_of_returned {δ : Type} {c : Catalog δ} {summary : Summary} {es : List Effect}
    (hrun : teardown isalnum polls database workgroup store dataPrefix o [] = (.ok summary, es))
    (hlists : relationsOf (o.tables [] database) = .ok none → c.schemas database = none) :
    ((deeds es).foldl Catalog.perform c).schemas database = none := by
  obtain ⟨found, -, bucket, pages, hfound, -, -, -, -, hdone⟩ :=
    post_teardown store dataPrefix summary es hrun
  rw [hdone.deeds]
  cases found with
  | none => exact performs_gone (hlists hfound)
  | some found =>
      have hdeeds : dropDeeds database (some found) =
          (found.map fun relation => .drop (dropSql database relation)) ++ [.schema database] := rfl
      rw [hdeeds, List.append_assoc, List.foldl_append, List.singleton_append, List.foldl_cons]
      exact performs_gone (Function.update_self _ _ _)

end Script

end Gridlens.Teardown
