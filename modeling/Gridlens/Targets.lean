import Gridlens.Manifest

/-!
# Where a model is built

dbt builds each model in a schema that `generate_schema_name` picks. Gold has a
schema of its own, on the production target alone: under every other target
all models go to the schema of the target, and one that is none of production's
keeps them off production (`place_apart`).
-/

namespace Gridlens

/-! ## Targets -/

/-- An output of `profiles.yml`. -/
structure Target where
  name : String
  schema : String
deriving DecidableEq, Repr

/-- `env_var(name, default)`. -/
def envVar (environ : Environ) (name default : String) : String := (environ name).getD default

def PROD : Target := ⟨"prod", "gridlens_silver"⟩

/-- `profiles.yml`, as it is rendered. -/
def outputs (environ : Environ) : List Target :=
  [PROD, ⟨"ci", envVar environ "DBT_CI_SCHEMA" "gridlens_ci_local"⟩,
    ⟨"audit", envVar environ "DBT_AUDIT_SCHEMA" "gridlens_audit_local"⟩]

/-- `--target`. -/
def outputNamed (environ : Environ) (name : String) : Option Target :=
  (outputs environ).find? fun target => target.name = name

/-- `generate_schema_name`. -/
def generateSchemaName (customSchemaName : Option String) (target : Target) : String :=
  match customSchemaName with
  | some custom => if target.name = "prod" then strip custom else target.schema
  | none => target.schema

/-! ## The models -/

namespace Node

def name : Node → String
  | stgGeneration => "stg_generation"
  | generationVersions => "generation_versions"
  | generationCurrent => "generation_current"
  | periodGenerationNet => "period_generation_net"
  | dailyGenerationMix => "daily_generation_mix"
  | runManifest => "run_manifest"

/-- `+schema`, in `dbt_project.yml`. -/
def customSchema : Node → Option String
  | periodGenerationNet | dailyGenerationMix | runManifest => some "gridlens_gold"
  | _ => none

/-- `materialized` is `view`. -/
def isView : Node → Bool
  | stgGeneration | generationCurrent => true
  | _ => false

end Node

namespace Target

def schemaOf (target : Target) (n : Node) : String := generateSchemaName n.customSchema target

/-- The schema and the name of the relation. -/
def place (target : Target) (n : Node) : String × String := (target.schemaOf n, n.name)

end Target

/-- The schemas of production, that of bronze included. -/
abbrev PRODUCTION : List String := ["gridlens_bronze", "gridlens_silver", "gridlens_gold"]

theorem place_production (n : Node) : (PROD.place n).1 ∈ PRODUCTION := by
  cases n <;> decide

section Apart

variable {target : Target} {n m : Node}

theorem schemaOf_of_ne (h : target.name ≠ "prod") : target.schemaOf n = target.schema := by
  unfold Target.schemaOf generateSchemaName
  split
  · exact if_neg h
  · rfl

/-- No model is built where production has one. -/
theorem place_apart (h : target.name ≠ "prod") (hschema : target.schema ∉ PRODUCTION) :
    target.place n ≠ PROD.place m := by
  intro heq
  have hplace : (target.place n).1 ∈ PRODUCTION := by
    rw [heq]
    exact place_production m
  exact hschema (schemaOf_of_ne (n := n) h ▸ hplace)

/-- What `restate` runs dbt with, whatever else is in the environment. -/
theorem outputNamed_audit (environ : Environ) (schema : String) :
    outputNamed (Function.update environ "DBT_AUDIT_SCHEMA" (some schema)) "audit" =
      some ⟨"audit", schema⟩ := by
  unfold outputNamed outputs envVar
  rw [Function.update_self]
  rfl

end Apart

end Gridlens
