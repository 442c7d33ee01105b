import Gridlens.Python

/-!
# Reference codes

The codes the contract checks against: bidding zones by EIC code, production
types by their entso-e code, and the values of the literal fields. Each
enumeration lists its members in the order of the source and gives the text
of each.
-/

namespace Gridlens

inductive BiddingZone where
  | FR | BE | NL | DE_LU | ES | PT | CH | AT | GB
deriving DecidableEq, Repr

namespace BiddingZone

def all : List BiddingZone := [FR, BE, NL, DE_LU, ES, PT, CH, AT, GB]

def value : BiddingZone → String
  | FR => "10YFR-RTE------C"
  | BE => "10YBE----------2"
  | NL => "10YNL----------L"
  | DE_LU => "10Y1001A1001A82H"
  | ES => "10YES-REE------0"
  | PT => "10YPT-REN------W"
  | CH => "10YCH-SWISSGRIDZ"
  | AT => "10YAT-APG------L"
  | GB => "10YGB----------A"

def name : BiddingZone → String
  | FR => "FR"
  | BE => "BE"
  | NL => "NL"
  | DE_LU => "DE_LU"
  | ES => "ES"
  | PT => "PT"
  | CH => "CH"
  | AT => "AT"
  | GB => "GB"

end BiddingZone

inductive ProductionType where
  | BIOMASS | LIGNITE | COAL_DERIVED_GAS | GAS | HARD_COAL | OIL | OIL_SHALE | PEAT | GEOTHERMAL
  | HYDRO_PUMPED_STORAGE | HYDRO_RUN_OF_RIVER | HYDRO_RESERVOIR | MARINE | NUCLEAR
  | OTHER_RENEWABLE | SOLAR | WASTE | WIND_OFFSHORE | WIND_ONSHORE | OTHER | AC_LINK | DC_LINK
  | SUBSTATION | TRANSFORMER | ENERGY_STORAGE
deriving DecidableEq, Repr

namespace ProductionType

def all : List ProductionType :=
  [BIOMASS, LIGNITE, COAL_DERIVED_GAS, GAS, HARD_COAL, OIL, OIL_SHALE, PEAT, GEOTHERMAL,
    HYDRO_PUMPED_STORAGE, HYDRO_RUN_OF_RIVER, HYDRO_RESERVOIR, MARINE, NUCLEAR, OTHER_RENEWABLE,
    SOLAR, WASTE, WIND_OFFSHORE, WIND_ONSHORE, OTHER, AC_LINK, DC_LINK, SUBSTATION, TRANSFORMER,
    ENERGY_STORAGE]

def value : ProductionType → String
  | BIOMASS => "B01"
  | LIGNITE => "B02"
  | COAL_DERIVED_GAS => "B03"
  | GAS => "B04"
  | HARD_COAL => "B05"
  | OIL => "B06"
  | OIL_SHALE => "B07"
  | PEAT => "B08"
  | GEOTHERMAL => "B09"
  | HYDRO_PUMPED_STORAGE => "B10"
  | HYDRO_RUN_OF_RIVER => "B11"
  | HYDRO_RESERVOIR => "B12"
  | MARINE => "B13"
  | NUCLEAR => "B14"
  | OTHER_RENEWABLE => "B15"
  | SOLAR => "B16"
  | WASTE => "B17"
  | WIND_OFFSHORE => "B18"
  | WIND_ONSHORE => "B19"
  | OTHER => "B20"
  | AC_LINK => "B21"
  | DC_LINK => "B22"
  | SUBSTATION => "B23"
  | TRANSFORMER => "B24"
  | ENERGY_STORAGE => "B25"

end ProductionType

/-- `Literal["entsoe", "rte"]`. -/
inductive Source where
  | entsoe | rte
deriving DecidableEq, Repr

namespace Source

def all : List Source := [entsoe, rte]

def value : Source → String
  | entsoe => "entsoe"
  | rte => "rte"

end Source

/-- `Literal["generation", "consumption"]`. -/
inductive Direction where
  | generation | consumption
deriving DecidableEq, Repr

namespace Direction

def all : List Direction := [generation, consumption]

def value : Direction → String
  | generation => "generation"
  | consumption => "consumption"

end Direction

/-- `Literal["MW"]`. -/
inductive PowerUnit where
  | MW
deriving DecidableEq, Repr

namespace PowerUnit

def all : List PowerUnit := [MW]

def value : PowerUnit → String
  | MW => "MW"

end PowerUnit

/-- The member of an enumeration with this value. -/
def ofValue? {α : Type} (members : List α) (value : α → String) (text : String) : Option α :=
  members.find? fun m => value m = text

/-- Reading a member's value gives a member of that value. -/
theorem ofValue?_value {α : Type} {members : List α} {value : α → String} {text : String} {m : α}
    (h : ofValue? members value text = some m) : value m = text := by
  have hm := List.find?_some h
  simpa using hm

/-- Values that lead back to their members tell the members apart. -/
theorem injective_of_ofValue? {α : Type} {value : α → String} (members : List α)
    (h : ∀ m, ofValue? members value (value m) = some m) : Function.Injective value := by
  intro m n heq
  have hm := h m
  rw [heq, h n] at hm
  exact (Option.some.inj hm).symm

theorem BiddingZone.value_injective : Function.Injective BiddingZone.value :=
  injective_of_ofValue? BiddingZone.all fun m => by cases m <;> decide +kernel

theorem ProductionType.value_injective : Function.Injective ProductionType.value :=
  injective_of_ofValue? ProductionType.all fun m => by cases m <;> decide +kernel

theorem Source.value_injective : Function.Injective Source.value :=
  injective_of_ofValue? Source.all fun m => by cases m <;> decide +kernel

theorem Direction.value_injective : Function.Injective Direction.value :=
  injective_of_ofValue? Direction.all fun m => by cases m <;> decide +kernel

end Gridlens
