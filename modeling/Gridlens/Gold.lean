import Gridlens.Silver

/-!
# Gold: net power and the daily mix

`period_generation_net` and `daily_generation_mix`, over the versions a build
reads. Power is in thousandths of a megawatt and energy in millionths of a
megawatt hour, the scales of the columns. The share is a quotient of two
doubles; the quotient is a parameter, since nothing depends on how it rounds.
-/

namespace Gridlens

open Sql

/-! ## `period_generation_net` -/

/-- The columns `period_generation_net` groups by. -/
structure NetKey where
  zone : String
  validTime : Int
  settlementDay : Int
  productionType : String
  isStorage : Bool
  resolutionMinutes : Int
deriving DecidableEq, Repr

structure NetRow where
  key : NetKey
  netMw : Option Int
deriving DecidableEq, Repr

def Version.netKey (v : Version) : NetKey :=
  ⟨v.row.zone, v.row.validTime, v.row.settlementDay, v.row.productionType, v.row.isStorage,
    v.row.resolutionMinutes⟩

/-- Consumption counts against generation. -/
def Version.signedMw (v : Version) : Option Int :=
  if v.row.direction = "generation" then some v.row.quantityMw
  else if v.row.direction = "consumption" then some (-v.row.quantityMw)
  else none

def periodGenerationNet (current : List Version) : List NetRow :=
  (groupBy Version.netKey (fun rows => Sql.sum (rows.map Version.signedMw)) current).map fun g =>
    ⟨g.1, g.2⟩

/-! ## `daily_generation_mix` -/

/-- The columns energy is grouped by. -/
structure EnergyKey where
  zone : String
  settlementDay : Int
  productionType : String
  isStorage : Bool
deriving DecidableEq, Repr

def NetRow.energyKey (r : NetRow) : EnergyKey :=
  ⟨r.key.zone, r.key.settlementDay, r.key.productionType, r.key.isStorage⟩

def NetRow.day (r : NetRow) : String × Int := (r.key.zone, r.key.settlementDay)

/-- Decimal division at the scale of the dividend, half away from zero. -/
def divideHalfUp (a : Int) (b : Nat) : Int := a.sign * ((2 * a.natAbs + b) / (2 * b) : Nat)

/-- `cast(sum(net_mw * resolution_minutes) as decimal(38, 6)) / 60`: from
thousandths to millionths, then the division. -/
def energyOf (rows : List NetRow) : Option Int :=
  (Sql.sum (rows.map fun r => r.netMw.map (· * r.key.resolutionMinutes))).map fun mwMinutes =>
    divideHalfUp (mwMinutes * 1000) 60

def energy (net : List NetRow) : List (EnergyKey × Option Int) :=
  groupBy NetRow.energyKey energyOf net

/-- The zone and the day of an energy row. -/
def EnergyKey.day (k : EnergyKey) : String × Int := (k.zone, k.settlementDay)

/-- `case when energy_mwh > 0 then energy_mwh end`. -/
def positive (energyMwh : Option Int) : Option Int :=
  if (Sql.compare (· < ·) (some 0) energyMwh).holds then energyMwh else none

def totals (energies : List (EnergyKey × Option Int)) : List ((String × Int) × Option Int) :=
  groupBy (fun e => e.1.day) (fun rows => Sql.sum (rows.map fun e => positive e.2)) energies

structure MixRow (δ : Type) where
  key : EnergyKey
  energyMwh : Option Int
  grossMwh : Option Int
  shareOfGross : Option δ
deriving DecidableEq, Repr

section Mix

variable {δ : Type} (quotient : Int → Int → δ)

/-- `case when energy_mwh > 0 then energy_mwh / gross_mwh end`. -/
def share (energyMwh grossMwh : Option Int) : Option δ :=
  match positive energyMwh, grossMwh with
  | some e, some g => some (quotient e g)
  | _, _ => none

def dailyGenerationMix (net : List NetRow) : List (MixRow δ) :=
  (Sql.join (fun e t => t.1.1 = e.1.zone ∧ t.1.2 = e.1.settlementDay) (energy net)
    (totals (energy net))).map fun r =>
      ⟨r.1.1, r.1.2, r.2.2, share quotient r.1.2 r.2.2⟩

end Mix

/-! ## Gold reads a bag -/

section Perm

variable {V V' : List Version} {N N' : List NetRow}

theorem periodGenerationNet_perm (h : V.Perm V') :
    (periodGenerationNet V).Perm (periodGenerationNet V') := by
  unfold periodGenerationNet
  refine (groupBy_perm ?_ h).map _
  intro l l' hl
  exact sum_perm (hl.map _)

theorem energy_perm (h : N.Perm N') : (energy N).Perm (energy N') := by
  unfold energy
  refine groupBy_perm ?_ h
  intro l l' hl
  unfold energyOf
  rw [sum_perm (hl.map _)]

theorem totals_perm {E E' : List (EnergyKey × Option Int)} (h : E.Perm E') :
    (totals E).Perm (totals E') := by
  unfold totals
  refine groupBy_perm ?_ h
  intro l l' hl
  exact sum_perm (hl.map _)

theorem dailyGenerationMix_perm {δ : Type} (quotient : Int → Int → δ) (h : N.Perm N') :
    (dailyGenerationMix quotient N).Perm (dailyGenerationMix quotient N') := by
  have henergy := energy_perm h
  unfold dailyGenerationMix
  refine (join_perm henergy (totals_perm henergy)).map _

/-! ## What gold sees of a version -/

/-- A staging row without the columns gold does not read. -/
def StgRow.content (r : StgRow) : StgRow := { r with toRow := r.toRow.content }

/-- The version gold would read of a content. -/
def Version.ofContent (r : StgRow) : Version := ⟨r, none, true⟩

theorem periodGenerationNet_map_content (V : List Version) :
    periodGenerationNet V
      = periodGenerationNet ((V.map fun v => v.row.content).map Version.ofContent) := by
  have hkey : Version.netKey ∘ (Version.ofContent ∘ fun v => v.row.content) = Version.netKey := rfl
  have hsigned : Version.signedMw ∘ (Version.ofContent ∘ fun v => v.row.content)
      = Version.signedMw := rfl
  unfold periodGenerationNet
  rw [List.map_map, groupBy_map, hkey]
  simp only [List.map_map, hsigned]

/-- Gold comes out the same from versions of the same contents. -/
theorem periodGenerationNet_congr
    (h : (V.map fun v => v.row.content).Perm (V'.map fun v => v.row.content)) :
    (periodGenerationNet V).Perm (periodGenerationNet V') := by
  rw [periodGenerationNet_map_content V, periodGenerationNet_map_content V']
  exact periodGenerationNet_perm (h.map _)

end Perm

end Gridlens
