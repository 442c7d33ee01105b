import Gridlens.Gold
import Gridlens.Sql.Totals
import Mathlib.Algebra.BigOperators.Ring.List
import Mathlib.Algebra.Field.Rat
import Mathlib.Algebra.Order.BigOperators.Group.List
import Mathlib.Tactic.FieldSimp
import Mathlib.Tactic.Ring

/-!
# Gold energy is exact

Power has three decimals and a period is a multiple of three minutes long, so
its energy has at most five decimals and the one division of the daily mart, at
a scale of six, rounds nothing. Everything else follows from that: the two
groupings on the way to a daily figure are one grouping (`energy_perm_flat`),
and figures that are exact add up.

Energies are counted in millionths of a megawatt hour, as the column is.
-/

namespace Gridlens

open Sql

/-! ## What a version contributes -/

/-- What `generation_current` holds: rows that staging made, of one of the two
directions, of a resolution in whole multiples of three minutes. Three decimals
are the scale of the column. -/
def Published (current : List Version) : Prop :=
  ∀ v ∈ current, v.row = stgRow v.row.toRow ∧
    (v.row.direction = "generation" ∨ v.row.direction = "consumption") ∧
      3 ∣ v.row.resolutionMinutes

namespace Version

/-- The quantity with its sign, in thousandths of a megawatt. -/
def signed (v : Version) : Int :=
  if v.row.direction = "generation" then v.row.quantityMw else -v.row.quantityMw

/-- The energy of a version, in megawatt hours. -/
def mwh (v : Version) : ℚ := (v.signed : ℚ) / 1000 * v.row.resolutionMinutes / 60

/-- And in millionths, where the resolution is a multiple of three minutes. -/
def millionths (v : Version) : Int := 50 * (v.signed * (v.row.resolutionMinutes / 3))

/-- The columns energy is grouped by. -/
def energyKey (v : Version) : EnergyKey :=
  ⟨v.row.zone, v.row.settlementDay, v.row.productionType, v.row.isStorage⟩

end Version

/-- The zone, the day and the type of a row are those of the key. -/
def EnergyKey.covers (k : EnergyKey) (v : Version) : Bool :=
  v.row.zone = k.zone ∧ v.row.settlementDay = k.settlementDay ∧ v.row.productionType = k.productionType

section Exact

variable {current : List Version} {v : Version} {k : EnergyKey}

theorem millionths_eq (h : 3 ∣ v.row.resolutionMinutes) : (v.millionths : ℚ) / 10 ^ 6 = v.mwh := by
  rcases h with ⟨m, hm⟩
  have hdiv : v.row.resolutionMinutes / 3 = m := by omega
  rw [Version.millionths, Version.mwh, hdiv, hm]
  push_cast
  ring

theorem sum_millionths_eq {l : List Version} (h : ∀ v ∈ l, 3 ∣ v.row.resolutionMinutes) :
    (((l.map Version.millionths).sum : Int) : ℚ) / 10 ^ 6 = (l.map Version.mwh).sum := by
  induction l with
  | nil => simp
  | cons v l ih =>
      have hv := millionths_eq (h v List.mem_cons_self)
      have hl := ih fun w hw => h w (List.mem_cons_of_mem v hw)
      rw [List.map_cons, List.map_cons, List.sum_cons, List.sum_cons, ← hv, ← hl]
      push_cast
      ring

/-- A division that leaves no remainder rounds nothing. -/
theorem divideHalfUp_mul (m : Int) {b : Nat} (hb : 0 < b) : divideHalfUp (m * b) b = m := by
  have hsign : (m * b).sign = m.sign := by
    have hpos : (b : Int).sign = 1 := Int.sign_eq_one_of_pos (by exact_mod_cast hb)
    rw [Int.sign_mul, hpos, mul_one]
  have habs : (2 * (m * b).natAbs + b) / (2 * b) = m.natAbs := by
    rw [Int.natAbs_mul, Int.natAbs_natCast]
    have hsplit : 2 * (m.natAbs * b) + b = b + m.natAbs * (2 * b) := by ring
    rw [hsplit, Nat.add_mul_div_right _ _ (by omega), Nat.div_eq_of_lt (by omega), zero_add]
  rw [divideHalfUp, hsign, habs]
  exact Int.sign_mul_natAbs m

/-! ## Two groupings are one -/

theorem signedMw_eq (hv : v.row.direction = "generation" ∨ v.row.direction = "consumption") :
    v.signedMw = some v.signed := by
  unfold Version.signedMw Version.signed
  rcases hv with hv | hv
  · rw [if_pos hv, if_pos hv]
  · have hne : v.row.direction ≠ "generation" := by
      rw [hv]
      decide
    rw [if_neg hne, if_neg hne, if_pos hv]

/-- No group of the net mart is null. -/
theorem periodGenerationNet_eq (h : Published current) :
    periodGenerationNet current
      = (groupBy Version.netKey (fun rows => (rows.map Version.signed).sum) current).map
          fun g => ⟨g.1, some g.2⟩ := by
  have hgroups : groupBy Version.netKey (fun rows => Sql.sum (rows.map Version.signedMw)) current
      = groupBy Version.netKey (fun rows => some (rows.map Version.signed).sum) current := by
    apply groupBy_congr
    intro k hk
    have hsome : (partition Version.netKey k current).map Version.signedMw
        = (partition Version.netKey k current).map fun v => some v.signed := by
      apply List.map_congr_left
      intro v hv
      exact signedMw_eq (h v (mem_partition.mp hv).1).2.1
    rw [hsome, sum_map_some _ (partition_ne_nil hk)]
  unfold periodGenerationNet
  rw [hgroups]
  unfold groupBy
  rw [List.map_map, List.map_map]
  rfl

/-- Power times length, summed over the rows of the net mart whose key has some
property, is that sum over the versions. -/
theorem energyOf_filter (h : Published current) (p : NetKey → Bool)
    (hne : current.filter (fun v => p v.netKey) ≠ []) :
    energyOf ((periodGenerationNet current).filter fun r => p r.key)
      = some ((current.filter fun v => p v.netKey).map Version.millionths).sum := by
  have hsum : (((groupBy Version.netKey (fun rows => (rows.map Version.signed).sum) current).filter
      fun g => p g.1).map fun g => g.2 * g.1.resolutionMinutes).sum
        = ((current.filter fun v => p v.netKey).map fun v =>
            v.signed * v.row.resolutionMinutes).sum := by
    -- the length is part of the key, so it can be multiplied in before summing
    have hlength : ∀ k, ((partition Version.netKey k current).map Version.signed).sum
          * k.resolutionMinutes
        = ((partition Version.netKey k current).map fun v =>
            v.signed * v.row.resolutionMinutes).sum := by
      intro k
      rw [← List.sum_map_mul_right]
      apply congrArg List.sum
      apply List.map_congr_left
      intro v hv
      rw [← (mem_partition.mp hv).2]
      rfl
    rw [← sum_filter_groupBy p fun v : Version => v.signed * v.row.resolutionMinutes]
    unfold groupBy
    simp only [List.filter_map, List.map_map]
    apply congrArg List.sum
    apply List.map_congr_left
    intro k _
    exact hlength k
  have hrows : ((periodGenerationNet current).filter fun r => p r.key).map
        (fun r => r.netMw.map (· * r.key.resolutionMinutes))
      = ((groupBy Version.netKey (fun rows => (rows.map Version.signed).sum) current).filter
          fun g => p g.1).map fun g => some (g.2 * g.1.resolutionMinutes) := by
    rw [periodGenerationNet_eq h, List.filter_map, List.map_map]
    rfl
  have hnonempty : (groupBy Version.netKey (fun rows => (rows.map Version.signed).sum) current).filter
      (fun g => p g.1) ≠ [] := fun hnil => hne ((filter_groupBy_eq_nil_iff p).mp hnil)
  have hthird : ((current.filter fun v => p v.netKey).map fun v =>
        v.signed * v.row.resolutionMinutes).sum * 1000
      = ((current.filter fun v => p v.netKey).map Version.millionths).sum * (60 : ℕ) := by
    rw [← List.sum_map_mul_right, ← List.sum_map_mul_right]
    apply congrArg List.sum
    apply List.map_congr_left
    intro v hv
    rcases (h v (List.mem_filter.mp hv).1).2.2 with ⟨m, hm⟩
    have hdiv : v.row.resolutionMinutes / 3 = m := by omega
    rw [Version.millionths, hdiv, hm]
    push_cast
    ring
  unfold energyOf
  rw [hrows, sum_map_some _ hnonempty, hsum, Option.map_some, hthird,
    divideHalfUp_mul _ (by decide)]

/-- The energy of a type over a day, net periods first and periods second, is
the energy of its versions. -/
theorem energy_perm_flat (h : Published current) :
    (energy (periodGenerationNet current)).Perm
      (groupBy Version.energyKey (fun rows => some (rows.map Version.millionths).sum) current) := by
  refine (List.perm_ext_iff_of_nodup groupBy_nodup groupBy_nodup).mpr fun e => ?_
  -- a key occurs in the net mart where it occurs in silver
  have hkey : (∃ r ∈ periodGenerationNet current, r.energyKey = e.1) ↔
      ∃ v ∈ current, v.energyKey = e.1 := by
    constructor
    · rintro ⟨r, hr, hk⟩
      rcases List.mem_map.mp hr with ⟨g, hg, rfl⟩
      rcases (mem_groupBy.mp hg).1 with ⟨v, hv, hnet⟩
      refine ⟨v, hv, ?_⟩
      rw [← hk, NetRow.energyKey, ← hnet]
      rfl
    · rintro ⟨v, hv, hk⟩
      have hg : (v.netKey, Sql.sum ((partition Version.netKey v.netKey current).map
          Version.signedMw)) ∈ groupBy Version.netKey
            (fun rows => Sql.sum (rows.map Version.signedMw)) current :=
        mem_groupBy.mpr ⟨⟨v, hv, rfl⟩, rfl⟩
      exact ⟨_, List.mem_map_of_mem hg, hk⟩
  rw [mem_groupBy, mem_groupBy, hkey]
  refine and_congr_right fun hex => ?_
  have hrows := energyOf_filter h
    (fun k => (⟨k.zone, k.settlementDay, k.productionType, k.isStorage⟩ : EnergyKey) = e.1)
    (partition_ne_nil hex)
  exact iff_of_eq (congrArg (e.2 = ·) hrows)

/-! ## The daily mart, row by row -/

/-- The sum of the types that net positive over a day. -/
def grossOf (energies : List (EnergyKey × Option Int)) (day : String × Int) : Option Int :=
  Sql.sum ((partition (fun e => e.1.day) day energies).map fun e => positive e.2)

/-- Every energy row meets the one total of its day. -/
theorem dailyGenerationMix_eq {δ : Type} (quotient : Int → Int → δ) (net : List NetRow) :
    dailyGenerationMix quotient net = (energy net).map fun e =>
      ⟨e.1, e.2, grossOf (energy net) e.1.day,
        share quotient e.2 (grossOf (energy net) e.1.day)⟩ := by
  have hmatch : ∀ e ∈ energy net, (totals (energy net)).filter
        (fun t => t.1.1 = e.1.zone ∧ t.1.2 = e.1.settlementDay)
      = [(e.1.day, grossOf (energy net) e.1.day)] := by
    intro e he
    have hone : (totals (energy net)).filter (fun t => t.1 = e.1.day)
        = [(e.1.day, grossOf (energy net) e.1.day)] := filter_groupBy ⟨e, he, rfl⟩
    rw [← hone]
    apply List.filter_congr
    intro t _
    rw [EnergyKey.day, decide_eq_decide, Prod.ext_iff]
  unfold dailyGenerationMix
  rw [join_eq_map hmatch, List.map_map]
  rfl

/-- The daily mart, with its shares as exact quotients. -/
def exactMix (current : List Version) : List (MixRow ℚ) :=
  dailyGenerationMix (fun e g => (e : ℚ) / g) (periodGenerationNet current)

/-- The energy of a type over a day, in millionths. -/
def energyTotal (current : List Version) (k : EnergyKey) : Int :=
  ((partition Version.energyKey k current).map Version.millionths).sum

theorem mem_energy (h : Published current) {e : EnergyKey × Option Int} :
    e ∈ energy (periodGenerationNet current) ↔
      (∃ v ∈ current, v.energyKey = e.1) ∧ e.2 = some (energyTotal current e.1) := by
  rw [(energy_perm_flat h).mem_iff, mem_groupBy]
  exact Iff.rfl

/-- A type is of one kind, so a zone, a day and a type name one group. -/
theorem covers_iff (h : Published current) (hv : v ∈ current)
    (hk : ∃ w ∈ current, w.energyKey = k) : k.covers v = true ↔ v.energyKey = k := by
  rcases hk with ⟨w, hw, rfl⟩
  have hstorage : ∀ u ∈ current, u.row.isStorage
      = decide (u.row.productionType = "B10" ∨ u.row.productionType = "B25") := by
    intro u hu
    rw [(h u hu).1]
    rfl
  rw [EnergyKey.covers, decide_eq_true_eq, Version.energyKey, Version.energyKey, EnergyKey.mk.injEq,
    hstorage v hv, hstorage w hw]
  constructor
  · intro ⟨hzone, hday, htype⟩
    have htype' : v.row.productionType = w.row.productionType := htype
    exact ⟨hzone, hday, htype, by rw [htype']⟩
  · intro ⟨hzone, hday, htype, _⟩
    exact ⟨hzone, hday, htype⟩

theorem exactMix_eq (current : List Version) :
    exactMix current = (energy (periodGenerationNet current)).map fun e =>
      ⟨e.1, e.2, grossOf (energy (periodGenerationNet current)) e.1.day,
        share (fun e g => (e : ℚ) / g) e.2
          (grossOf (energy (periodGenerationNet current)) e.1.day)⟩ :=
  dailyGenerationMix_eq _ _

/-- The energies of the rows of a day. -/
theorem map_energyMwh_day (d : String × Int) :
    ((exactMix current).filter fun r => r.key.day = d).map MixRow.energyMwh
      = (partition (fun e => e.1.day) d (energy (periodGenerationNet current))).map Prod.snd := by
  rw [exactMix_eq, List.filter_map, List.map_map]
  rfl

/-- The total of a day, over its types and over its periods. -/
theorem sum_energies_day (h : Published current) (d : String × Int) :
    Sql.sum (((exactMix current).filter fun r => r.key.day = d).map MixRow.energyMwh)
      = energyOf ((periodGenerationNet current).filter fun r => r.day = d) := by
  have hflat : ((partition (fun e => e.1.day) d (energy (periodGenerationNet current))).map
      Prod.snd).Perm
        (((groupBy Version.energyKey (fun rows => (rows.map Version.millionths).sum) current).filter
          fun g => g.1.day = d).map fun g => some g.2) := by
    refine (((energy_perm_flat h).filter _).map _).trans (List.Perm.of_eq ?_)
    unfold groupBy
    rw [List.filter_map, List.filter_map, List.map_map, List.map_map]
    rfl
  rw [map_energyMwh_day, sum_perm hflat]
  have hgroups : (groupBy Version.energyKey (fun rows => (rows.map Version.millionths).sum)
      current).filter (fun g => g.1.day = d) = [] ↔
        current.filter (fun v => (v.netKey.zone, v.netKey.settlementDay) = d) = [] :=
    filter_groupBy_eq_nil_iff fun k : EnergyKey => k.day = d
  by_cases hne : current.filter (fun v => (v.netKey.zone, v.netKey.settlementDay) = d) = []
  · -- nothing of the day on either side
    have hnet : (periodGenerationNet current).filter (fun r => r.day = d) = [] := by
      unfold periodGenerationNet
      rw [List.filter_map, List.map_eq_nil_iff]
      exact (filter_groupBy_eq_nil_iff fun k : NetKey => (k.zone, k.settlementDay) = d).mpr hne
    rw [hnet, hgroups.mpr hne]
    rfl
  · have hsum : (((groupBy Version.energyKey (fun rows => (rows.map Version.millionths).sum)
          current).filter fun g => g.1.day = d).map Prod.snd).sum
        = ((current.filter fun v => v.energyKey.day = d).map Version.millionths).sum :=
      sum_filter_groupBy (fun k : EnergyKey => k.day = d) Version.millionths
    rw [sum_map_some _ (mt hgroups.mp hne)]
    have hrows := energyOf_filter h (fun k => ((k.zone, k.settlementDay) = d : Bool)) hne
    refine Eq.trans ?_ hrows.symm
    exact congrArg some hsum

/-- The gross energy of a day, from the rows of the mart themselves. -/
theorem grossMwh_eq {r : MixRow ℚ} (hr : r ∈ exactMix current) :
    r.grossMwh = Sql.sum ((((exactMix current).filter fun s => s.key.day = r.key.day).filter
      fun s => 0 < s.energyMwh.getD 0).map MixRow.energyMwh) := by
  have hgross : r.grossMwh = grossOf (energy (periodGenerationNet current)) r.key.day := by
    rw [exactMix_eq] at hr
    rcases List.mem_map.mp hr with ⟨e, -, rfl⟩
    rfl
  have hpositive : ∀ l : List (Option Int), (l.map positive).filterMap id
      = (l.filter fun e => 0 < e.getD 0).filterMap id := by
    intro l
    induction l with
    | nil => rfl
    | cons e l ih =>
        cases e with
        | none => simpa [positive, Sql.compare, Truth.holds] using ih
        | some e =>
            by_cases he : 0 < e
            · simpa [positive, he] using ih
            · simpa [positive, he] using ih
  rw [hgross, grossOf]
  apply Sql.sum_congr
  have hfilter : (((exactMix current).filter fun s => s.key.day = r.key.day).filter
        fun s => 0 < s.energyMwh.getD 0).map MixRow.energyMwh
      = (((exactMix current).filter fun s => s.key.day = r.key.day).map MixRow.energyMwh).filter
          fun e => 0 < e.getD 0 := by
    rw [List.filter_map]
    rfl
  rw [hfilter, map_energyMwh_day, ← hpositive, List.map_map]
  rfl

theorem positive_eq_some {e : Option Int} {n : Int} : positive e = some n ↔ e = some n ∧ 0 < n := by
  cases e with
  | none => simp [positive]
  | some m =>
      unfold positive
      rw [holds_compare_some]
      by_cases hm : 0 < m
      · rw [decide_eq_true hm, if_pos rfl, Option.some.injEq]
        exact ⟨fun h => ⟨h, h ▸ hm⟩, fun h => h.1⟩
      · rw [decide_eq_false hm, if_neg Bool.false_ne_true, Option.some.injEq]
        exact ⟨fun h => absurd h (by simp), fun h => absurd (h.1 ▸ h.2) hm⟩

/-- Quotients of some numbers by their sum add up to one. -/
theorem sum_quotients {l : List Int} (hl : l ≠ []) (hpos : ∀ n ∈ l, 0 < n) :
    (l.map fun n : Int => (n : ℚ) / (l.sum : Int)).sum = 1 := by
  have hsum : 0 < l.sum := List.sum_pos l hpos hl
  have hne : ((l.sum : Int) : ℚ) ≠ 0 := by exact_mod_cast hsum.ne'
  have hcast : (l.map fun n : Int => (n : ℚ)).sum = (l.sum : Int) := by
    exact (map_list_sum (Int.castAddHom ℚ) l).symm
  have hdiv : (l.map fun n : Int => (n : ℚ) / (l.sum : Int)).sum
      = (l.map fun n : Int => (n : ℚ)).sum / (l.sum : Int) := by
    simp only [div_eq_mul_inv, List.sum_map_mul_right]
  rw [hdiv, hcast, div_self hne]

/-- The positive energies of a day. -/
def positives (energies : List (EnergyKey × Option Int)) (d : String × Int) : List Int :=
  (partition (fun e => e.1.day) d energies).filterMap fun e => positive e.2

theorem mem_positives {energies : List (EnergyKey × Option Int)} {d : String × Int} {n : Int} :
    n ∈ positives energies d ↔ ∃ e ∈ energies, e.1.day = d ∧ e.2 = some n ∧ 0 < n := by
  unfold positives
  rw [List.mem_filterMap]
  constructor
  · intro ⟨e, he, hn⟩
    have hday := mem_partition.mp he
    exact ⟨e, hday.1, hday.2, positive_eq_some.mp hn⟩
  · intro ⟨e, he, hday, hn⟩
    exact ⟨e, mem_partition.mpr ⟨he, hday⟩, positive_eq_some.mpr hn⟩

theorem grossOf_eq {energies : List (EnergyKey × Option Int)} {d : String × Int}
    (h : positives energies d ≠ []) : grossOf energies d = some (positives energies d).sum := by
  have hvalues : ((partition (fun e => e.1.day) d energies).map fun e => positive e.2).filterMap id
      = positives energies d := by
    rw [List.filterMap_map]
    rfl
  unfold grossOf Sql.sum
  rw [hvalues]
  split
  · rename_i hnil
    exact absurd hnil h
  · rename_i hcons
    rw [hcons]

/-- The shares of a day are those of its positive energies. -/
theorem shares_day {d : String × Int}
    (h : positives (energy (periodGenerationNet current)) d ≠ []) :
    ((exactMix current).filter fun r => r.key.day = d).filterMap MixRow.shareOfGross
      = (positives (energy (periodGenerationNet current)) d).map fun n : Int =>
          (n : ℚ) / ((positives (energy (periodGenerationNet current)) d).sum : Int) := by
  have hgross := grossOf_eq h
  generalize (positives (energy (periodGenerationNet current)) d).sum = gross at hgross ⊢
  rw [exactMix_eq, List.filter_map, List.filterMap_map, positives, List.map_filterMap]
  apply List.filterMap_congr
  intro e he
  rw [Function.comp_apply, (mem_partition.mp he).2, hgross]
  unfold share
  cases positive e.2 <;> rfl

/-- The shares of a day with a positive type add up to one. -/
theorem sum_shares (d : String × Int)
    (h : ∃ r ∈ exactMix current, r.key.day = d ∧ 0 < r.energyMwh.getD 0) :
    (((exactMix current).filter fun r => r.key.day = d).filterMap MixRow.shareOfGross).sum = 1 := by
  have hne : positives (energy (periodGenerationNet current)) d ≠ [] := by
    rcases h with ⟨r, hr, hday, hpos⟩
    rw [exactMix_eq] at hr
    rcases List.mem_map.mp hr with ⟨⟨k, value⟩, he, rfl⟩
    cases value with
    | none => exact absurd hpos (by simp)
    | some n => exact List.ne_nil_of_mem (mem_positives.mpr ⟨_, he, hday, rfl, hpos⟩)
  rw [shares_day hne]
  refine sum_quotients hne fun n hn => ?_
  rcases mem_positives.mp hn with ⟨_, _, _, _, hpos⟩
  exact hpos

/-- The energy of a row, whatever way its versions are split up for summing. -/
theorem energyMwh_eq (h : Published current) {r : MixRow ℚ} (hr : r ∈ exactMix current) :
    ∃ e : Int, r.energyMwh = some e ∧
      ∀ parts : List (List Version), parts.flatten.Perm (current.filter r.key.covers) →
        (e : ℚ) / 10 ^ 6 = (parts.map fun part => (part.map Version.mwh).sum).sum := by
  rw [exactMix_eq] at hr
  rcases List.mem_map.mp hr with ⟨e, he, rfl⟩
  rcases (mem_energy h).mp he with ⟨hkey, hvalue⟩
  refine ⟨energyTotal current e.1, hvalue, fun parts hparts => ?_⟩
  have hgroup : current.filter e.1.covers = partition Version.energyKey e.1 current := by
    apply List.filter_congr
    intro v hv
    rw [Bool.eq_iff_iff, covers_iff h hv hkey, decide_eq_true_eq]
  have hsum : (parts.map fun part => (part.map Version.mwh).sum).sum
      = (parts.flatten.map Version.mwh).sum := by
    rw [List.map_flatten, List.sum_flatten, List.map_map]
    rfl
  have hlength : ∀ v ∈ partition Version.energyKey e.1 current, 3 ∣ v.row.resolutionMinutes :=
    fun v hv => (h v (mem_partition.mp hv).1).2.2
  rw [hsum, (hparts.map _).sum_eq, hgroup, ← sum_millionths_eq hlength]
  rfl

/-- Each zone, day and type that occurs has one row. -/
theorem exactMix_keys (h : Published current) :
    ((exactMix current).map fun r => (r.key.zone, r.key.settlementDay, r.key.productionType)).Nodup ∧
      ∀ v ∈ current, ∃ r ∈ exactMix current, r.key.covers v = true := by
  have hkeys : (exactMix current).map MixRow.key
      = (energy (periodGenerationNet current)).map Prod.fst := by
    rw [exactMix_eq, List.map_map]
    rfl
  have hmem : ∀ k ∈ (energy (periodGenerationNet current)).map Prod.fst,
      ∃ v ∈ current, v.energyKey = k := by
    intro k hk
    rcases List.mem_map.mp hk with ⟨e, he, rfl⟩
    exact ((mem_energy h).mp he).1
  constructor
  · have hmap : (exactMix current).map (fun r => (r.key.zone, r.key.settlementDay, r.key.productionType))
        = ((energy (periodGenerationNet current)).map Prod.fst).map
            fun k => (k.zone, k.settlementDay, k.productionType) := by
      rw [← hkeys, List.map_map]
      rfl
    rw [hmap]
    refine List.Nodup.map_on ?_ groupBy_keys_nodup
    intro k hk k' hk' heq
    rcases hmem k hk with ⟨v, hv, rfl⟩
    have hcovers : k'.covers v = true := by
      simp only [Prod.mk.injEq] at heq
      rw [EnergyKey.covers, decide_eq_true_eq]
      exact heq
    exact (covers_iff h hv (hmem k' hk')).mp hcovers
  · intro v hv
    have he : (v.energyKey, some (energyTotal current v.energyKey)) ∈
        energy (periodGenerationNet current) := (mem_energy h).mpr ⟨⟨v, hv, rfl⟩, rfl⟩
    rw [exactMix_eq]
    refine ⟨_, List.mem_map_of_mem he, ?_⟩
    exact (covers_iff h hv ⟨v, hv, rfl⟩).mpr rfl

end Exact

/-- The daily mart is exact: a row for each zone, day and type, whose energy is
the sum of what its versions contribute, however it is summed; the types of a
day add up to the total of its periods; gross is the sum of the positive types;
and the shares of a day that has one add up to one. -/
theorem daily_energy_exact {current : List Version} (h : Published current) :
    (((exactMix current).map fun r =>
          (r.key.zone, r.key.settlementDay, r.key.productionType)).Nodup ∧
        ∀ v ∈ current, ∃ r ∈ exactMix current, r.key.covers v = true) ∧
      (∀ r ∈ exactMix current, ∃ e : Int, r.energyMwh = some e ∧
        ∀ parts : List (List Version), parts.flatten.Perm (current.filter r.key.covers) →
          (e : ℚ) / 10 ^ 6 = (parts.map fun part => (part.map Version.mwh).sum).sum) ∧
      (∀ day, Sql.sum (((exactMix current).filter fun r => r.key.day = day).map MixRow.energyMwh)
        = energyOf ((periodGenerationNet current).filter fun r => r.day = day)) ∧
      (∀ r ∈ exactMix current, r.grossMwh =
        Sql.sum ((((exactMix current).filter fun s => s.key.day = r.key.day).filter
          fun s => 0 < s.energyMwh.getD 0).map MixRow.energyMwh)) ∧
      ∀ day, (∃ r ∈ exactMix current, r.key.day = day ∧ 0 < r.energyMwh.getD 0) →
        (((exactMix current).filter fun r => r.key.day = day).filterMap MixRow.shareOfGross).sum
          = 1 := by
  refine ⟨exactMix_keys h, ?_, ?_, ?_, ?_⟩
  · intro r hr
    exact energyMwh_eq h hr
  · intro day
    exact sum_energies_day h day
  · intro r hr
    exact grossMwh_eq hr
  · intro day hday
    exact sum_shares day hday

/-- A quarter hour of nuclear generation, and of pumped storage that took in
more than it gave. -/
def storageQuarter : List Version :=
  [⟨stgRow (nuclear 1 100), none, true⟩,
    ⟨stgRow { nuclear 1 30 with productionType := "B10" }, none, true⟩,
    ⟨stgRow { nuclear 1 50 with productionType := "B10", direction := "consumption" }, none, true⟩]

/-- The quarter's total, and the one positive share. -/
theorem daily_energy_exact_storage :
    (∀ r ∈ exactMix storageQuarter, ∃ e : Int, r.energyMwh = some e ∧
        ∀ parts : List (List Version), parts.flatten.Perm (storageQuarter.filter r.key.covers) →
          (e : ℚ) / 10 ^ 6 = (parts.map fun part => (part.map Version.mwh).sum).sum) ∧
      Sql.sum (((exactMix storageQuarter).filter
          fun r => r.key.day = ("10YFR-RTE------C", 739854)).map MixRow.energyMwh)
        = energyOf ((periodGenerationNet storageQuarter).filter
          fun r => r.day = ("10YFR-RTE------C", 739854)) ∧
      (((exactMix storageQuarter).filter
          fun r => r.key.day = ("10YFR-RTE------C", 739854)).filterMap MixRow.shareOfGross).sum
        = 1 := by
  have hpublished : Published storageQuarter := by
    unfold Published
    decide +kernel
  rcases daily_energy_exact hpublished with ⟨-, henergy, htotal, -, hshares⟩
  exact ⟨henergy, htotal _, hshares _ (by decide +kernel)⟩

end Gridlens
