import Mathlib.Data.Set.Finite.Basic
import Mathlib.Data.Set.Finite.Lattice
import Mathlib.Data.Set.Finite.Lemmas

/-!
# Histories of one fact, read at an instant

A history is a set of versions, each carrying the instant it became known.
The version in force at `t` is the one with the greatest instant not above
`t`. Nothing here depends on how versions are stored, numbered or compared:
the module is about what adding a version does to the answers a history
gives.

Two histories *agree* on an attribute when at every instant they put the
same value of it in force. The results at the end say exactly when agreement
survives a new version that one history records and the other leaves out
(`agrees_insert_right_iff`), or that both record (`agrees_insert_both_iff`).
-/

namespace Bitemporal

variable {α : Type*} {β : Type*} {τ : Type*} [LinearOrder τ] {known : α → τ}
variable {H G N : Set α} {s v w : α} {t u : τ}

/-- No two versions became known at the same instant. -/
def Identified (known : α → τ) (H : Set α) : Prop :=
  ∀ v ∈ H, ∀ w ∈ H, known v = known w → v = w

/-- `v` is the newest version of `H` known by `t`. -/
def InForce (known : α → τ) (H : Set α) (t : τ) (v : α) : Prop :=
  v ∈ H ∧ known v ≤ t ∧ ∀ w ∈ H, known w ≤ t → known w ≤ known v

/-- `v` is the newest version of `H`. -/
def Newest (known : α → τ) (H : Set α) (v : α) : Prop :=
  v ∈ H ∧ ∀ w ∈ H, known w ≤ known v

omit [LinearOrder τ] in
theorem Identified.mono (hG : Identified known G) (h : H ⊆ G) : Identified known H :=
  fun v hv w hw => hG v (h hv) w (h hw)

/-- An instant has at most one version in force. -/
theorem InForce.unique (hH : Identified known H) (hv : InForce known H t v)
    (hw : InForce known H t w) : v = w :=
  hH v hv.1 w hw.1 (le_antisymm (hw.2.2 v hv.1 hv.2.1) (hv.2.2 w hw.1 hw.2.1))

/-- A finite history with a version known by `t` has one in force at `t`. -/
theorem exists_inForce (hfin : H.Finite) (hw : w ∈ H) (hwt : known w ≤ t) :
    ∃ v, InForce known H t v := by
  have hfin' : {v | v ∈ H ∧ known v ≤ t}.Finite := hfin.subset fun v hv => hv.1
  rcases Set.exists_max_image _ known hfin' ⟨w, hw, hwt⟩ with ⟨v, hv, hmax⟩
  exact ⟨v, hv.1, hv.2, fun z hz hzt => hmax z ⟨hz, hzt⟩⟩

/-- Read off an interval: `v` is in force from its own instant up to the next
one in the history. -/
theorem inForce_iff_forall_lt :
    InForce known H t v ↔
      v ∈ H ∧ known v ≤ t ∧ ∀ w ∈ H, known v < known w → t < known w := by
  constructor
  · intro h
    refine ⟨h.1, h.2.1, fun w hw hlt => ?_⟩
    by_contra hwt
    exact absurd (h.2.2 w hw (not_lt.mp hwt)) (not_le.mpr hlt)
  · intro h
    refine ⟨h.1, h.2.1, fun w hw hwt => ?_⟩
    by_contra hlt
    exact absurd (h.2.2 w hw (not_le.mp hlt)) (not_lt.mpr hwt)

/-- The version in force at `t` is the newest of those known by `t`. -/
theorem inForce_iff_newest : InForce known H t v ↔ Newest known {w | w ∈ H ∧ known w ≤ t} v := by
  constructor
  · intro h
    exact ⟨⟨h.1, h.2.1⟩, fun w hw => h.2.2 w hw.1 hw.2⟩
  · intro h
    exact ⟨h.1.1, h.1.2, fun w hw hwt => h.2 w ⟨hw, hwt⟩⟩

/-- The newest version is in force at every instant from its own on. -/
theorem Newest.inForce (h : Newest known H v) (ht : known v ≤ t) : InForce known H t v :=
  ⟨h.1, ht, fun w hw _ => h.2 w hw⟩

/-- Nothing changes between two instants that no version separates. -/
theorem inForce_congr_time (htu : t ≤ u) (hno : ∀ w ∈ H, t < known w → u < known w) :
    InForce known H t v ↔ InForce known H u v := by
  have hle : ∀ w ∈ H, (known w ≤ t ↔ known w ≤ u) := by
    intro w hw
    constructor
    · intro h
      exact h.trans htu
    · intro h
      by_contra hlt
      exact absurd h (not_le.mpr (hno w hw (not_le.mp hlt)))
  constructor
  · intro h
    exact ⟨h.1, (hle v h.1).mp h.2.1, fun w hw hwu => h.2.2 w hw ((hle w hw).mpr hwu)⟩
  · intro h
    exact ⟨h.1, (hle v h.1).mpr h.2.1, fun w hw hwt => h.2.2 w hw ((hle w hw).mp hwt)⟩

/-! ## Adding versions -/

/-- Versions that became known after `t` do not change the answer at `t`. -/
theorem inForce_union_of_lt (hN : ∀ w ∈ N, t < known w) :
    InForce known (H ∪ N) t v ↔ InForce known H t v := by
  constructor
  · intro h
    have hv : v ∈ H := by
      rcases h.1 with hv | hv
      · exact hv
      · exact absurd h.2.1 (not_le.mpr (hN v hv))
    exact ⟨hv, h.2.1, fun w hw => h.2.2 w (Or.inl hw)⟩
  · intro h
    refine ⟨Or.inl h.1, h.2.1, fun w hw hwt => ?_⟩
    rcases hw with hw | hw
    · exact h.2.2 w hw hwt
    · exact absurd hwt (not_le.mpr (hN w hw))

/-- A version known by `t` that nothing in the history follows up to `t` is in
force at `t`, and alone. -/
theorem inForce_insert_of_latest (hst : known s ≤ t) (hlast : ∀ w ∈ H, known w ≤ t → known w < known s) :
    InForce known (insert s H) t v ↔ v = s := by
  constructor
  · intro h
    rcases h.1 with hv | hv
    · exact hv
    · exact absurd (h.2.2 s (Set.mem_insert s H) hst) (not_le.mpr (hlast v hv h.2.1))
  · intro h
    subst h
    refine ⟨Set.mem_insert v H, hst, fun w hw hwt => ?_⟩
    rcases hw with hw | hw
    · rw [hw]
    · exact (hlast w hw hwt).le

/-- A version that another one overtakes by `t` is not seen at `t`. -/
theorem inForce_insert_of_overtaken (hw : w ∈ H) (hsw : known s < known w) (hwt : known w ≤ t) :
    InForce known (insert s H) t v ↔ InForce known H t v := by
  constructor
  · intro h
    have hv : v ∈ H := by
      rcases h.1 with hv | hv
      · rw [hv] at h
        exact absurd (h.2.2 w (Or.inr hw) hwt) (not_le.mpr hsw)
      · exact hv
    exact ⟨hv, h.2.1, fun z hz => h.2.2 z (Or.inr hz)⟩
  · intro h
    refine ⟨Or.inr h.1, h.2.1, fun z hz hzt => ?_⟩
    rcases hz with hz | hz
    · rw [hz]
      exact hsw.le.trans (h.2.2 w hw hwt)
    · exact h.2.2 z hz hzt

/-- A version that became known after `t` is not seen at `t`. -/
theorem inForce_insert_of_lt (hts : t < known s) :
    InForce known (insert s H) t v ↔ InForce known H t v := by
  rw [Set.insert_eq, Set.union_comm]
  apply inForce_union_of_lt
  intro w hw
  rw [Set.mem_singleton_iff.mp hw]
  exact hts

/-! ## Agreement -/

/-- At every instant, `H` puts a value of `attr` in force exactly when `G`
does. -/
def Agrees (known : α → τ) (attr : α → β) (H G : Set α) : Prop :=
  ∀ t b, (∃ v, InForce known H t v ∧ attr v = b) ↔ ∃ w, InForce known G t w ∧ attr w = b

section Agreement

variable {attr : α → β}

theorem Agrees.refl (known : α → τ) (attr : α → β) (H : Set α) : Agrees known attr H H :=
  fun _ _ => Iff.rfl

/-- What one history has in force, the other has under the same attribute. -/
theorem Agrees.attr_eq (h : Agrees known attr H G) (hG : Identified known G)
    (hv : InForce known H t v) (hw : InForce known G t w) : attr v = attr w := by
  rcases (h t (attr v)).mp ⟨v, hv, rfl⟩ with ⟨w', hw', hattr⟩
  rw [hw'.unique hG hw] at hattr
  exact hattr.symm

/-- Agreement before an instant that every version precedes is agreement. -/
theorem agrees_of_forall_lt (hfin : G.Finite) (hHG : H ⊆ G) (hlast : ∀ w ∈ G, known w < u)
    (h : ∀ t < u, ∀ b, (∃ v, InForce known H t v ∧ attr v = b) ↔
      ∃ w, InForce known G t w ∧ attr w = b) : Agrees known attr H G := by
  intro t b
  rcases lt_or_ge t u with htu | hut
  · exact h t htu b
  by_cases hempty : G = ∅
  · -- two empty histories answer with nothing
    have hH : ∀ v, ¬ InForce known H t v := fun v hv => by
      have hvG := hHG hv.1
      rw [hempty] at hvG
      exact hvG
    have hG : ∀ v, ¬ InForce known G t v := fun v hv => by
      have hvG := hv.1
      rw [hempty] at hvG
      exact hvG
    simp only [hH, hG, false_and, exists_false]
  · -- from the newest version on nothing changes
    rcases Set.exists_max_image G known hfin (Set.nonempty_iff_ne_empty.mpr hempty) with ⟨m, hm, hmax⟩
    have hmt : known m ≤ t := (hlast m hm).le.trans hut
    have hno : ∀ w ∈ G, known m < known w → t < known w := fun w hw hlt =>
      absurd hlt (not_lt.mpr (hmax w hw))
    have hH : ∀ v, InForce known H (known m) v ↔ InForce known H t v := fun v =>
      inForce_congr_time hmt fun w hw => hno w (hHG hw)
    have hG : ∀ v, InForce known G (known m) v ↔ InForce known G t v := fun v =>
      inForce_congr_time hmt hno
    have hm' := h (known m) (hlast m hm) b
    simp only [hH, hG] at hm'
    exact hm'

/-- `G` records a version `s` that `H` leaves out: they still agree exactly
when `H` already answers with the attribute of `s` at the instant of `s`. -/
theorem agrees_insert_right_iff (hHG : H ⊆ G) (hG : Identified known G)
    (hs : ∀ w ∈ G, known w ≠ known s) (h : Agrees known attr H G) :
    Agrees known attr H (insert s G) ↔ ∃ v, InForce known H (known s) v ∧ attr v = attr s := by
  have hlatest : ∀ t, known s ≤ t → (∀ w ∈ G, known w ≤ t → known w < known s) →
      ∀ v, InForce known (insert s G) t v ↔ v = s :=
    fun t hst hlast v => inForce_insert_of_latest hst hlast
  constructor
  · intro h'
    -- at its own instant `s` is what `insert s G` answers with
    have hat : ∀ v, InForce known (insert s G) (known s) v ↔ v = s :=
      hlatest _ le_rfl fun w hw hwt => lt_of_le_of_ne hwt (hs w hw)
    exact (h' (known s) (attr s)).mpr ⟨s, (hat s).mpr rfl, rfl⟩
  · intro hat t b
    rcases lt_or_ge t (known s) with hts | hst
    · rw [h t b]
      simp only [inForce_insert_of_lt hts]
    by_cases hover : ∃ w ∈ G, known s < known w ∧ known w ≤ t
    · rcases hover with ⟨w, hw, hsw, hwt⟩
      rw [h t b]
      simp only [inForce_insert_of_overtaken hw hsw hwt]
    · -- nothing happens between `s` and `t`, so both answer at `t` as at `s`
      push Not at hover
      have hlast : ∀ w ∈ G, known w ≤ t → known w < known s := by
        intro w hw hwt
        refine lt_of_le_of_ne ?_ (hs w hw)
        by_contra hlt
        exact absurd hwt (not_le.mpr (hover w hw (not_le.mp hlt)))
      simp only [hlatest t hst hlast, exists_eq_left]
      have hsame : ∀ v, InForce known H (known s) v ↔ InForce known H t v := fun v =>
        inForce_congr_time hst fun w hw hsw => hover w (hHG hw) hsw
      rcases hat with ⟨v, hv, hattr⟩
      have hvt := (hsame v).mp hv
      constructor
      · intro hex
        rcases hex with ⟨v', hv', hb⟩
        rw [← hb, ← hattr, hvt.unique (hG.mono hHG) hv']
      · intro hb
        exact ⟨v, hvt, hattr.trans hb⟩

/-- Both histories record `s`: they still agree exactly when every version `G`
holds after `s`, and `H` does not separate from `s`, has the attribute of
`s`. -/
theorem agrees_insert_both_iff (hfin : G.Finite) (hHG : H ⊆ G) (hG : Identified known G)
    (hs : ∀ w ∈ G, known w ≠ known s) (h : Agrees known attr H G) :
    Agrees known attr (insert s H) (insert s G) ↔
      ∀ o ∈ G, known s < known o → (∀ v ∈ H, known s < known v → known o < known v) →
        attr o = attr s := by
  constructor
  · intro h' o ho hso hsep
    -- at the instant of `o`, `G` answers with `o` and `H` with `s`
    have hGo : InForce known (insert s G) (known o) o := by
      rw [inForce_insert_of_overtaken ho hso le_rfl]
      exact ⟨ho, le_rfl, fun w _ hw => hw⟩
    have hHs : ∀ v, InForce known (insert s H) (known o) v ↔ v = s := by
      intro v
      apply inForce_insert_of_latest hso.le
      intro w hw hwo
      refine lt_of_le_of_ne ?_ (hs w (hHG hw))
      by_contra hlt
      exact absurd hwo (not_le.mpr (hsep w hw (not_le.mp hlt)))
    rcases (h' (known o) (attr o)).mpr ⟨o, hGo, rfl⟩ with ⟨v, hv, hattr⟩
    rw [(hHs v).mp hv] at hattr
    exact hattr.symm
  · intro hcond t b
    rcases lt_or_ge t (known s) with hts | hst
    · simp only [inForce_insert_of_lt hts]
      exact h t b
    have hlatest : ∀ K : Set α, K ⊆ G → (¬ ∃ w ∈ K, known s < known w ∧ known w ≤ t) →
        ∀ v, InForce known (insert s K) t v ↔ v = s := by
      intro K hK hno v
      apply inForce_insert_of_latest hst
      intro w hw hwt
      refine lt_of_le_of_ne ?_ (hs w (hK hw))
      by_contra hlt
      exact hno ⟨w, hw, not_le.mp hlt, hwt⟩
    by_cases hH : ∃ w ∈ H, known s < known w ∧ known w ≤ t
    · rcases hH with ⟨w, hw, hsw, hwt⟩
      simp only [inForce_insert_of_overtaken hw hsw hwt,
        inForce_insert_of_overtaken (hHG hw) hsw hwt]
      exact h t b
    by_cases hGt : ∃ w ∈ G, known s < known w ∧ known w ≤ t
    · -- only `G` holds a version after `s`: the condition makes it repeat `s`
      rcases hGt with ⟨w, hw, hsw, hwt⟩
      rcases exists_inForce hfin hw hwt with ⟨o, ho⟩
      have hso : known s < known o := lt_of_lt_of_le hsw (ho.2.2 w hw hwt)
      have hattr : attr o = attr s := by
        apply hcond o ho.1 hso
        intro v hv hsv
        by_contra hvo
        exact hH ⟨v, hv, hsv, (not_lt.mp hvo).trans ho.2.1⟩
      simp only [inForce_insert_of_overtaken hw hsw hwt, hlatest H hHG hH, exists_eq_left]
      constructor
      · intro hb
        exact ⟨o, ho, hattr.trans hb⟩
      · intro hex
        rcases hex with ⟨o', ho', hb⟩
        rw [← hb, ← hattr, ho.unique hG ho']
    · simp only [hlatest H hHG hH, hlatest G le_rfl hGt]

end Agreement

end Bitemporal
