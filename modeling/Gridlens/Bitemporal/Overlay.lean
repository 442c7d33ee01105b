import Mathlib.Data.Option.Basic

/-!
# The newest version of each key, under updates

What is newest of each key is a partial function from keys to versions, and an
update puts its own version in the place of each key it has one for. A
symmetric relation between the versions of any two keys survives the update
exactly when the versions that came are related to those that stayed
(`pairwiseHeld_overlay_iff`).
-/

namespace Bitemporal

variable {κ : Type*} {α : Type*}

/-- What is newest after an update. -/
def overlay (update held : κ → Option α) : κ → Option α := fun k => (update k).or (held k)

/-- The versions of any two keys are related. -/
def PairwiseHeld (R : α → α → Prop) (held : κ → Option α) : Prop :=
  ∀ k l, k ≠ l → ∀ a, held k = some a → ∀ b, held l = some b → R a b

section Overlay

variable {R : α → α → Prop} {update held : κ → Option α} {k l : κ} {a b : α}

theorem overlay_eq_some_iff :
    overlay update held k = some a ↔ update k = some a ∨ update k = none ∧ held k = some a := by
  unfold overlay
  rw [Option.or_eq_some_iff]

theorem pairwiseHeld_overlay_iff (hsymm : ∀ a b, R a b → R b a) (hheld : PairwiseHeld R held)
    (hupdate : PairwiseHeld R update) :
    PairwiseHeld R (overlay update held) ↔
      ∀ k l, update l = none → ∀ a, update k = some a → ∀ b, held l = some b → R a b := by
  constructor
  · intro h k l hl a ha b hb
    have hne : k ≠ l := by
      rintro rfl
      rw [hl] at ha
      cases ha
    exact h k l hne a (overlay_eq_some_iff.mpr (Or.inl ha)) b
      (overlay_eq_some_iff.mpr (Or.inr ⟨hl, hb⟩))
  · intro h k l hne a ha b hb
    rcases overlay_eq_some_iff.mp ha with ha | ⟨hk, ha⟩
    · rcases overlay_eq_some_iff.mp hb with hb | ⟨hl, hb⟩
      · exact hupdate k l hne a ha b hb
      · exact h k l hl a ha b hb
    · rcases overlay_eq_some_iff.mp hb with hb | ⟨hl, hb⟩
      · exact hsymm b a (h l k hk b hb a ha)
      · exact hheld k l hne a ha b hb

end Overlay

end Bitemporal
