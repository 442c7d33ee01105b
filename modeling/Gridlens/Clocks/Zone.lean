import Mathlib.Algebra.Order.Group.Defs
import Mathlib.Algebra.Order.Group.Unbundled.Basic
import Mathlib.Data.List.MinMax
import Mathlib.Order.Bounds.Basic

/-!
# Zones

A zone is an offset and the transitions that change it, of either sign, over
any ordered group of instants. An instant shows the reading its offset brings
it to; a reading is shown by finitely many instants, the first and the last of
which are the ones a `fold` stands for (`isLeast_first`, `isGreatest_last`).
One that no instant shows is skipped by a transition (`shown_or_skipped`).
-/

namespace Clocks

variable {α : Type} [AddCommGroup α] [LinearOrder α]

/-- An offset, and from each transition on another one. -/
structure Zone (α : Type) [LinearOrder α] where
  initial : α
  transitions : List (α × α)
  sorted : (transitions.map Prod.fst).Pairwise (· < ·)

/-- The offset at an instant, from the one before the transitions. -/
def offsetFrom (before : α) : List (α × α) → α → α
  | [], _ => before
  | (at_, after) :: transitions, u => if u < at_ then before else offsetFrom after transitions u

/-- The transition that skips a reading: the offsets before and after it. -/
def skippedFrom (before : α) : List (α × α) → α → Option (α × α)
  | [], _ => none
  | (at_, after) :: transitions, wall =>
      if at_ + before ≤ wall ∧ wall < at_ + after then some (before, after)
      else skippedFrom after transitions wall

namespace Zone

variable (zone : Zone α)

def offsetAt (u : α) : α := offsetFrom zone.initial zone.transitions u

def offsets : List α := zone.initial :: zone.transitions.map Prod.snd

/-- The instants that show a reading. -/
def instants (wall : α) : List α :=
  (zone.offsets.map fun offset => wall - offset).filter fun u => u + zone.offsetAt u = wall

/-- The offset of a reading: before `fold` for the first instant that shows it,
after for the last; of one that is skipped, that of either side. -/
def utcoffset (wall : α) (fold : Bool) : α :=
  match (if fold then (zone.instants wall).max? else (zone.instants wall).min?) with
  | some u => wall - u
  | none =>
      match skippedFrom zone.initial zone.transitions wall with
      | some (before, after) => if fold then after else before
      | none => zone.initial

end Zone

section Instants

variable {zone : Zone α} {u wall : α}

omit [AddCommGroup α] in
theorem offsetFrom_mem (before : α) (transitions : List (α × α)) (u : α) :
    offsetFrom before transitions u ∈ before :: transitions.map Prod.snd := by
  induction transitions generalizing before with
  | nil => exact List.mem_singleton_self before
  | cons transition transitions ih =>
      rw [offsetFrom, List.map_cons]
      split_ifs
      · exact List.mem_cons_self
      · exact List.mem_cons_of_mem before (ih transition.2)

theorem mem_instants : u ∈ zone.instants wall ↔ u + zone.offsetAt u = wall := by
  rw [Zone.instants, List.mem_filter, decide_eq_true_eq, and_iff_right_iff_imp]
  intro hshows
  refine List.mem_map.mpr ⟨zone.offsetAt u, offsetFrom_mem _ _ u, ?_⟩
  rw [← hshows, add_sub_cancel_right]

/-- Before `fold` the offset is that of the first instant. -/
theorem isLeast_first (h : u + zone.offsetAt u = wall) :
    IsLeast { v | v + zone.offsetAt v = wall } (wall - zone.utcoffset wall false) := by
  unfold Zone.utcoffset
  cases hmin : (zone.instants wall).min? with
  | none =>
      rw [List.min?_eq_none_iff] at hmin
      have hmem := mem_instants.mpr h
      rw [hmin] at hmem
      cases hmem
  | some first =>
      rcases List.min?_eq_some_iff.mp hmin with ⟨hmem, hle⟩
      simp only [Bool.false_eq_true, if_false, sub_sub_cancel]
      exact ⟨mem_instants.mp hmem, fun v hv => hle v (mem_instants.mpr hv)⟩

theorem isGreatest_last (h : u + zone.offsetAt u = wall) :
    IsGreatest { v | v + zone.offsetAt v = wall } (wall - zone.utcoffset wall true) := by
  unfold Zone.utcoffset
  cases hmax : (zone.instants wall).max? with
  | none =>
      rw [List.max?_eq_none_iff] at hmax
      have hmem := mem_instants.mpr h
      rw [hmax] at hmem
      cases hmem
  | some last =>
      rcases List.max?_eq_some_iff.mp hmax with ⟨hmem, hle⟩
      simp only [if_true, sub_sub_cancel]
      exact ⟨mem_instants.mp hmem, fun v hv => hle v (mem_instants.mpr hv)⟩

/-- From an instant on, a reading its offset has come to is shown or skipped. -/
theorem shown_or_skipped_from [IsOrderedAddMonoid α] {before start : α}
    {transitions : List (α × α)} (hsorted : (start :: transitions.map Prod.fst).Pairwise (· ≤ ·))
    (h : start ≤ wall - before) :
    (∃ u, start ≤ u ∧ u + offsetFrom before transitions u = wall) ∨
      ∃ skip, skippedFrom before transitions wall = some skip := by
  induction transitions generalizing before start with
  | nil => exact Or.inl ⟨wall - before, h, sub_add_cancel wall before⟩
  | cons transition transitions ih =>
      rcases transition with ⟨at_, after⟩
      rw [List.map_cons, List.pairwise_cons] at hsorted
      have hstart : start ≤ at_ := hsorted.1 at_ List.mem_cons_self
      rcases lt_or_ge (wall - before) at_ with hbefore | hreached
      · refine Or.inl ⟨wall - before, h, ?_⟩
        rw [offsetFrom, if_pos hbefore, sub_add_cancel]
      · -- the transition is past, and its reading is here or further on
        have hbegun : at_ + before ≤ wall := le_sub_iff_add_le.mp hreached
        rcases lt_or_ge wall (at_ + after) with hskips | hpast
        · right
          rw [skippedFrom, if_pos ⟨hbegun, hskips⟩]
          exact ⟨_, rfl⟩
        · rcases ih hsorted.2 (le_sub_iff_add_le.mpr hpast) with ⟨u, hu, hshows⟩ | hskipped
          · refine Or.inl ⟨u, hstart.trans hu, ?_⟩
            rw [offsetFrom, if_neg (not_lt.mpr hu)]
            exact hshows
          · right
            rw [skippedFrom, if_neg fun hboth => absurd hboth.2 (not_lt.mpr hpast)]
            exact hskipped

/-- A reading no instant shows is skipped by a transition. -/
theorem shown_or_skipped [IsOrderedAddMonoid α] (zone : Zone α) (wall : α) :
    (∃ u, u + zone.offsetAt u = wall) ∨
      ∃ skip, skippedFrom zone.initial zone.transitions wall = some skip := by
  have hle : (zone.transitions.map Prod.fst).Pairwise (· ≤ ·) := zone.sorted.imp le_of_lt
  have hstart : ∃ start, start ≤ wall - zone.initial ∧
      (start :: zone.transitions.map Prod.fst).Pairwise (· ≤ ·) := by
    cases hfirst : zone.transitions.map Prod.fst with
    | nil => exact ⟨wall - zone.initial, le_refl _, List.pairwise_singleton _ _⟩
    | cons at_ rest =>
        rw [hfirst] at hle
        refine ⟨min (wall - zone.initial) at_, min_le_left _ _, List.pairwise_cons.mpr ⟨?_, hle⟩⟩
        intro t ht
        rcases List.mem_cons.mp ht with rfl | ht
        · exact min_le_right _ _
        · exact (min_le_right _ _).trans ((List.pairwise_cons.mp hle).1 t ht)
  rcases hstart with ⟨start, hreached, hsorted⟩
  rcases shown_or_skipped_from hsorted hreached with ⟨u, -, hshows⟩ | hskipped
  · exact Or.inl ⟨u, hshows⟩
  · exact Or.inr hskipped

end Instants

end Clocks
