import Mathlib.Data.List.Infix
import Mathlib.Data.Nat.Cast.Order.Basic

/-!
# Pauses between calls

A caller makes calls and waits, a unit of time at a time. An answer may demand
a pause: no further call until so much has been waited. `Respected` says that
this holds of everything the caller did.

* `respected_concat_called`: a call needs every pause demanded so far to be
  `Over`.
* `Since.over`: what was waited after the last call is enough for the demands
  it covers.
* `Respected.append`: a series of calls, of which only the last one may demand.
-/

namespace Pauses

/-- A call, with the pause its answer demands, or a unit of time waited. -/
inductive Beat (τ : Type) where
  | called (demand : Option τ)
  | waited

/-- The unit of time is over. -/
def Beat.isWaited {τ : Type} : Beat τ → Bool
  | called _ => false
  | waited => true

/-- An entry is the last one, or lies before it. -/
theorem concat_eq_append_cons {α : Type} {l before after : List α} {x a : α} :
    l ++ [x] = before ++ a :: after ↔
      (l = before ∧ x = a ∧ after = []) ∨
        ∃ after', l = before ++ a :: after' ∧ after = after' ++ [x] := by
  constructor
  · intro heq
    rcases List.eq_nil_or_concat' after with rfl | ⟨after', y, rfl⟩
    · rcases List.append_inj' heq rfl with ⟨hl, hx⟩
      exact Or.inl ⟨hl, List.head_eq_of_cons_eq hx, rfl⟩
    · have hsplit : l ++ [x] = (before ++ a :: after') ++ [y] := by
        rw [heq, List.append_assoc, List.cons_append]
      rcases List.append_inj' hsplit rfl with ⟨hl, hx⟩
      exact Or.inr ⟨after', hl, by rw [List.head_eq_of_cons_eq hx]⟩
  · rintro (⟨rfl, rfl, rfl⟩ | ⟨after', rfl, rfl⟩)
    · rfl
    · rw [List.append_assoc, List.cons_append]

section Since

variable {τ : Type} {beats : List (Beat τ)} {n : Nat}

/-- So many units have been waited after every call. -/
def Since (n : Nat) (beats : List (Beat τ)) : Prop :=
  ∀ before demand between, beats = before ++ .called demand :: between →
    n ≤ between.countP Beat.isWaited

theorem since_zero : Since 0 beats := fun _ _ _ _ => Nat.zero_le _

/-- Another unit has been waited after every call. -/
theorem Since.concat_waited (h : Since n beats) : Since (n + 1) (beats ++ [.waited]) := by
  intro before demand between heq
  rcases concat_eq_append_cons.mp heq with ⟨-, hwaited, -⟩ | ⟨between', hbeats, rfl⟩
  · cases hwaited
  · rw [List.countP_append]
    exact Nat.add_le_add_right (h before demand between' hbeats) 1

end Since

section Respected

variable {τ : Type} [LE τ] [NatCast τ]

/-- No call comes before a pause demanded earlier is over. -/
def Respected (beats : List (Beat τ)) : Prop :=
  ∀ before r between demand, before ++ .called (some r) :: between ++ [.called demand] <+: beats →
    r ≤ (between.countP Beat.isWaited : τ)

/-- Every pause demanded so far is over. -/
def Over (beats : List (Beat τ)) : Prop :=
  ∀ before r between, beats = before ++ .called (some r) :: between →
    r ≤ (between.countP Beat.isWaited : τ)

variable {beats calls : List (Beat τ)}

theorem respected_nil : Respected ([] : List (Beat τ)) := by
  intro before r between demand hpre
  have hnil := List.prefix_nil.mp hpre
  simp at hnil

/-- Waiting breaks nothing. -/
theorem respected_concat_waited : Respected (beats ++ [.waited]) ↔ Respected beats := by
  constructor
  · intro h before r between demand hpre
    exact h before r between demand (hpre.trans (List.prefix_append _ _))
  · intro h before r between demand hpre
    rcases List.prefix_concat_iff.mp hpre with heq | hbefore
    · have hlast := (List.append_inj' heq rfl).2
      cases hlast
    · exact h before r between demand hbefore

/-- A call is to come after every pause. -/
theorem respected_concat_called {demand : Option τ} :
    Respected (beats ++ [.called demand]) ↔ Respected beats ∧ Over beats := by
  constructor
  · intro h
    refine ⟨fun before r between demand' hpre => ?_, fun before r between heq => ?_⟩
    · exact h before r between demand' (hpre.trans (List.prefix_append _ _))
    · refine h before r between demand ?_
      rw [heq]
  · intro ⟨h, hover⟩ before r between demand' hpre
    rcases List.prefix_concat_iff.mp hpre with heq | hbefore
    · exact hover before r between (List.append_inj' heq rfl).1.symm
    · exact h before r between demand' hbefore

/-- A call without a demand leaves the pauses over. -/
theorem Over.concat_called (h : Over beats) : Over (beats ++ [.called none]) := by
  intro before r between heq
  rcases concat_eq_append_cons.mp heq with ⟨-, hnone, -⟩ | ⟨between', hbeats, rfl⟩
  · cases hnone
  · rw [List.countP_append]
    exact h before r between' hbeats

/-- A series of calls, of which only the last one may demand a pause. -/
theorem Respected.append (h : Respected beats) (hover : Over beats)
    (hcalls : ∀ beat ∈ calls, ∃ demand, beat = .called demand)
    (hfree : ∀ beat ∈ calls.dropLast, beat = .called none) : Respected (beats ++ calls) := by
  rcases List.eq_nil_or_concat' calls with rfl | ⟨front, last, rfl⟩
  · rw [List.append_nil]
    exact h
  · rw [List.dropLast_concat] at hfree
    rcases hcalls last (by simp) with ⟨demand, rfl⟩
    rw [← List.append_assoc, respected_concat_called]
    clear hcalls
    -- the calls in front keep the pauses over
    induction front using List.reverseRecOn with
    | nil =>
        rw [List.append_nil]
        exact ⟨h, hover⟩
    | append_singleton front beat ih =>
        have hbeat : beat = .called none := hfree beat (by simp)
        rcases ih fun b hb => hfree b (List.mem_append_left _ hb) with ⟨hfront, hfrontOver⟩
        rw [hbeat, ← List.append_assoc]
        exact ⟨respected_concat_called.mpr ⟨hfront, hfrontOver⟩, hfrontOver.concat_called⟩

end Respected

/-- What was waited after every call is enough for demands up to it. -/
theorem Since.over {τ : Type} [AddMonoidWithOne τ] [PartialOrder τ] [AddLeftMono τ]
    [ZeroLEOneClass τ] {beats : List (Beat τ)} {n : Nat} (h : Since n beats)
    (hdemands : ∀ r, .called (some r) ∈ beats → r ≤ (n : τ)) : Over beats := by
  intro before r between heq
  have hmem : Beat.called (some r) ∈ beats := by
    rw [heq]
    exact List.mem_append_right before List.mem_cons_self
  calc r ≤ (n : τ) := hdemands r hmem
    _ ≤ _ := Nat.mono_cast (h before (some r) between heq)

end Pauses
