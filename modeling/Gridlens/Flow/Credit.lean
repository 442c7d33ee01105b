import Mathlib.Algebra.Order.Field.Basic
import Mathlib.Data.List.Chain
import Mathlib.Tactic.Linarith
import Mathlib.Tactic.Ring

/-!
# Events paid from a credit that accrues

A credit accrues at some rate and each event takes one unit of it. Where the
credit left after an event is never negative and never above a bound, a window
holds no more events than the bound, one more, and what accrues meanwhile
(`count_le`).
-/

namespace Flow

variable {α : Type} [Field α] [LinearOrder α] [IsStrictOrderedRing α]

/-- When an event happened, and the credit left after it was paid for. -/
structure Paid (α : Type) where
  time : α
  credit : α

/-- The later event was paid from what the earlier one left and what accrued
between them. -/
def Pays (rate : α) (p q : Paid α) : Prop :=
  p.time ≤ q.time ∧ q.credit ≤ p.credit + rate * (q.time - p.time) - 1

variable {rate most : α}

/-- Leaving out an event in between only leaves credit over. -/
theorem Pays.trans {p q r : Paid α} (hpq : Pays rate p q) (hqr : Pays rate q r) :
    Pays rate p r := by
  refine ⟨hpq.1.trans hqr.1, ?_⟩
  have hsum : rate * (q.time - p.time) + rate * (r.time - q.time) = rate * (r.time - p.time) := by
    ring
  linarith [hpq.2, hqr.2]

instance : IsTrans (Paid α) (Pays rate) := ⟨fun _ _ _ => Pays.trans⟩

/-- What a run of events took, against what it had. -/
theorem length_le_of_chain {l : List (Paid α)} : ∀ {p : Paid α}, (p :: l).IsChain (Pays rate) →
    (∀ q ∈ p :: l, 0 ≤ q.credit) → ∃ q ∈ p :: l, p.time ≤ q.time ∧
      (l.length : α) ≤ p.credit + rate * (q.time - p.time) - q.credit := by
  induction l with
  | nil =>
      intro p _ _
      refine ⟨p, List.mem_singleton_self p, le_refl _, ?_⟩
      simp
  | cons p' l ih =>
      intro p hchain hcredit
      rw [List.isChain_cons_cons] at hchain
      obtain ⟨hstep, hrest⟩ := hchain
      obtain ⟨q, hq, htime, hlength⟩ :=
        ih hrest fun r hr => hcredit r (List.mem_cons_of_mem p hr)
      refine ⟨q, List.mem_cons_of_mem p hq, hstep.1.trans htime, ?_⟩
      have hsum : rate * (p'.time - p.time) + rate * (q.time - p'.time) =
          rate * (q.time - p.time) := by ring
      rw [List.length_cons, Nat.cast_add, Nat.cast_one]
      linarith [hstep.2]

/-- How many events a window holds. -/
theorem count_le {l : List (Paid α)} (hrate : 0 ≤ rate) (hchain : l.IsChain (Pays rate))
    (hcredit : ∀ p ∈ l, 0 ≤ p.credit ∧ p.credit ≤ most) (hmost : 0 ≤ most) (start : α) {T : α}
    (hT : 0 ≤ T) :
    ((l.filter fun p => start ≤ p.time ∧ p.time ≤ start + T).length : α) ≤
      most + 1 + rate * T := by
  have hwindow : ∀ p ∈ l.filter fun p => start ≤ p.time ∧ p.time ≤ start + T,
      p ∈ l ∧ start ≤ p.time ∧ p.time ≤ start + T := by
    intro p hp
    simpa using hp
  -- the events of the window still pay for each other
  have hpairs := (List.isChain_iff_pairwise.mp hchain).sublist
    (List.filter_sublist (p := fun p => start ≤ p.time ∧ p.time ≤ start + T))
  generalize l.filter (fun p => start ≤ p.time ∧ p.time ≤ start + T) = held at hwindow hpairs ⊢
  cases held with
  | nil =>
      have haccrued : 0 ≤ rate * T := mul_nonneg hrate hT
      simp only [List.length_nil, Nat.cast_zero]
      linarith
  | cons p held =>
      obtain ⟨q, hq, -, hlength⟩ := length_le_of_chain hpairs.isChain
        fun r hr => (hcredit r (hwindow r hr).1).1
      have hp := hwindow p List.mem_cons_self
      have hspan : rate * (q.time - p.time) ≤ rate * T :=
        mul_le_mul_of_nonneg_left (by linarith [hp.2.1, (hwindow q hq).2.2]) hrate
      rw [List.length_cons, Nat.cast_add, Nat.cast_one]
      linarith [(hcredit p hp.1).2, (hcredit q (hwindow q hq).1).1]

end Flow
