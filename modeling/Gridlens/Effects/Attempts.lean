import Mathlib.Data.List.Basic
import Mathlib.Order.Basic

/-!
# Attempts and the pauses between them

A call that may be tried again leaves marks: what it does ahead of a request,
the request, the pause after it. `Spaced` says that so many requests were sent,
each one prepared, with one pause between two of them and nothing after the
last one; how long a pause may be depends on the attempt it follows.

* `Spaced.count` counts the requests.
* `Spaced.allowed` is about every pause there is.
-/

namespace Attempts

inductive Mark (δ : Type) where
  | prepared
  | requested (attempt : Nat)
  | paused (length : δ)

def Mark.isRequest {δ : Type} : Mark δ → Bool
  | requested _ => true
  | _ => false

variable {δ : Type} {Allowed : Nat → δ → Prop}

/-- So many requests, one after another. -/
inductive Spaced (Allowed : Nat → δ → Prop) : Nat → List (Mark δ) → Prop where
  | first : Spaced Allowed 1 [.prepared, .requested 1]
  | next {n : Nat} {marks : List (Mark δ)} {length : δ} (before : Spaced Allowed n marks)
      (allowed : Allowed n length) :
      Spaced Allowed (n + 1) (marks ++ [.paused length, .prepared, .requested (n + 1)])

variable {n : Nat} {marks front back : List (Mark δ)} {length : δ}

theorem Spaced.count (h : Spaced Allowed n marks) : marks.countP Mark.isRequest = n := by
  induction h with
  | first => rfl
  | next _ _ ih =>
      rw [List.countP_append, ih]
      rfl

/-- Each pause is one that is allowed after the requests before it. -/
theorem Spaced.allowed (h : Spaced Allowed n marks)
    (heq : marks = front ++ .paused length :: back) : Allowed (front.countP Mark.isRequest) length := by
  induction h generalizing back with
  | first =>
      have hmem : Mark.paused length ∈ [Mark.prepared, .requested 1] := by
        rw [heq]
        exact List.mem_append_right front List.mem_cons_self
      simp at hmem
  | @next n marks last before hlast ih =>
      rcases List.append_eq_append_iff.mp heq with ⟨gap, rfl, hover⟩ | ⟨gap, hmarks, hover⟩
      · rcases gap with _ | ⟨_, gap⟩
        · -- it is the last pause
          cases hover
          rw [List.append_nil, before.count]
          exact hlast
        · have hmem : Mark.paused length ∈ [Mark.prepared, .requested (n + 1)] := by
            rw [(List.cons.inj hover).2]
            exact List.mem_append_right gap List.mem_cons_self
          simp at hmem
      · rcases gap with _ | ⟨_, gap⟩
        · cases hover
          rw [List.append_nil] at hmarks
          rw [← hmarks, before.count]
          exact hlast
        · cases hover
          exact ih hmarks

end Attempts
