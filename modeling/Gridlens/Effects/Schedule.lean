import Mathlib.Data.List.Basic
import Mathlib.Data.List.Infix

/-!
# Tasks that run once each, as their dependencies allow

A schedule runs tasks one at a time, none twice and each after the tasks it
refers to, on a state that outside events may change between any two of them.
Which order, and what happens in between, is left to the list of events.

* `run_invariant` and `run_rel` carry an invariant and a preorder along a run.
* `run_count` counts the outside events by what each adds.
* `read_at` is about what only one task writes: at the end of the run it is
  what that task left, in the state the events before it led to.
-/

namespace Schedule

/-- What happens next: a task runs, or something outside. -/
inductive Occurrence (N ε : Type) where
  | ran (task : N)
  | outside (event : ε)
deriving DecidableEq, Repr

/-- The tasks, what each refers to and does, and what the outside may do. -/
structure System (N ε σ : Type) where
  refs : N → List N
  execute : N → σ → σ
  interfere : σ → ε → Option σ

/-- A state, and the tasks that have run. -/
structure Progress (N σ : Type) where
  state : σ
  done : List N

namespace Occurrence

variable {N ε : Type} [DecidableEq N]

/-- The event is the run of this task. -/
def runs (n : N) : Occurrence N ε → Bool
  | ran m => m = n
  | outside _ => false

def isOutside : Occurrence N ε → Bool
  | ran _ => false
  | outside _ => true

end Occurrence

section Run

variable {N ε σ β : Type} [DecidableEq N] (S : System N ε σ)

def step (p : Progress N σ) : Occurrence N ε → Option (Progress N σ)
  | .ran n =>
      if n ∉ p.done ∧ ∀ m ∈ S.refs n, m ∈ p.done then some ⟨S.execute n p.state, n :: p.done⟩
      else none
  | .outside e => (S.interfere p.state e).map fun s => ⟨s, p.done⟩

/-- The events, one after another, where each of them is possible. -/
def run (p : Progress N σ) (es : List (Occurrence N ε)) : Option (Progress N σ) :=
  es.foldlM (step S) p

/-- The events before a task runs. -/
def before (n : N) (es : List (Occurrence N ε)) : List (Occurrence N ε) := es.takeWhile fun e => !e.runs n

variable {S} {p p' : Progress N σ} {e : Occurrence N ε} {es : List (Occurrence N ε)} {n : N}

theorem step_ran : step S p (.ran n) = some p' ↔
    n ∉ p.done ∧ (∀ m ∈ S.refs n, m ∈ p.done) ∧ p' = ⟨S.execute n p.state, n :: p.done⟩ := by
  simp only [step]
  split
  · rename_i hready
    rw [Option.some.injEq, eq_comm]
    exact ⟨fun heq => ⟨hready.1, hready.2, heq⟩, fun h => h.2.2⟩
  · rename_i hready
    exact ⟨fun heq => (nomatch heq), fun h => absurd ⟨h.1, h.2.1⟩ hready⟩

theorem step_outside {event : ε} : step S p (.outside event) = some p' ↔
    ∃ s, S.interfere p.state event = some s ∧ p' = ⟨s, p.done⟩ := by
  simp only [step, Option.map_eq_some_iff]
  exact exists_congr fun s => and_congr_right fun _ => eq_comm

theorem run_cons : run S p (e :: es) = some p' ↔
    ∃ q, step S p e = some q ∧ run S q es = some p' := by
  unfold run
  rw [List.foldlM_cons]
  exact Option.bind_eq_some_iff

/-- What every event keeps holds at the end. -/
theorem run_invariant {I : Progress N σ → Prop}
    (hI : ∀ p e p', step S p e = some p' → I p → I p') (hrun : run S p es = some p')
    (hp : I p) : I p' := by
  induction es generalizing p with
  | nil => exact Option.some.inj hrun ▸ hp
  | cons e es ih =>
      obtain ⟨q, hstep, hrest⟩ := run_cons.mp hrun
      exact ih hrest (hI p e q hstep hp)

/-- The end is related to the start, where every event relates its two states. -/
theorem run_rel {R : σ → σ → Prop} (hrefl : ∀ s, R s s) (htrans : ∀ {s t u}, R s t → R t u → R s u)
    (hexecute : ∀ n s, R s (S.execute n s))
    (hinterfere : ∀ s e s', S.interfere s e = some s' → R s s')
    (hrun : run S p es = some p') : R p.state p'.state := by
  refine run_invariant (I := fun q => R p.state q.state) ?_ hrun (hrefl p.state)
  intro q e q' hstep hq
  cases e with
  | ran n =>
      obtain ⟨-, -, rfl⟩ := step_ran.mp hstep
      exact htrans hq (hexecute n q.state)
  | outside event =>
      obtain ⟨s, hs, rfl⟩ := step_outside.mp hstep
      exact htrans hq (hinterfere q.state event s hs)

/-- What tasks keep and every outside event raises by one counts those events. -/
theorem run_count {g : σ → Nat} (hexecute : ∀ n s, g (S.execute n s) = g s)
    (hinterfere : ∀ s e s', S.interfere s e = some s' → g s' = g s + 1)
    (hrun : run S p es = some p') : g p'.state = g p.state + es.countP Occurrence.isOutside := by
  induction es generalizing p with
  | nil =>
      obtain rfl := Option.some.inj hrun
      rfl
  | cons e es ih =>
      obtain ⟨q, hstep, hrest⟩ := run_cons.mp hrun
      rw [ih hrest]
      cases e with
      | ran n =>
          obtain ⟨-, -, rfl⟩ := step_ran.mp hstep
          rw [hexecute, List.countP_cons_of_neg (by simp [Occurrence.isOutside])]
      | outside event =>
          obtain ⟨s, hs, rfl⟩ := step_outside.mp hstep
          rw [hinterfere _ _ _ hs, List.countP_cons_of_pos (by simp [Occurrence.isOutside])]
          omega

/-! ## Tasks that have run -/

/-- What has run, has run after what it refers to. -/
def Closed (S : System N ε σ) (p : Progress N σ) : Prop :=
  ∀ n ∈ p.done, ∀ m ∈ S.refs n, m ∈ p.done

theorem closed_of_run (hrun : run S p es = some p') (hp : Closed S p) : Closed S p' := by
  refine run_invariant (I := Closed S) ?_ hrun hp
  intro q e q' hstep hq
  cases e with
  | ran n =>
      obtain ⟨-, hrefs, rfl⟩ := step_ran.mp hstep
      intro m hm l hl
      rcases List.mem_cons.mp hm with rfl | hm
      · exact List.mem_cons_of_mem m (hrefs l hl)
      · exact List.mem_cons_of_mem n (hq m hm l hl)
  | outside event =>
      obtain ⟨s, -, rfl⟩ := step_outside.mp hstep
      exact hq

/-- A task that has run by the end ran once, in the state the events before it
led to. -/
theorem exists_ran (hrun : run S p es = some p') (hn : n ∈ p'.done) (hp : n ∉ p.done) :
    ∃ q rest, run S p (before n es) = some q ∧ n ∉ q.done ∧
      run S ⟨S.execute n q.state, n :: q.done⟩ rest = some p' := by
  induction es generalizing p with
  | nil =>
      obtain rfl := Option.some.inj hrun
      exact absurd hn hp
  | cons e es ih =>
      obtain ⟨q, hstep, hrest⟩ := run_cons.mp hrun
      cases hruns : e.runs n with
      | true =>
          -- this is the one
          cases e with
          | ran m =>
              obtain rfl : m = n := by simpa [Occurrence.runs] using hruns
              obtain ⟨hm, -, rfl⟩ := step_ran.mp hstep
              refine ⟨p, es, ?_, hm, hrest⟩
              rw [before, List.takeWhile_cons_of_neg (by simp [hruns])]
              rfl
          | outside event => cases hruns
      | false =>
          have hq : n ∉ q.done := by
            cases e with
            | ran m =>
                obtain ⟨-, -, rfl⟩ := step_ran.mp hstep
                have hne : ¬ m = n := by simpa [Occurrence.runs] using hruns
                exact List.not_mem_cons_of_ne_of_not_mem (fun h => hne h.symm) hp
            | outside event =>
                obtain ⟨s, -, rfl⟩ := step_outside.mp hstep
                exact hp
          obtain ⟨q', rest, hbefore, hq', hafter⟩ := ih hrest hq
          refine ⟨q', rest, ?_, hq', hafter⟩
          rw [before, List.takeWhile_cons_of_pos (by simp [hruns])]
          exact run_cons.mpr ⟨q, hstep, hbefore⟩

/-- What only one task writes is, at the end, what that task left. -/
theorem read_at {f : σ → β} (hexecute : ∀ m, m ≠ n → ∀ s, f (S.execute m s) = f s)
    (hinterfere : ∀ s e s', S.interfere s e = some s' → f s' = f s)
    (hrun : run S p es = some p') (hn : n ∈ p'.done) (hp : n ∉ p.done) :
    ∃ q rest, run S p (before n es) = some q ∧ f p'.state = f (S.execute n q.state) ∧
      run S ⟨S.execute n q.state, n :: q.done⟩ rest = some p' := by
  obtain ⟨q, rest, hbefore, -, hafter⟩ := exists_ran hrun hn hp
  refine ⟨q, rest, hbefore, ?_, hafter⟩
  have hkeep := run_invariant (S := S)
    (I := fun r => n ∈ r.done ∧ f r.state = f (S.execute n q.state)) ?_ hafter
    ⟨List.mem_cons_self, rfl⟩
  · exact hkeep.2
  · rintro r e r' hstep ⟨hdone, hf⟩
    cases e with
    | ran m =>
        obtain ⟨hm, -, rfl⟩ := step_ran.mp hstep
        have hne : m ≠ n := fun h => hm (h ▸ hdone)
        exact ⟨List.mem_cons_of_mem m hdone, (hexecute m hne r.state).trans hf⟩
    | outside event =>
        obtain ⟨s, hs, rfl⟩ := step_outside.mp hstep
        exact ⟨hdone, (hinterfere r.state event s hs).trans hf⟩

end Run

end Schedule
