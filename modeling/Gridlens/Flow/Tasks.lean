import Mathlib.Algebra.BigOperators.Group.Finset.Basic
import Mathlib.Algebra.Order.BigOperators.Group.Finset
import Mathlib.Data.Fintype.Basic
import Mathlib.Logic.Relation

/-!
# A run of tasks under trigger rules

The tasks of a graph start when their rules are met by the tasks upstream of
them, act on a state they share with each other and with the outside, and end.
A task whose rule can no longer be met is marked, and never starts; it may be
marked before all that is upstream of it has ended. One that raises is tried
again, as often as it may.

* `sound_run`: what the status of a task says of those upstream of it.
* `success_of_needs`: a task that started has all it needs behind it.
* `finished_of_stuck`: nothing but ended tasks is left when nothing can move.
* `begun_le`: a task is started as often as it may.
* `moves_le`: a run comes to that after a bounded number of moves.
-/

namespace Tasks

/-- When a task starts. -/
inductive Rule where
  | allSuccess
  | allDone
deriving DecidableEq, Repr

/-- How a task ends. -/
inductive End where
  | success
  | failed
  | skipped
  | upstreamFailed
deriving DecidableEq, Repr

inductive Status where
  | waiting
  | running
  | ended (how : End)
deriving DecidableEq, Repr

namespace Status

def isEnded : Status → Bool
  | ended _ => true
  | _ => false

/-- Failed, by itself or because of what is upstream. -/
def isBroken : Status → Bool
  | ended .failed | ended .upstreamFailed => true
  | _ => false

/-- The task did something, or does. -/
def hasStarted : Status → Bool
  | running | ended .success | ended .failed => true
  | _ => false

end Status

/-- The tasks, in an order that goes downstream. -/
structure Graph (N : Type) where
  upstream : N → List N
  rule : N → Rule
  retries : N → Nat
  rank : N → Nat
  rank_lt : ∀ n, ∀ m ∈ upstream n, rank m < rank n

/-- What the tasks do, and what the outside may do. -/
structure System (N α ε σ : Type) extends Graph N where
  /-- A task starts afresh. -/
  start : N → σ → σ
  act : N → σ → α → Option σ
  /-- A task has come to its end. -/
  returns : N → σ → Bool
  skips : N → σ → Bool
  interfere : σ → ε → Option σ

structure Progress (N σ : Type) where
  state : σ
  status : N → Status
  tries : N → Nat

/-- What happens next. -/
inductive Occurrence (N α ε : Type) where
  | began (task : N)
  | acted (task : N) (action : α)
  | returned (task : N)
  /-- Whatever the reason is. -/
  | raised (task : N)
  | skipped (task : N)
  /-- By the scheduler, without a start. -/
  | marked (task : N)
  | outside (event : ε)

variable {N α ε σ : Type}

namespace Graph

variable (G : Graph N)

def ready (status : N → Status) (n : N) : Bool :=
  match G.rule n with
  | .allSuccess => (G.upstream n).all fun m => status m = .ended .success
  | .allDone => (G.upstream n).all fun m => (status m).isEnded

/-- The mark of a task that cannot start any more. -/
def mark (status : N → Status) (n : N) : Option End :=
  match G.rule n with
  | .allDone => none
  | .allSuccess =>
      if (G.upstream n).any fun m => (status m).isBroken then some .upstreamFailed
      else if (G.upstream n).any fun m => status m = .ended .skipped then some .skipped
      else none

/-- A task with this status, among those with the others. -/
def Justified (status : N → Status) (n : N) : Status → Prop
  | .waiting => True
  | .running | .ended .success | .ended .failed => G.ready status n = true
  | .ended .upstreamFailed =>
      G.rule n = .allSuccess ∧ ∃ m ∈ G.upstream n, (status m).isBroken = true
  | .ended .skipped => G.ready status n = true ∨
      G.rule n = .allSuccess ∧ ∃ m ∈ G.upstream n, status m = .ended .skipped

def Sound (status : N → Status) : Prop := ∀ n, G.Justified status n (status n)

/-- The task has to see the other succeed before it starts. -/
def Needs : N → N → Prop :=
  Relation.TransGen fun n m => G.rule n = .allSuccess ∧ m ∈ G.upstream n

/-- Nothing is downstream of the task. -/
def Leaf (n : N) : Prop := ∀ m, n ∉ G.upstream m

/-- A run is judged by its leaves. -/
def Succeeded (status : N → Status) : Prop :=
  ∀ n, G.Leaf n → status n = .ended .success ∨ status n = .ended .skipped

end Graph

section Statuses

variable {G : Graph N} {status : N → Status} {n m : N}

theorem ready_allSuccess (hrule : G.rule n = .allSuccess) :
    G.ready status n = true ↔ ∀ m ∈ G.upstream n, status m = .ended .success := by
  simp [Graph.ready, hrule]

theorem ready_allDone (hrule : G.rule n = .allDone) :
    G.ready status n = true ↔ ∀ m ∈ G.upstream n, (status m).isEnded = true := by
  simp [Graph.ready, hrule]

/-- Either way everything upstream has ended. -/
theorem isEnded_of_ready (h : G.ready status n = true) (hm : m ∈ G.upstream n) :
    (status m).isEnded = true := by
  cases hrule : G.rule n with
  | allSuccess => rw [(ready_allSuccess hrule).mp h m hm]; rfl
  | allDone => exact (ready_allDone hrule).mp h m hm

theorem mark_eq_some {how : End} (h : G.mark status n = some how) :
    G.Justified status n (.ended how) := by
  unfold Graph.mark at h
  cases hrule : G.rule n with
  | allDone => simp [hrule] at h
  | allSuccess =>
      simp only [hrule] at h
      split at h
      · rename_i hbroken
        obtain rfl := Option.some.inj h
        exact ⟨hrule, by simpa using hbroken⟩
      · split at h
        · rename_i hskipped
          obtain rfl := Option.some.inj h
          exact Or.inr ⟨hrule, by simpa using hskipped⟩
        · cases h

/-- A task is marked so for one upstream of it. -/
theorem skipped_of_mark (h : G.mark status n = some .skipped) :
    ∃ m ∈ G.upstream n, status m = .ended .skipped := by
  unfold Graph.mark at h
  cases hrule : G.rule n with
  | allDone => simp [hrule] at h
  | allSuccess =>
      simp only [hrule] at h
      split at h
      · cases h
      · split at h
        · rename_i hskipped
          simpa using hskipped
        · cases h

theorem not_mark_success : G.mark status n ≠ some .success := by
  intro h
  unfold Graph.mark at h
  split at h
  · cases h
  · split at h
    · cases h
    · split at h <;> cases h

theorem justified_of_hasStarted {s : Status} (h : G.Justified status n s)
    (hs : s.hasStarted = true) : G.ready status n = true := by
  cases s with
  | waiting => cases hs
  | running => exact h
  | ended how =>
      cases how with
      | success | failed => exact h
      | skipped | upstreamFailed => cases hs

/-- A task that started has succeeded in all it needs. -/
theorem success_of_needs (hsound : G.Sound status) (hneeds : G.Needs n m)
    (hn : (status n).hasStarted = true) : status m = .ended .success := by
  induction hneeds with
  | single hdirect =>
      exact (ready_allSuccess hdirect.1).mp (justified_of_hasStarted (hsound n) hn) _ hdirect.2
  | tail _ hlast ih =>
      rename_i k l _
      have hstarted : (status k).hasStarted = true := by rw [ih]; rfl
      exact (ready_allSuccess hlast.1).mp (justified_of_hasStarted (hsound k) hstarted) l hlast.2

/-- A task that runs whatever happens is never marked. -/
theorem ready_of_allDone (hsound : G.Sound status) (hrule : G.rule n = .allDone)
    (hn : status n ≠ .waiting) :
    G.ready status n = true ∧ status n ≠ .ended .upstreamFailed := by
  have h := hsound n
  cases hstatus : status n with
  | waiting => exact absurd hstatus hn
  | running =>
      rw [hstatus] at h
      exact ⟨h, fun heq => nomatch heq⟩
  | ended how =>
      rw [hstatus] at h
      cases how with
      | success | failed => exact ⟨h, fun heq => nomatch heq⟩
      | skipped =>
          rcases h with hready | ⟨hother, -⟩
          · exact ⟨hready, fun heq => nomatch heq⟩
          · rw [hrule] at hother
            cases hother
      | upstreamFailed =>
          have hother := h.1
          rw [hrule] at hother
          cases hother

/-- A task waits while one upstream of it is on its way and none of them has
gone wrong. -/
theorem waiting_of_open (hsound : G.Sound status) (hm : m ∈ G.upstream n)
    (hopen : (status m).isEnded = false)
    (hothers : ∀ l ∈ G.upstream n, (status l).isBroken = false ∧ status l ≠ .ended .skipped) :
    status n = .waiting := by
  have hready : G.ready status n ≠ true := by
    intro h
    rw [isEnded_of_ready h hm] at hopen
    cases hopen
  have h := hsound n
  cases hstatus : status n with
  | waiting => rfl
  | running =>
      rw [hstatus] at h
      exact absurd h hready
  | ended how =>
      rw [hstatus] at h
      cases how with
      | success | failed => exact absurd h hready
      | upstreamFailed =>
          obtain ⟨-, l, hl, hbroken⟩ := h
          rw [(hothers l hl).1] at hbroken
          cases hbroken
      | skipped =>
          rcases h with hstarted | ⟨-, l, hl, hskipped⟩
          · exact absurd hstarted hready
          · exact absurd hskipped (hothers l hl).2

/-- While tasks wait and none is running, one of them can start or be marked. -/
theorem exists_next (hquiet : ∀ n, status n ≠ .running) (hwaiting : status n = .waiting) :
    ∃ m, status m = .waiting ∧ (G.ready status m = true ∨ (G.mark status m).isSome = true) := by
  induction hrank : G.rank n using Nat.strong_induction_on generalizing n with
  | h k ih =>
      by_cases hup : ∃ m ∈ G.upstream n, status m = .waiting
      · -- one further up waits as well
        obtain ⟨m, hm, hwaits⟩ := hup
        exact ih (G.rank m) (hrank ▸ G.rank_lt n m hm) hwaits rfl
      · have hended : ∀ m ∈ G.upstream n, (status m).isEnded = true := by
          intro m hm
          cases hstatus : status m with
          | waiting => exact absurd ⟨m, hm, hstatus⟩ hup
          | running => exact absurd hstatus (hquiet m)
          | ended how => rfl
        refine ⟨n, hwaiting, ?_⟩
        cases hrule : G.rule n with
        | allDone => exact Or.inl ((ready_allDone hrule).mpr hended)
        | allSuccess =>
            by_cases hsuccess : ∀ m ∈ G.upstream n, status m = .ended .success
            · exact Or.inl ((ready_allSuccess hrule).mpr hsuccess)
            · right
              push Not at hsuccess
              obtain ⟨m, hm, hne⟩ := hsuccess
              have hwrong : (status m).isBroken = true ∨ status m = .ended .skipped := by
                have hm' := hended m hm
                cases hstatus : status m with
                | waiting | running => rw [hstatus] at hm'; cases hm'
                | ended how =>
                    cases how with
                    | success => exact absurd hstatus hne
                    | skipped => exact Or.inr rfl
                    | failed | upstreamFailed => exact Or.inl rfl
              unfold Graph.mark
              simp only [hrule]
              split
              · rfl
              · rename_i hbroken
                rcases hwrong with hwrong | hwrong
                · exact absurd (List.any_eq_true.mpr ⟨m, hm, hwrong⟩) hbroken
                · rw [if_pos (List.any_eq_true.mpr ⟨m, hm, by simp [hwrong]⟩)]
                  rfl

variable [DecidableEq N]

/-- Nothing rests on a task that has not ended. -/
theorem Justified.update {s x : Status} (h : G.Justified status n s)
    (hm : (status m).isEnded = false) : G.Justified (Function.update status m x) n s := by
  have hkeep : ∀ l, (status l).isEnded = true → Function.update status m x l = status l := by
    intro l hl
    refine Function.update_of_ne ?_ _ _
    rintro rfl
    rw [hl] at hm
    cases hm
  have hready : G.ready status n = true → G.ready (Function.update status m x) n = true := by
    intro hready
    cases hrule : G.rule n with
    | allSuccess =>
        refine (ready_allSuccess hrule).mpr fun l hl => ?_
        rw [hkeep l (isEnded_of_ready hready hl)]
        exact (ready_allSuccess hrule).mp hready l hl
    | allDone =>
        refine (ready_allDone hrule).mpr fun l hl => ?_
        rw [hkeep l (isEnded_of_ready hready hl)]
        exact isEnded_of_ready hready hl
  cases s with
  | waiting => trivial
  | running => exact hready h
  | ended how =>
      cases how with
      | success | failed => exact hready h
      | upstreamFailed =>
          obtain ⟨hrule, l, hl, hbroken⟩ := h
          refine ⟨hrule, l, hl, ?_⟩
          rw [hkeep l (by revert hbroken; cases status l <;> simp [Status.isBroken, Status.isEnded])]
          exact hbroken
      | skipped =>
          rcases h with h | ⟨hrule, l, hl, hskipped⟩
          · exact Or.inl (hready h)
          · refine Or.inr ⟨hrule, l, hl, ?_⟩
            rw [hkeep l (by rw [hskipped]; rfl)]
            exact hskipped

theorem Sound.update {x : Status} (h : G.Sound status) (hn : (status n).isEnded = false)
    (hx : G.Justified status n x) : G.Sound (Function.update status n x) := by
  intro m
  by_cases hm : m = n
  · rw [hm, Function.update_self]
    exact Justified.update hx hn
  · rw [Function.update_of_ne hm]
    exact Justified.update (h m) hn

end Statuses

/-! ## Runs -/

section Run

variable [DecidableEq N] (S : System N α ε σ)

/-- The status of a task, from now on. -/
def Progress.set (p : Progress N σ) (n : N) (x : Status) : Progress N σ :=
  { p with status := Function.update p.status n x }

@[simp] theorem set_status_self (p : Progress N σ) (n : N) (x : Status) :
    (p.set n x).status n = x := by simp [Progress.set]

theorem set_status_of_ne {p : Progress N σ} {n m : N} (hm : m ≠ n) (x : Status) :
    (p.set n x).status m = p.status m := by simp [Progress.set, hm]

@[simp] theorem set_state (p : Progress N σ) (n : N) (x : Status) :
    (p.set n x).state = p.state := rfl

def step (p : Progress N σ) : Occurrence N α ε → Option (Progress N σ)
  | .began n =>
      if p.status n = .waiting ∧ S.ready p.status n = true then
        some { p.set n .running with state := S.start n p.state }
      else none
  | .acted n a =>
      if p.status n = .running then (S.act n p.state a).map fun s => { p with state := s } else none
  | .returned n =>
      if p.status n = .running ∧ S.returns n p.state = true then some (p.set n (.ended .success))
      else none
  | .raised n =>
      if p.status n = .running then
        if p.tries n < S.retries n then
          some { p.set n .waiting with tries := Function.update p.tries n (p.tries n + 1) }
        else some (p.set n (.ended .failed))
      else none
  | .skipped n =>
      if p.status n = .running ∧ S.skips n p.state = true then some (p.set n (.ended .skipped))
      else none
  | .marked n =>
      if p.status n = .waiting then (S.mark p.status n).map fun how => p.set n (.ended how)
      else none
  | .outside e => (S.interfere p.state e).map fun s => { p with state := s }

def run (p : Progress N σ) (es : List (Occurrence N α ε)) : Option (Progress N σ) :=
  es.foldlM (step S) p

/-- Nothing has started. -/
def fresh (s : σ) : Progress N σ := ⟨s, fun _ => .waiting, fun _ => 0⟩

/-- Every task has ended. -/
def Finished (p : Progress N σ) : Prop := ∀ n, (p.status n).isEnded = true

variable {S} {p p' : Progress N σ} {e : Occurrence N α ε} {es : List (Occurrence N α ε)} {n : N}

theorem run_cons : run S p (e :: es) = some p' ↔
    ∃ q, step S p e = some q ∧ run S q es = some p' := by
  unfold run
  rw [List.foldlM_cons]
  exact Option.bind_eq_some_iff

theorem run_append {es' : List (Occurrence N α ε)} : run S p (es ++ es') = some p' ↔
    ∃ q, run S p es = some q ∧ run S q es' = some p' := by
  unfold run
  rw [List.foldlM_append]
  exact Option.bind_eq_some_iff

/-- What every event keeps holds at the end. -/
theorem run_invariant {I : Progress N σ → Prop}
    (hI : ∀ p, ∀ e ∈ es, ∀ p', step S p e = some p' → I p → I p') (hrun : run S p es = some p')
    (hp : I p) : I p' := by
  induction es generalizing p with
  | nil => exact Option.some.inj hrun ▸ hp
  | cons e es ih =>
      obtain ⟨q, hstep, hrest⟩ := run_cons.mp hrun
      exact ih (fun p e he => hI p e (List.mem_cons_of_mem _ he)) hrest
        (hI p e List.mem_cons_self q hstep hp)

theorem step_began : step S p (.began n) = some p' ↔ p.status n = .waiting ∧
    S.ready p.status n = true ∧ p' = { p.set n .running with state := S.start n p.state } := by
  simp only [step]
  split
  · rename_i h
    rw [Option.some.injEq, eq_comm]
    exact ⟨fun heq => ⟨h.1, h.2, heq⟩, fun h => h.2.2⟩
  · rename_i h
    exact ⟨fun heq => (nomatch heq), fun h' => absurd ⟨h'.1, h'.2.1⟩ h⟩

theorem step_acted {a : α} : step S p (.acted n a) = some p' ↔
    p.status n = .running ∧ ∃ s, S.act n p.state a = some s ∧ p' = { p with state := s } := by
  simp only [step]
  split
  · rename_i h
    rw [Option.map_eq_some_iff]
    simp only [eq_comm, h, true_and]
  · rename_i h
    exact ⟨fun heq => (nomatch heq), fun h' => absurd h'.1 h⟩

theorem step_returned : step S p (.returned n) = some p' ↔ p.status n = .running ∧
    S.returns n p.state = true ∧ p' = p.set n (.ended .success) := by
  simp only [step]
  split
  · rename_i h
    rw [Option.some.injEq, eq_comm]
    exact ⟨fun heq => ⟨h.1, h.2, heq⟩, fun h => h.2.2⟩
  · rename_i h
    exact ⟨fun heq => (nomatch heq), fun h' => absurd ⟨h'.1, h'.2.1⟩ h⟩

theorem step_skipped : step S p (.skipped n) = some p' ↔ p.status n = .running ∧
    S.skips n p.state = true ∧ p' = p.set n (.ended .skipped) := by
  simp only [step]
  split
  · rename_i h
    rw [Option.some.injEq, eq_comm]
    exact ⟨fun heq => ⟨h.1, h.2, heq⟩, fun h => h.2.2⟩
  · rename_i h
    exact ⟨fun heq => (nomatch heq), fun h' => absurd ⟨h'.1, h'.2.1⟩ h⟩

/-- The task is tried again, or it has failed. -/
theorem step_raised (h : step S p (.raised n) = some p') : p.status n = .running ∧
    (p.tries n < S.retries n ∧
        p' = { p.set n .waiting with tries := Function.update p.tries n (p.tries n + 1) } ∨
      S.retries n ≤ p.tries n ∧ p' = p.set n (.ended .failed)) := by
  simp only [step] at h
  split at h
  · rename_i hrunning
    refine ⟨hrunning, ?_⟩
    split at h
    · rename_i htries
      exact Or.inl ⟨htries, (Option.some.inj h).symm⟩
    · rename_i htries
      exact Or.inr ⟨not_lt.mp htries, (Option.some.inj h).symm⟩
  · cases h

theorem step_marked : step S p (.marked n) = some p' ↔ p.status n = .waiting ∧
    ∃ how, S.mark p.status n = some how ∧ p' = p.set n (.ended how) := by
  simp only [step]
  split
  · rename_i h
    rw [Option.map_eq_some_iff]
    simp only [eq_comm, h, true_and]
  · rename_i h
    exact ⟨fun heq => (nomatch heq), fun h' => absurd h'.1 h⟩

theorem step_outside {event : ε} : step S p (.outside event) = some p' ↔
    ∃ s, S.interfere p.state event = some s ∧ p' = { p with state := s } := by
  simp only [step, Option.map_eq_some_iff]
  exact exists_congr fun s => and_congr_right fun _ => eq_comm

/-- An event changes the state in one of three ways, if it does. -/
theorem step_state (hstep : step S p e = some p') :
    p'.state = p.state ∨
    (∃ n, p.status n = .waiting ∧ S.ready p.status n = true ∧
      p' = { p.set n .running with state := S.start n p.state }) ∨
    (∃ n a s, p.status n = .running ∧ S.act n p.state a = some s ∧ p' = { p with state := s }) ∨
    ∃ event s, e = .outside event ∧ S.interfere p.state event = some s ∧
      p' = { p with state := s } := by
  cases e with
  | began n =>
      obtain ⟨hn, hready, rfl⟩ := step_began.mp hstep
      exact Or.inr (Or.inl ⟨n, hn, hready, rfl⟩)
  | acted n a =>
      obtain ⟨hn, s, hact, rfl⟩ := step_acted.mp hstep
      exact Or.inr (Or.inr (Or.inl ⟨n, a, s, hn, hact, rfl⟩))
  | returned n => obtain ⟨-, -, rfl⟩ := step_returned.mp hstep; exact Or.inl rfl
  | raised n => obtain ⟨-, ⟨-, rfl⟩ | ⟨-, rfl⟩⟩ := step_raised hstep <;> exact Or.inl rfl
  | skipped n => obtain ⟨-, -, rfl⟩ := step_skipped.mp hstep; exact Or.inl rfl
  | marked n => obtain ⟨-, how, -, rfl⟩ := step_marked.mp hstep; exact Or.inl rfl
  | outside event =>
      obtain ⟨s, hs, rfl⟩ := step_outside.mp hstep
      exact Or.inr (Or.inr (Or.inr ⟨event, s, rfl, hs, rfl⟩))

/-- A task that is not tried again has waited before if it waits. -/
theorem waiting_of_step (hretries : S.retries n = 0) (hstep : step S p e = some p')
    (hn : p'.status n = .waiting) : p.status n = .waiting := by
  have hset : ∀ m x, (p.set m x).status n = .waiting → x ≠ .waiting → p.status n = .waiting := by
    intro m x h hx
    by_cases hm : n = m
    · rw [hm, set_status_self] at h
      exact absurd h hx
    · rwa [set_status_of_ne hm] at h
  cases e with
  | began m => obtain ⟨-, -, rfl⟩ := step_began.mp hstep; exact hset m .running hn nofun
  | acted m a => obtain ⟨-, s, -, rfl⟩ := step_acted.mp hstep; exact hn
  | returned m => obtain ⟨-, -, rfl⟩ := step_returned.mp hstep; exact hset m _ hn nofun
  | raised m =>
      obtain ⟨-, ⟨htries, rfl⟩ | ⟨-, rfl⟩⟩ := step_raised hstep
      · have hm : n ≠ m := by
          rintro rfl
          rw [hretries] at htries
          exact absurd htries (Nat.not_lt_zero _)
        exact (set_status_of_ne hm _).symm.trans hn
      · exact hset m _ hn nofun
  | skipped m => obtain ⟨-, -, rfl⟩ := step_skipped.mp hstep; exact hset m _ hn nofun
  | marked m => obtain ⟨-, how, -, rfl⟩ := step_marked.mp hstep; exact hset m _ hn nofun
  | outside event => obtain ⟨s, -, rfl⟩ := step_outside.mp hstep; exact hn

/-- A task that comes to its end does so by itself, on the state it leaves, or
is marked. -/
theorem step_ended {how : End} (hstep : step S p e = some p')
    (hbefore : p.status n ≠ .ended how) (hafter : p'.status n = .ended how) :
    p'.state = p.state ∧ (how = .success ∧ S.returns n p.state = true ∨ how = .failed ∨
      how = .skipped ∧ S.skips n p.state = true ∨ S.mark p.status n = some how) := by
  have hset : ∀ {m : N} {x : Status}, (p.set m x).status n = .ended how → n = m ∧ x = .ended how := by
    intro m x h
    by_cases hm : n = m
    · rw [hm, set_status_self] at h
      exact ⟨hm, h⟩
    · rw [set_status_of_ne hm] at h
      exact absurd h hbefore
  cases e with
  | began m =>
      obtain ⟨-, -, rfl⟩ := step_began.mp hstep
      cases (hset (x := .running) hafter).2
  | acted m a =>
      obtain ⟨-, s, -, rfl⟩ := step_acted.mp hstep
      exact absurd hafter hbefore
  | returned m =>
      obtain ⟨-, hreturns, rfl⟩ := step_returned.mp hstep
      obtain ⟨rfl, hhow⟩ := hset hafter
      obtain rfl : how = .success := by simpa using hhow.symm
      exact ⟨rfl, Or.inl ⟨rfl, hreturns⟩⟩
  | raised m =>
      obtain ⟨-, ⟨-, rfl⟩ | ⟨-, rfl⟩⟩ := step_raised hstep
      · cases (hset (x := .waiting) hafter).2
      · obtain rfl : how = .failed := by simpa using (hset hafter).2.symm
        exact ⟨rfl, Or.inr (Or.inl rfl)⟩
  | skipped m =>
      obtain ⟨-, hskips, rfl⟩ := step_skipped.mp hstep
      obtain ⟨rfl, hhow⟩ := hset hafter
      obtain rfl : how = .skipped := by simpa using hhow.symm
      exact ⟨rfl, Or.inr (Or.inr (Or.inl ⟨rfl, hskips⟩))⟩
  | marked m =>
      obtain ⟨-, how', hmark, rfl⟩ := step_marked.mp hstep
      obtain ⟨rfl, hhow⟩ := hset hafter
      obtain rfl : how' = how := by simpa using hhow
      exact ⟨rfl, Or.inr (Or.inr (Or.inr hmark))⟩
  | outside event =>
      obtain ⟨s, -, rfl⟩ := step_outside.mp hstep
      exact absurd hafter hbefore

/-- An event changes the status of one task that has not ended, if of any, to
one that the others justify. -/
theorem step_status (hsound : S.Sound p.status) (hstep : step S p e = some p') :
    p'.status = p.status ∨ ∃ n x, (p.status n).isEnded = false ∧
      S.Justified p.status n x ∧ p'.status = Function.update p.status n x := by
  have hready : ∀ n, p.status n = .running → S.ready p.status n = true := by
    intro n hn
    exact justified_of_hasStarted (hsound n) (by rw [hn]; rfl)
  have hopen : ∀ n, p.status n = .waiting ∨ p.status n = .running →
      (p.status n).isEnded = false := by
    intro n hn
    rcases hn with hn | hn <;> rw [hn] <;> rfl
  cases e with
  | began n =>
      obtain ⟨hn, hstart, rfl⟩ := step_began.mp hstep
      exact Or.inr ⟨n, .running, hopen n (Or.inl hn), hstart, rfl⟩
  | acted n a =>
      obtain ⟨-, s, -, rfl⟩ := step_acted.mp hstep
      exact Or.inl rfl
  | returned n =>
      obtain ⟨hn, -, rfl⟩ := step_returned.mp hstep
      exact Or.inr ⟨n, .ended .success, hopen n (Or.inr hn), hready n hn, rfl⟩
  | raised n =>
      obtain ⟨hn, ⟨-, rfl⟩ | ⟨-, rfl⟩⟩ := step_raised hstep
      · exact Or.inr ⟨n, .waiting, hopen n (Or.inr hn), trivial, rfl⟩
      · exact Or.inr ⟨n, .ended .failed, hopen n (Or.inr hn), hready n hn, rfl⟩
  | skipped n =>
      obtain ⟨hn, -, rfl⟩ := step_skipped.mp hstep
      exact Or.inr ⟨n, .ended .skipped, hopen n (Or.inr hn), Or.inl (hready n hn), rfl⟩
  | marked n =>
      obtain ⟨hn, how, hmark, rfl⟩ := step_marked.mp hstep
      exact Or.inr ⟨n, .ended how, hopen n (Or.inl hn), mark_eq_some hmark, rfl⟩
  | outside event =>
      obtain ⟨s, -, rfl⟩ := step_outside.mp hstep
      exact Or.inl rfl

/-- A task that has ended stays as it ended. -/
theorem ended_step {how : End} (hsound : S.Sound p.status) (hstep : step S p e = some p')
    (h : p.status n = .ended how) : p'.status n = .ended how := by
  rcases step_status hsound hstep with hsame | ⟨m, x, hopen, -, hupdate⟩
  · rw [hsame, h]
  · rw [hupdate, Function.update_of_ne, h]
    rintro rfl
    rw [h] at hopen
    cases hopen

theorem sound_step (hsound : S.Sound p.status) (hstep : step S p e = some p') :
    S.Sound p'.status := by
  rcases step_status hsound hstep with hsame | ⟨n, x, hopen, hx, hupdate⟩
  · exact hsame ▸ hsound
  · exact hupdate ▸ Sound.update hsound hopen hx

omit [DecidableEq N] in
theorem sound_fresh (s : σ) : S.Sound (fresh s : Progress N σ).status := fun _ => trivial

theorem sound_run {s : σ} (hrun : run S (fresh s) es = some p') : S.Sound p'.status :=
  run_invariant (I := fun p => S.Sound p.status) (fun _ _ _ _ hstep h => sound_step h hstep) hrun
    (sound_fresh s)

/-- What every event keeps, with the statuses sound. -/
theorem sound_run_invariant {I : Progress N σ → Prop} {s : σ}
    (hI : ∀ p, ∀ e ∈ es, ∀ p', S.Sound p.status → step S p e = some p' → I p → I p')
    (hrun : run S (fresh s) es = some p') (hp : I (fresh s)) : I p' :=
  (run_invariant (I := fun p => S.Sound p.status ∧ I p)
    (fun p e he p' hstep h => ⟨sound_step h.1 hstep, hI p e he p' h.1 hstep h.2⟩) hrun
    ⟨sound_fresh s, hp⟩).2

/-- Where no task skips itself, none is skipped. -/
theorem not_skipped (hskips : ∀ n s, S.skips n s = false) {s : σ}
    (hrun : run S (fresh s) es = some p') (n : N) : p'.status n ≠ .ended .skipped := by
  refine sound_run_invariant (I := fun p => ∀ n, p.status n ≠ .ended .skipped)
    (fun p e _ p' _ hstep hp n hafter => ?_) hrun (fun _ => nofun) n
  obtain ⟨-, ⟨hhow, -⟩ | hhow | ⟨-, hskip⟩ | hmark⟩ := step_ended hstep (hp n) hafter
  · cases hhow
  · cases hhow
  · rw [hskips] at hskip
    cases hskip
  · obtain ⟨m, -, hm⟩ := skipped_of_mark hmark
    exact hp m hm

/-- Where no task can move, every task has ended. -/
theorem finished_of_stuck (hstuck : ∀ n, step S p (.began n) = none ∧
    step S p (.raised n) = none ∧ step S p (.marked n) = none) : Finished p := by
  have hquiet : ∀ n, p.status n ≠ .running := by
    intro n hn
    have hraised := (hstuck n).2.1
    simp only [step, if_pos hn] at hraised
    split at hraised <;> cases hraised
  intro n
  cases hstatus : p.status n with
  | running => exact absurd hstatus (hquiet n)
  | ended how => rfl
  | waiting =>
      obtain ⟨m, hm, hready | hmark⟩ := exists_next (G := S.toGraph) hquiet hstatus
      · have hbegan := (hstuck m).1
        rw [step_began.mpr ⟨hm, hready, rfl⟩] at hbegan
        cases hbegan
      · obtain ⟨how, hhow⟩ := Option.isSome_iff_exists.mp hmark
        have hmarked := (hstuck m).2.2
        rw [step_marked.mpr ⟨hm, how, hhow, rfl⟩] at hmarked
        cases hmarked

/-! ## Tries -/

/-- How often a task was started, a mark counting as well. -/
def Progress.begun (p : Progress N σ) (n : N) : Nat :=
  p.tries n + if p.status n = .waiting then 0 else 1

theorem begun_mono (hstep : step S p e = some p') (n : N) : p.begun n ≤ p'.begun n := by
  have hset : ∀ {m : N} {x : Status}, x ≠ .waiting → p.begun n ≤ (p.set m x).begun n := by
    intro m x hx
    unfold Progress.begun
    by_cases hm : n = m
    · rw [hm, set_status_self, if_neg hx]
      show p.tries m + _ ≤ p.tries m + 1
      split <;> omega
    · rw [set_status_of_ne hm]
      exact le_refl _
  cases e with
  | began m =>
      obtain ⟨-, -, rfl⟩ := step_began.mp hstep
      exact hset (x := .running) nofun
  | acted m a =>
      obtain ⟨-, s, -, rfl⟩ := step_acted.mp hstep
      exact le_refl _
  | returned m =>
      obtain ⟨-, -, rfl⟩ := step_returned.mp hstep
      exact hset nofun
  | raised m =>
      obtain ⟨-, ⟨-, rfl⟩ | ⟨-, rfl⟩⟩ := step_raised hstep
      · unfold Progress.begun
        by_cases hm : n = m
        · simp only [hm, Function.update_self]
          split <;> omega
        · simp [hm, set_status_of_ne hm]
      · exact hset nofun
  | skipped m =>
      obtain ⟨-, -, rfl⟩ := step_skipped.mp hstep
      exact hset nofun
  | marked m =>
      obtain ⟨-, how, -, rfl⟩ := step_marked.mp hstep
      exact hset nofun
  | outside event =>
      obtain ⟨s, -, rfl⟩ := step_outside.mp hstep
      exact le_refl _

theorem begun_began (hstep : step S p (.began n) = some p') : p'.begun n = p.begun n + 1 := by
  obtain ⟨hn, -, rfl⟩ := step_began.mp hstep
  simp [Progress.begun, hn, Progress.set]

/-- Only a start makes a task run. -/
theorem running_step (hstep : step S p e = some p') (hn : p'.status n = .running) :
    p.status n = .running ∨ e = .began n := by
  have hset : ∀ {m : N} {x : Status}, x ≠ .running → (p.set m x).status n = .running →
      p.status n = .running := by
    intro m x hx h
    by_cases hm : n = m
    · rw [hm, set_status_self] at h
      exact absurd h hx
    · rwa [set_status_of_ne hm] at h
  cases e with
  | began m =>
      obtain ⟨-, -, rfl⟩ := step_began.mp hstep
      by_cases hm : n = m
      · exact Or.inr (by rw [hm])
      · exact Or.inl ((set_status_of_ne hm _).symm.trans hn)
  | acted m a =>
      obtain ⟨-, s, -, rfl⟩ := step_acted.mp hstep
      exact Or.inl hn
  | returned m =>
      obtain ⟨-, -, rfl⟩ := step_returned.mp hstep
      exact Or.inl (hset (x := .ended _) nofun hn)
  | raised m =>
      obtain ⟨-, ⟨-, rfl⟩ | ⟨-, rfl⟩⟩ := step_raised hstep
      · exact Or.inl (hset (x := .waiting) nofun hn)
      · exact Or.inl (hset (x := .ended _) nofun hn)
  | skipped m =>
      obtain ⟨-, -, rfl⟩ := step_skipped.mp hstep
      exact Or.inl (hset (x := .ended _) nofun hn)
  | marked m =>
      obtain ⟨-, how, -, rfl⟩ := step_marked.mp hstep
      exact Or.inl (hset (x := .ended _) nofun hn)
  | outside event =>
      obtain ⟨s, -, rfl⟩ := step_outside.mp hstep
      exact Or.inl hn

/-- A task is started once, and once more for each retry. -/
theorem begun_le {s : σ} (hrun : run S (fresh s) es = some p') (n : N) :
    p'.begun n ≤ S.retries n + 1 := by
  have htries : p'.tries n ≤ S.retries n := by
    refine run_invariant (I := fun p => p.tries n ≤ S.retries n) (fun p e _ p' hstep hp => ?_) hrun
      (Nat.zero_le _)
    cases e with
    | began m => obtain ⟨-, -, rfl⟩ := step_began.mp hstep; exact hp
    | acted m a => obtain ⟨-, s, -, rfl⟩ := step_acted.mp hstep; exact hp
    | returned m => obtain ⟨-, -, rfl⟩ := step_returned.mp hstep; exact hp
    | raised m =>
        obtain ⟨-, ⟨hless, rfl⟩ | ⟨-, rfl⟩⟩ := step_raised hstep
        · by_cases hm : n = m
          · rw [hm]
            show Function.update p.tries m (p.tries m + 1) m ≤ _
            rw [Function.update_self]
            exact hless
          · show Function.update p.tries m (p.tries m + 1) n ≤ _
            rw [Function.update_of_ne hm]
            exact hp
        · exact hp
    | skipped m => obtain ⟨-, -, rfl⟩ := step_skipped.mp hstep; exact hp
    | marked m => obtain ⟨-, how, -, rfl⟩ := step_marked.mp hstep; exact hp
    | outside event => obtain ⟨s, -, rfl⟩ := step_outside.mp hstep; exact hp
  unfold Progress.begun
  split <;> omega

/-- The event moves a task on. -/
def Occurrence.isMove : Occurrence N α ε → Bool
  | acted _ _ | outside _ => false
  | _ => true

section Moves

variable [Fintype N]

/-- How many moves a task has before it. -/
def movesLeft (G : Graph N) (p : Progress N σ) (n : N) : Nat :=
  2 * (G.retries n - p.tries n) + match p.status n with
    | .waiting => 2
    | .running => 1
    | .ended _ => 0

theorem movesLeft_step (hstep : step S p e = some p') :
    ∑ n, movesLeft S.toGraph p' n + (if e.isMove then 1 else 0) ≤ ∑ n, movesLeft S.toGraph p n := by
  have hone : ∀ (q : Progress N σ) (n : N), (∀ m, m ≠ n → q.status m = p.status m ∧
      q.tries m = p.tries m) → movesLeft S.toGraph q n < movesLeft S.toGraph p n →
      ∑ n, movesLeft S.toGraph q n + 1 ≤ ∑ n, movesLeft S.toGraph p n := by
    intro q n hothers hless
    refine Finset.sum_lt_sum (fun m _ => ?_) ⟨n, Finset.mem_univ n, hless⟩
    by_cases hm : m = n
    · exact hm ▸ hless.le
    · unfold movesLeft
      rw [(hothers m hm).1, (hothers m hm).2]
  have hset : ∀ (n : N) (x : Status), ∀ m, m ≠ n →
      (p.set n x).status m = p.status m ∧ (p.set n x).tries m = p.tries m :=
    fun n x m hm => ⟨set_status_of_ne hm x, rfl⟩
  cases e with
  | began n =>
      obtain ⟨hn, -, rfl⟩ := step_began.mp hstep
      refine hone _ n (hset n .running) ?_
      simp [movesLeft, Progress.set, hn]
  | acted n a =>
      obtain ⟨-, s, -, rfl⟩ := step_acted.mp hstep
      exact le_refl _
  | returned n =>
      obtain ⟨hn, -, rfl⟩ := step_returned.mp hstep
      refine hone _ n (hset n _) ?_
      simp [movesLeft, Progress.set, hn]
  | raised n =>
      obtain ⟨hn, ⟨htries, rfl⟩ | ⟨-, rfl⟩⟩ := step_raised hstep
      · refine hone _ n (fun m hm => ⟨(hset n .waiting m hm).1, Function.update_of_ne hm _ _⟩) ?_
        simp only [movesLeft, Progress.set, Function.update_self, hn]
        omega
      · refine hone _ n (hset n _) ?_
        simp [movesLeft, Progress.set, hn]
  | skipped n =>
      obtain ⟨hn, -, rfl⟩ := step_skipped.mp hstep
      refine hone _ n (hset n _) ?_
      simp [movesLeft, Progress.set, hn]
  | marked n =>
      obtain ⟨hn, how, -, rfl⟩ := step_marked.mp hstep
      refine hone _ n (hset n _) ?_
      simp [movesLeft, Progress.set, hn]
  | outside event =>
      obtain ⟨s, -, rfl⟩ := step_outside.mp hstep
      exact le_refl _

/-- Two moves a task, and two for each time it is tried again. -/
theorem moves_le {s : σ} (hrun : run S (fresh s) es = some p') :
    es.countP Occurrence.isMove ≤ ∑ n, 2 * (S.retries n + 1) := by
  have hcount : ∀ (es : List (Occurrence N α ε)) (p : Progress N σ), run S p es = some p' →
      ∑ n, movesLeft S.toGraph p' n + es.countP Occurrence.isMove ≤
        ∑ n, movesLeft S.toGraph p n := by
    intro es
    induction es with
    | nil =>
        intro p hrun
        obtain rfl := Option.some.inj hrun
        exact le_refl _
    | cons e es ih =>
        intro p hrun
        obtain ⟨q, hstep, hrest⟩ := run_cons.mp hrun
        have hfirst := movesLeft_step hstep
        have hlater := ih q hrest
        rw [List.countP_cons]
        omega
  have htotal := hcount es (fresh s) hrun
  have hstart : ∑ n, movesLeft S.toGraph (fresh s : Progress N σ) n =
      ∑ n, 2 * (S.retries n + 1) := by
    refine Finset.sum_congr rfl fun n _ => ?_
    simp only [movesLeft, fresh]
    omega
  omega

end Moves

end Run

end Tasks
