import Mathlib.Data.List.Basic
import Mathlib.Tactic.Common

/-!
# Computations that may not end

A loop whose step comes from its input may run for ever. A `Running`
computation is what can be seen of it after some number of iterations: nothing
yet, or how it ended; an end seen once is there from then on.

* `Ends c r` says that it ends with `r`, a value or an exception, and `Halts`
  that it ends at all. Both compute through a sequence (`ends_bind`,
  `halts_bind`) and along a list (`halts_foldlM`).
* A loop halts when a measure decreases (`halts_loop`), and does not when every
  state it comes to leads to one more (`not_halts_loop`).
* `Agrees c x` ties it to a total function: where it ends, it ends with `x`.
-/

namespace Effects

/-- What is seen of a computation after so many iterations of its loops. -/
structure Running (ε α : Type) where
  within : Nat → Option (Except ε α)
  stable : ∀ n r, within n = some r → within (n + 1) = some r

namespace Running

variable {ε α β σ : Type}

/-- A computation without loops. -/
def lift (x : Except ε α) : Running ε α := ⟨fun _ => some x, fun _ _ h => h⟩

/-- One computation and then another, each within the iterations. -/
def bind (x : Running ε α) (f : α → Running ε β) : Running ε β where
  within n := match x.within n with
    | none => none
    | some (.error e) => some (.error e)
    | some (.ok a) => (f a).within n
  stable n r h := by
    cases hx : x.within n with
    | none =>
        rw [hx] at h
        cases h
    | some y =>
        rw [hx] at h
        rw [x.stable n y hx]
        cases y with
        | error e => exact h
        | ok a => exact (f a).stable n r h

instance : Monad (Running ε) where
  pure a := lift (.ok a)
  bind := bind

/-- So many iterations of a loop, whose step goes on or ends it. -/
def loopWithin (step : σ → Except ε (σ ⊕ β)) : Nat → σ → Option (Except ε β)
  | 0, _ => none
  | n + 1, s => match step s with
    | .error e => some (.error e)
    | .ok (.inr b) => some (.ok b)
    | .ok (.inl s') => loopWithin step n s'

theorem loopWithin_stable (step : σ → Except ε (σ ⊕ β)) (n : Nat) (s : σ) (r : Except ε β)
    (h : loopWithin step n s = some r) : loopWithin step (n + 1) s = some r := by
  induction n generalizing s with
  | zero => cases h
  | succ n ih =>
      rw [loopWithin] at h ⊢
      split at h
      · exact h
      · exact h
      · exact ih _ h

def loop (step : σ → Except ε (σ ⊕ β)) (s : σ) : Running ε β :=
  ⟨fun n => loopWithin step n s, fun n r => loopWithin_stable step n s r⟩

/-! ## Ends -/

/-- It ends with this value or exception. -/
def Ends (c : Running ε α) (r : Except ε α) : Prop := ∃ n, c.within n = some r

def Halts (c : Running ε α) : Prop := ∃ r, c.Ends r

variable {c : Running ε α} {f : α → Running ε β} {x : Except ε α} {r r' : Except ε α}

theorem stable_le {n m : Nat} (h : c.within n = some r) (hle : n ≤ m) : c.within m = some r := by
  induction hle with
  | refl => exact h
  | step _ ih => exact c.stable _ _ ih

/-- It ends in one way. -/
theorem Ends.unique (h : c.Ends r) (h' : c.Ends r') : r = r' := by
  obtain ⟨n, hn⟩ := h
  obtain ⟨m, hm⟩ := h'
  have hn' := stable_le hn (Nat.le_max_left n m)
  rw [stable_le hm (Nat.le_max_right n m)] at hn'
  exact (Option.some.inj hn').symm

@[simp] theorem ends_lift : (lift x).Ends r ↔ x = r :=
  ⟨fun ⟨_, h⟩ => Option.some.inj h, fun h => ⟨0, congrArg some h⟩⟩

@[simp] theorem halts_lift : (lift x).Halts := ⟨x, ends_lift.mpr rfl⟩

@[simp] theorem ends_pure {a : α} : (pure a : Running ε α).Ends r ↔ .ok a = r := ends_lift

@[simp] theorem halts_pure {a : α} : (pure a : Running ε α).Halts := halts_lift

theorem within_bind (c : Running ε α) (f : α → Running ε β) (n : Nat) :
    (c >>= f).within n = match c.within n with
      | none => none
      | some (.error e) => some (.error e)
      | some (.ok a) => (f a).within n := rfl

/-- A sequence ends where its first part raises, or as its second part does. -/
theorem ends_bind {s : Except ε β} : (c >>= f).Ends s ↔
    (∃ e, c.Ends (.error e) ∧ .error e = s) ∨ ∃ a, c.Ends (.ok a) ∧ (f a).Ends s := by
  constructor
  · rintro ⟨n, hn⟩
    rw [within_bind] at hn
    cases hc : c.within n with
    | none =>
        rw [hc] at hn
        cases hn
    | some y =>
        rw [hc] at hn
        cases y with
        | error e => exact Or.inl ⟨e, ⟨n, hc⟩, Option.some.inj hn⟩
        | ok a => exact Or.inr ⟨a, ⟨n, hc⟩, n, hn⟩
  · rintro (⟨e, ⟨n, hn⟩, rfl⟩ | ⟨a, ⟨n, hn⟩, m, hm⟩)
    · exact ⟨n, by rw [within_bind, hn]⟩
    · refine ⟨max n m, ?_⟩
      rw [within_bind, stable_le hn (Nat.le_max_left n m)]
      exact stable_le hm (Nat.le_max_right n m)

/-- A sequence halts when its first part does, and its second part after every
value of the first. -/
theorem halts_bind : (c >>= f).Halts ↔ c.Halts ∧ ∀ a, c.Ends (.ok a) → (f a).Halts := by
  constructor
  · rintro ⟨s, hs⟩
    rcases ends_bind.mp hs with ⟨e, he, -⟩ | ⟨a, ha, hf⟩
    · refine ⟨⟨_, he⟩, fun a ha => ?_⟩
      cases he.unique ha
    · refine ⟨⟨_, ha⟩, fun a' ha' => ?_⟩
      cases ha.unique ha'
      exact ⟨s, hf⟩
  · rintro ⟨⟨y, hy⟩, hf⟩
    cases y with
    | error e => exact ⟨_, ends_bind.mpr (Or.inl ⟨e, hy, rfl⟩)⟩
    | ok a =>
        obtain ⟨s, hs⟩ := hf a hy
        exact ⟨s, ends_bind.mpr (Or.inr ⟨a, hy, hs⟩)⟩

@[simp] theorem halts_lift_bind : (lift x >>= f).Halts ↔ ∀ a, x = .ok a → (f a).Halts := by
  simp [halts_bind]

/-- A loop along a list halts when each of its iterations does, from the state
the ones before it end with. -/
theorem halts_foldlM {g : σ → α → Running ε σ} {l : List α} {s : σ} :
    (l.foldlM g s).Halts ↔ ∀ done a rest s', l = done ++ a :: rest →
      (done.foldlM g s).Ends (.ok s') → (g s' a).Halts := by
  induction l generalizing s with
  | nil =>
      constructor
      · intro _ done a rest s' hl
        exact absurd hl (by simp)
      · intro _
        exact halts_pure
  | cons b l ih =>
      rw [List.foldlM_cons, halts_bind]
      constructor
      · intro ⟨hfirst, hrest⟩ done a rest s' hl hdone
        cases done with
        | nil =>
            rw [List.foldlM_nil, ends_pure] at hdone
            cases hdone
            cases hl
            exact hfirst
        | cons d done =>
            cases hl
            rw [List.foldlM_cons, ends_bind] at hdone
            rcases hdone with ⟨e, -, herror⟩ | ⟨s₁, hs₁, hdone⟩
            · cases herror
            · exact ih.mp (hrest s₁ hs₁) done a rest s' rfl hdone
      · intro hall
        refine ⟨hall [] b l s rfl (ends_pure.mpr rfl), fun s₁ hs₁ => ih.mpr ?_⟩
        intro done a rest s' hl hdone
        refine hall (b :: done) a rest s' (by rw [hl]; rfl) ?_
        rw [List.foldlM_cons]
        exact ends_bind.mpr (Or.inr ⟨s₁, hs₁, hdone⟩)

/-- And then it got through the items before any of them. -/
theorem Halts.of_append {g : σ → α → Running ε σ} {l l' : List α} {s : σ}
    (h : ((l ++ l').foldlM g s).Halts) : (l.foldlM g s).Halts := by
  refine halts_foldlM.mpr fun done a rest s' hl hdone => ?_
  exact halts_foldlM.mp h done a (rest ++ l') s' (by rw [hl, List.append_assoc]; rfl) hdone

/-! ## Loops -/

section Loop

variable {step : σ → Except ε (σ ⊕ β)} {s : σ} {b : β}

/-- A loop ends as its step does, or as it does from the next state. -/
theorem ends_loop {r : Except ε β} : (loop step s).Ends r ↔ match step s with
    | .error e => .error e = r
    | .ok (.inr b) => .ok b = r
    | .ok (.inl s') => (loop step s').Ends r := by
  constructor
  · rintro ⟨n, hn⟩
    cases n with
    | zero => cases hn
    | succ n =>
        have hn' : loopWithin step (n + 1) s = some r := hn
        rw [loopWithin] at hn'
        split at hn'
        · exact Option.some.inj hn'
        · exact Option.some.inj hn'
        · exact ⟨n, hn'⟩
  · intro h
    split at h
    · rename_i hstep
      exact ⟨1, by show loopWithin step 1 s = _; rw [loopWithin, hstep]; exact congrArg some h⟩
    · rename_i hstep
      exact ⟨1, by show loopWithin step 1 s = _; rw [loopWithin, hstep]; exact congrArg some h⟩
    · rename_i hstep
      obtain ⟨n, hn⟩ := h
      exact ⟨n + 1, by show loopWithin step (n + 1) s = _; rw [loopWithin, hstep]; exact hn⟩

/-- A loop halts whose step brings a measure down. -/
theorem halts_loop (measure : σ → Nat)
    (hstep : ∀ s s', step s = .ok (.inl s') → measure s' < measure s) (s : σ) :
    (loop step s).Halts := by
  induction hm : measure s using Nat.strongRecOn generalizing s with
  | ind m ih =>
      cases hs : step s with
      | error e => exact ⟨.error e, ends_loop.mpr (by rw [hs])⟩
      | ok next =>
          cases next with
          | inr b => exact ⟨.ok b, ends_loop.mpr (by rw [hs])⟩
          | inl s' =>
              obtain ⟨r, hr⟩ := ih (measure s') (hm ▸ hstep s s' hs) s' rfl
              exact ⟨r, ends_loop.mpr (by rw [hs]; exact hr)⟩

/-- A loop does not halt while every state it comes to leads to one more. -/
theorem not_halts_loop {I : σ → Prop} (hstep : ∀ s, I s → ∃ s', step s = .ok (.inl s') ∧ I s')
    (hs : I s) : ¬ (loop step s).Halts := by
  rintro ⟨r, n, hn⟩
  have hnever : ∀ n s, I s → loopWithin step n s = none := by
    intro n
    induction n with
    | zero => exact fun _ _ => rfl
    | succ n ih =>
        intro s hs
        obtain ⟨s', hnext, hs'⟩ := hstep s hs
        rw [loopWithin, hnext]
        exact ih s' hs'
  have hn' : loopWithin step n s = some r := hn
  rw [hnever n s hs] at hn'
  cases hn'

end Loop

/-! ## Against a total function -/

/-- Where the computation ends, it ends with `x`. -/
def Agrees (c : Running ε α) (x : Except ε α) : Prop := ∀ r, c.Ends r → r = x

theorem agrees_lift (x : Except ε α) : (lift x).Agrees x := fun _ h => (ends_lift.mp h).symm

theorem agrees_bind {g : α → Except ε β} (hc : c.Agrees x)
    (hf : ∀ a, x = .ok a → (f a).Agrees (g a)) : (c >>= f).Agrees (x >>= g) := by
  intro s hs
  rcases ends_bind.mp hs with ⟨e, he, rfl⟩ | ⟨a, ha, hfs⟩
  · rw [← hc _ he]
    rfl
  · have hx := hc _ ha
    rw [← hx]
    exact hf a hx.symm s hfs

theorem agrees_foldlM {g : σ → α → Running ε σ} {g' : σ → α → Except ε σ}
    (hg : ∀ s a, (g s a).Agrees (g' s a)) (l : List α) (s : σ) :
    (l.foldlM g s).Agrees (l.foldlM g' s) := by
  induction l generalizing s with
  | nil => exact agrees_lift _
  | cons a l ih =>
      rw [List.foldlM_cons, List.foldlM_cons]
      exact agrees_bind (hg s a) fun s' _ => ih s'

end Running

end Effects
