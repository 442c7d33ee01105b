import Gridlens.Bitemporal.History
import Mathlib.Data.List.Basic
import Mathlib.Data.List.Chain

/-!
# The changes of a sequence of observations

`changes f l` keeps the first observation of `l` and each one whose `f`
differs from that of the observation just before it: the run-length
compression of `l` under `f`. What an observation is compared with is its
predecessor in `l`, kept or not.

Read as histories, the changes answer every instant like the observations do
exactly when an observation that repeats its predecessor under `f` also
repeats the attribute that is read (`agrees_changes_iff`).
-/

namespace Bitemporal

variable {α : Type*} {β : Type*} [DecidableEq β]

/-- The changes of `l` after an observation that showed `p`. -/
def changesFrom (f : α → β) : Option β → List α → List α
  | _, [] => []
  | p, a :: l => if p = some (f a) then changesFrom f (some (f a)) l
      else a :: changesFrom f (some (f a)) l

/-- The observations at which `f` changes, the first one included. -/
def changes (f : α → β) (l : List α) : List α := changesFrom f none l

/-- What the last observation of `l` shows, or `p` where there is none. -/
def lastShown (f : α → β) (p : Option β) (l : List α) : Option β :=
  (l.getLast?.map f).or p

omit [DecidableEq β] in
theorem lastShown_cons (f : α → β) (p : Option β) (a : α) (l : List α) :
    lastShown f p (a :: l) = lastShown f (some (f a)) l := by
  unfold lastShown
  rw [List.getLast?_cons]
  cases l.getLast? <;> rfl

theorem changesFrom_sublist (f : α → β) (p : Option β) (l : List α) :
    (changesFrom f p l).Sublist l := by
  induction l generalizing p with
  | nil => exact List.Sublist.slnil
  | cons a l ih =>
      unfold changesFrom
      split
      · exact (ih _).cons a
      · exact (ih _).cons_cons a

theorem changes_sublist (f : α → β) (l : List α) : (changes f l).Sublist l :=
  changesFrom_sublist f none l

theorem changesFrom_concat (f : α → β) (p : Option β) (l : List α) (a : α) :
    changesFrom f p (l ++ [a]) =
      changesFrom f p l ++ if lastShown f p l = some (f a) then [] else [a] := by
  induction l generalizing p with
  | nil =>
      have hp : lastShown f p [] = p := rfl
      rw [hp]
      rfl
  | cons b l ih =>
      rw [lastShown_cons, List.cons_append, changesFrom, changesFrom, ih]
      split <;> simp

/-- A new observation is a change when it differs from the last one. -/
theorem changes_concat (f : α → β) (l : List α) (a : α) :
    changes f (l ++ [a]) =
      changes f l ++ if l.getLast?.map f = some (f a) then [] else [a] := by
  have h := changesFrom_concat f none l a
  unfold lastShown at h
  rw [Option.or_none] at h
  exact h

/-- The last change shows what the last observation shows. -/
theorem getLast?_changes (f : α → β) (l : List α) :
    (changes f l).getLast?.map f = l.getLast?.map f := by
  induction l using List.reverseRecOn with
  | nil => rfl
  | append_singleton l a ih =>
      rw [changes_concat]
      split
      · rename_i h
        rw [List.append_nil, ih, h, List.getLast?_concat]
        rfl
      · simp

/-- No two consecutive changes show the same. -/
theorem isChain_changes (f : α → β) (l : List α) :
    (changes f l).IsChain fun a b => f a ≠ f b := by
  induction l using List.reverseRecOn with
  | nil => exact List.IsChain.nil
  | append_singleton l a ih =>
      rw [changes_concat]
      split
      · rw [List.append_nil]
        exact ih
      · rename_i h
        rw [List.isChain_append]
        refine ⟨ih, List.isChain_singleton a, ?_⟩
        intro x hx y hy
        rw [List.head?_cons, Option.mem_some_iff] at hy
        rw [← hy]
        intro heq
        apply h
        rw [← getLast?_changes, Option.mem_def.mp hx, Option.map_some, heq]

/-! ## Reading the changes instead of the observations -/

section Agreement

variable {γ : Type*} {τ : Type*} [LinearOrder τ] {known : α → τ} {attr : α → γ} {f : α → β}
variable {l : List α}

omit [DecidableEq β] in
theorem identified_of_pairwise (hl : l.Pairwise fun a b => known a < known b) :
    Identified known {v | v ∈ l} := by
  intro v hv w hw h
  by_contra hne
  have hdistinct : l.Pairwise fun a b => known a ≠ known b := hl.imp fun hlt => hlt.ne
  have : Std.Symm fun a b : α => known a ≠ known b := ⟨fun _ _ hab => hab.symm⟩
  exact hdistinct.forall hv hw hne h

omit [DecidableEq β] [LinearOrder τ] in
theorem setOf_mem_concat (l : List α) (s : α) : {v | v ∈ l ++ [s]} = insert s {v | v ∈ l} := by
  ext v
  simp [or_comm]

/-- The last observation is the newest. -/
theorem newest_getLast (hl : l.Pairwise fun a b => known a < known b) {a : α}
    (ha : l.getLast? = some a) : Newest known {v | v ∈ l} a := by
  refine ⟨List.mem_of_getLast? ha, fun w hw => ?_⟩
  rcases List.getLast?_eq_some_iff.mp ha with ⟨l', hl'⟩
  have hw' : w ∈ l' ++ [a] := hl' ▸ hw
  rcases List.mem_append.mp hw' with hw' | hw'
  · rw [hl'] at hl
    exact ((List.pairwise_append.mp hl).2.2 w hw' a (List.mem_singleton_self a)).le
  · rw [List.mem_singleton.mp hw']

/-- The changes under `f` answer like all observations exactly when equal
neighbours under `f` also agree on `attr`. -/
theorem agrees_changes_iff (hl : l.Pairwise fun a b => known a < known b) :
    Agrees known attr {v | v ∈ changes f l} {v | v ∈ l} ↔
      l.IsChain fun a b => f a = f b → attr a = attr b := by
  induction l using List.reverseRecOn with
  | nil => exact ⟨fun _ => List.IsChain.nil, fun _ => Agrees.refl known attr _⟩
  | append_singleton l s ih =>
      rcases List.pairwise_append.mp hl with ⟨hl', -, hlast⟩
      have hbefore : ∀ w ∈ {v | v ∈ l}, known w < known s := fun w hw =>
        hlast w hw s (List.mem_singleton_self s)
      have hsub : {v | v ∈ changes f l} ⊆ {v | v ∈ l} := fun v hv =>
        (changes_sublist f l).subset hv
      have hfin : {v | v ∈ l}.Finite := List.finite_toSet l
      have hid := identified_of_pairwise hl'
      have hfresh : ∀ w ∈ {v | v ∈ l}, known w ≠ known s := fun w hw => (hbefore w hw).ne
      have hchain : (l ++ [s]).IsChain (fun a b => f a = f b → attr a = attr b) ↔
          l.IsChain (fun a b => f a = f b → attr a = attr b) ∧
            ∀ a, l.getLast? = some a → f a = f s → attr a = attr s := by
        rw [List.isChain_append]
        simp
      rw [changes_concat, setOf_mem_concat, hchain, ← ih hl']
      by_cases hrep : l.getLast?.map f = some (f s)
      · -- dropped: the histories must already answer with what `s` shows
        rw [if_pos hrep, List.append_nil]
        rcases Option.map_eq_some_iff.mp hrep with ⟨a, ha, hfa⟩
        have hforce := (newest_getLast hl' ha).inForce (hbefore a (List.mem_of_getLast? ha)).le
        constructor
        · intro h
          have hprev : Agrees known attr {v | v ∈ changes f l} {v | v ∈ l} := by
            apply agrees_of_forall_lt hfin hsub hbefore
            intro t ht b
            rw [h t b]
            simp only [inForce_insert_of_lt ht]
          refine ⟨hprev, fun a' ha' _ => ?_⟩
          rcases (agrees_insert_right_iff hsub hid hfresh hprev).mp h with ⟨v, hv, hattr⟩
          rw [ha] at ha'
          cases ha'
          rw [← hattr, hprev.attr_eq hid hv hforce]
        · intro ⟨hprev, hattr⟩
          rw [agrees_insert_right_iff hsub hid hfresh hprev, ← hattr a ha hfa]
          exact (hprev (known s) (attr a)).mpr ⟨a, hforce, rfl⟩
      · -- kept: nothing follows `s`, so both answer with it from then on
        rw [if_neg hrep, setOf_mem_concat]
        have hvacuous : ∀ a, l.getLast? = some a → f a = f s → attr a = attr s := by
          intro a ha hfa
          rw [ha, Option.map_some, hfa] at hrep
          exact absurd rfl hrep
        rw [and_iff_left hvacuous]
        constructor
        · intro h
          apply agrees_of_forall_lt hfin hsub hbefore
          intro t ht b
          have ht' := h t b
          simp only [inForce_insert_of_lt ht] at ht'
          exact ht'
        · intro hprev
          rw [agrees_insert_both_iff hfin hsub hid hfresh hprev]
          intro o ho hso
          exact absurd hso (not_lt.mpr (hbefore o ho).le)

end Agreement

end Bitemporal
