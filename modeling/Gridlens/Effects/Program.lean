import Mathlib.Data.List.Basic
import Mathlib.Data.List.Infix

/-!
# Programs that ask the outside and leave a record

A program runs against an outside it can only ask, in a history of the
effects that came before. It returns or raises, and what it did is the list
of effects it leaves, in order. An exception keeps the effects left so far.

Ways to reason about one, none of which looks at what the effects are:

* `Post` says what holds of every normal return, of the value and of the
  effects left.
* `Wp` says that from this history every effect is allowed where it happens,
  whether or not the program raises, and what holds of a normal return.
* `Ends` says what holds of every end, an exception included.
* All three compute through a program; loops take an invariant
  (`post_foldlM`, `wp_foldlM`, `ends_foldlM`).
* `Leaves` says what every effect is like, wherever it happens.
* `forall_prefix_iff` is about a state replayed from the effects: an
  invariant holds after every one of them exactly when each step is one that
  keeps it.
-/

namespace Effects

/-- What a program does: given the outside and the effects so far, a result
and the effects it leaves. -/
def Program (Ω E ε α : Type) : Type := Ω → List E → Except ε α × List E

variable {Ω E ε α β σ : Type}

namespace Program

def pure (a : α) : Program Ω E ε α := fun _ _ => (.ok a, [])

/-- One program and then another, which sees what the first one left. -/
def bind (x : Program Ω E ε α) (f : α → Program Ω E ε β) : Program Ω E ε β := fun o h =>
  match x o h with
  | (.ok a, es) => ((f a o (h ++ es)).1, es ++ (f a o (h ++ es)).2)
  | (.error e, es) => (.error e, es)

instance : Monad (Program Ω E ε) where
  pure := pure
  bind := bind

/-- A result that leaves nothing behind. -/
def lift (x : Except ε α) : Program Ω E ε α := fun _ _ => (x, [])

/-- A reading of the outside that leaves nothing behind. -/
def ask (f : Ω → List E → α) : Program Ω E ε α := fun o h => (.ok (f o h), [])

/-- One effect, with the result it comes with. -/
def act (f : Ω → List E → Except ε α × E) : Program Ω E ε α := fun o h =>
  ((f o h).1, [(f o h).2])

section Bind

variable {x : Program Ω E ε α} {f : α → Program Ω E ε β} {o : Ω} {h es : List E}

/-- After a result the rest runs, in the history it left. -/
theorem bind_of_ok {a : α} (hx : x o h = (.ok a, es)) :
    (x >>= f) o h = ((f a o (h ++ es)).1, es ++ (f a o (h ++ es)).2) := by
  show bind x f o h = _
  unfold bind
  rw [hx]

/-- After an exception nothing runs. -/
theorem bind_of_error {e : ε} (hx : x o h = (.error e, es)) : (x >>= f) o h = (.error e, es) := by
  show bind x f o h = _
  unfold bind
  rw [hx]

theorem bind_assoc {γ : Type} (x : Program Ω E ε α) (f : α → Program Ω E ε β)
    (g : β → Program Ω E ε γ) : x >>= f >>= g = x >>= fun a => f a >>= g := by
  funext o h
  rcases hx : x o h with ⟨r, es⟩
  cases r with
  | error e => rw [bind_of_error (bind_of_error hx), bind_of_error hx]
  | ok a =>
      rcases hf : f a o (h ++ es) with ⟨r', es'⟩
      have hxf : (x >>= f) o h = (r', es ++ es') := by rw [bind_of_ok hx, hf]
      rw [bind_of_ok hx]
      cases r' with
      | error e => rw [bind_of_error hxf, bind_of_error hf]
      | ok b => rw [bind_of_ok hxf, bind_of_ok hf, List.append_assoc, List.append_assoc]

/-- What is at hand is handed on. -/
theorem lift_ok_bind (a : α) (f : α → Program Ω E ε β) : lift (.ok a) >>= f = f a := by
  funext o h
  have hlift : (lift (.ok a) : Program Ω E ε α) o h = (.ok a, []) := rfl
  rw [bind_of_ok hlift, List.append_nil, List.nil_append]

end Bind

end Program

/-! ## Normal returns -/

/-- From the history `h` the program returns `a` and leaves `es`. -/
def Returns (x : Program Ω E ε α) (o : Ω) (h : List E) (a : α) (es : List E) : Prop :=
  x o h = (.ok a, es)

section Returns

variable {x : Program Ω E ε α} {f : α → Program Ω E ε β} {o : Ω} {h es : List E} {a : α} {b : β}

@[simp] theorem returns_pure {a' : α} :
    Returns (pure a' : Program Ω E ε α) o h a es ↔ a' = a ∧ es = [] := by
  show ((.ok a', []) : Except ε α × List E) = (.ok a, es) ↔ _
  rw [Prod.mk.injEq, Except.ok.injEq, eq_comm (a := [])]

@[simp] theorem returns_lift {r : Except ε α} :
    Returns (Program.lift r : Program Ω E ε α) o h a es ↔ r = .ok a ∧ es = [] := by
  show ((r, []) : Except ε α × List E) = (.ok a, es) ↔ _
  rw [Prod.mk.injEq, eq_comm (a := [])]

@[simp] theorem returns_ask {r : Ω → List E → α} :
    Returns (Program.ask r : Program Ω E ε α) o h a es ↔ r o h = a ∧ es = [] := by
  show ((.ok (r o h), []) : Except ε α × List E) = (.ok a, es) ↔ _
  rw [Prod.mk.injEq, Except.ok.injEq, eq_comm (a := [])]

@[simp] theorem returns_act {r : Ω → List E → Except ε α × E} :
    Returns (Program.act r) o h a es ↔ (r o h).1 = .ok a ∧ es = [(r o h).2] := by
  show (((r o h).1, [(r o h).2]) : Except ε α × List E) = (.ok a, es) ↔ _
  rw [Prod.mk.injEq, eq_comm (a := [(r o h).2])]

/-- A sequence returns when both its parts do, the second one in the history
the first one left. -/
theorem returns_bind : Returns (x >>= f) o h b es ↔
    ∃ a es₁ es₂, Returns x o h a es₁ ∧ Returns (f a) o (h ++ es₁) b es₂ ∧ es = es₁ ++ es₂ := by
  show Program.bind x f o h = (.ok b, es) ↔ _
  unfold Program.bind Returns
  rcases hx : x o h with ⟨r, es₁⟩
  cases r with
  | error e => simp
  | ok a =>
      simp only [Prod.mk.injEq, Except.ok.injEq]
      constructor
      · intro ⟨hb, hes⟩
        exact ⟨a, es₁, _, ⟨rfl, rfl⟩, Prod.ext hb rfl, hes.symm⟩
      · rintro ⟨a', es₁', es₂, ⟨rfl, rfl⟩, hf, rfl⟩
        exact ⟨congrArg Prod.fst hf, congrArg (es₁ ++ ·) (congrArg Prod.snd hf)⟩

/-- A program that does not raise returns, and leaves what it leaves. -/
theorem exists_returns (hx : (x o h).1.isOk = true) : ∃ a, Returns x o h a (x o h).2 := by
  unfold Returns
  cases hr : x o h with
  | mk r es =>
      cases r with
      | ok a => exact ⟨a, rfl⟩
      | error e =>
          rw [hr] at hx
          cases hx

/-- Every normal return meets `Q`, which sees what the program left. -/
def Post (o : Ω) (x : Program Ω E ε α) (Q : α → List E → Prop) (h : List E) : Prop :=
  ∀ a es, Returns x o h a es → Q a es

variable {Q Q' : α → List E → Prop} {S : β → List E → Prop}

@[simp] theorem post_pure : Post o (pure a : Program Ω E ε α) Q h ↔ Q a [] := by
  simp [Post]

@[simp] theorem post_lift {r : Except ε α} :
    Post o (Program.lift r : Program Ω E ε α) Q h ↔ ∀ a, r = .ok a → Q a [] := by
  simp [Post]

@[simp] theorem post_ask {r : Ω → List E → α} :
    Post o (Program.ask r : Program Ω E ε α) Q h ↔ Q (r o h) [] := by
  simp [Post]

@[simp] theorem post_act {r : Ω → List E → Except ε α × E} :
    Post o (Program.act r) Q h ↔ ∀ a, (r o h).1 = .ok a → Q a [(r o h).2] := by
  simp [Post]

@[simp] theorem post_bind : Post o (x >>= f) S h ↔
    Post o x (fun a es => Post o (f a) (fun b es' => S b (es ++ es')) (h ++ es)) h := by
  constructor
  · intro hpost a es hx b es' hf
    exact hpost b (es ++ es') (returns_bind.mpr ⟨a, es, es', hx, hf, rfl⟩)
  · intro hpost b es hret
    rcases returns_bind.mp hret with ⟨a, es₁, es₂, hx, hf, rfl⟩
    exact hpost a es₁ hx b es₂ hf

theorem Post.mono (hx : Post o x Q h) (hQ : ∀ a es, Q a es → Q' a es) : Post o x Q' h :=
  fun a es hret => hQ a es (hx a es hret)

/-- A loop keeps its invariant, which sees the items done and the effects
they left. -/
theorem post_foldlM {γ : Type} {g : σ → γ → Program Ω E ε σ} {I : List γ → σ → List E → Prop}
    (hg : ∀ done c s es, I done s es →
      Post o (g s c) (fun s' es' => I (done ++ [c]) s' (es ++ es')) (h ++ es))
    (l : List γ) {s : σ} (h₀ : I [] s []) : Post o (l.foldlM g s) (I l) h := by
  suffices key : ∀ rest done s es, I done s es →
      Post o (rest.foldlM g s) (fun s' es' => I (done ++ rest) s' (es ++ es')) (h ++ es) by
    have hend := key l [] s [] h₀
    simpa using hend
  intro rest
  induction rest with
  | nil =>
      intro done s es hdone
      rw [List.foldlM_nil, post_pure]
      simpa using hdone
  | cons c rest ih =>
      intro done s es hdone
      rw [List.foldlM_cons, post_bind]
      refine (hg done c s es hdone).mono fun s' es' hstep => ?_
      have hrest := ih (done ++ [c]) s' (es ++ es') hstep
      simpa using hrest

end Returns

/-! ## Every end -/

section Ends

variable {x : Program Ω E ε α} {f : α → Program Ω E ε β} {o : Ω} {h : List E}

/-- However the program ends, `Q` holds of its result and of what it left. -/
def Ends (o : Ω) (x : Program Ω E ε α) (Q : Except ε α → List E → Prop) (h : List E) : Prop :=
  Q (x o h).1 (x o h).2

variable {Q Q' : Except ε α → List E → Prop} {S : Except ε β → List E → Prop}

@[simp] theorem ends_pure {a : α} :
    Ends o (pure a : Program Ω E ε α) Q h ↔ Q (.ok a) [] := Iff.rfl

@[simp] theorem ends_lift {r : Except ε α} :
    Ends o (Program.lift r : Program Ω E ε α) Q h ↔ Q r [] := Iff.rfl

@[simp] theorem ends_ask {r : Ω → List E → α} :
    Ends o (Program.ask r : Program Ω E ε α) Q h ↔ Q (.ok (r o h)) [] := Iff.rfl

@[simp] theorem ends_act {r : Ω → List E → Except ε α × E} :
    Ends o (Program.act r) Q h ↔ Q (r o h).1 [(r o h).2] := Iff.rfl

/-- An exception ends the sequence with what was left so far. -/
@[simp] theorem ends_bind : Ends o (x >>= f) S h ↔ Ends o x (fun r es => match r with
    | .ok a => Ends o (f a) (fun r' es' => S r' (es ++ es')) (h ++ es)
    | .error e => S (.error e) es) h := by
  show S (Program.bind x f o h).1 (Program.bind x f o h).2 ↔ _
  unfold Program.bind Ends
  cases hx : x o h with
  | mk r es => cases r <;> rfl

/-- What holds of every end holds of a normal return. -/
theorem Ends.post {P : α → List E → Prop} (hx : Ends o x Q h)
    (hQ : ∀ a es, Q (.ok a) es → P a es) : Post o x P h := by
  intro a es hreturn
  unfold Ends at hx
  rw [show x o h = (.ok a, es) from hreturn] at hx
  exact hQ a es hx

theorem Ends.mono (hx : Ends o x Q h) (hQ : ∀ r es, Q r es → Q' r es) : Ends o x Q' h :=
  hQ _ _ hx

/-- What holds of every end and what holds of a normal return may be used
together. -/
theorem Ends.and_post {P : α → List E → Prop} (hx : Ends o x Q h) (hP : Post o x P h) :
    Ends o x (fun r es => Q r es ∧ ∀ a, r = .ok a → P a es) h := by
  refine ⟨hx, fun a ha => hP a _ ?_⟩
  exact Prod.ext ha rfl

/-- A loop that runs to its end keeps its invariant; one that raises leaves
what the iteration that raised leaves. -/
theorem ends_foldlM {γ : Type} {g : σ → γ → Program Ω E ε σ} {I : List γ → List E → Prop}
    {J : List E → Prop} {l : List γ}
    (hg : ∀ done c, done ++ [c] <+: l → ∀ s es, I done es →
      Ends o (g s c) (fun r es' => match r with
        | .ok _ => I (done ++ [c]) (es ++ es')
        | .error _ => J (es ++ es')) (h ++ es))
    {s : σ} (h₀ : I [] []) :
    Ends o (l.foldlM g s) (fun r es => match r with
      | .ok _ => I l es
      | .error _ => J es) h := by
  suffices key : ∀ rest done s es, done ++ rest = l → I done es →
      Ends o (rest.foldlM g s) (fun r es' => match r with
        | .ok _ => I l (es ++ es')
        | .error _ => J (es ++ es')) (h ++ es) by
    have hend := key l [] s [] rfl h₀
    simpa using hend
  intro rest
  induction rest with
  | nil =>
      intro done s es hl hdone
      rw [List.append_nil] at hl
      rw [List.foldlM_nil, ends_pure, List.append_nil, ← hl]
      exact hdone
  | cons c rest ih =>
      intro done s es hl hdone
      rw [List.foldlM_cons, ends_bind]
      have hpre : done ++ [c] <+: l := ⟨rest, by rw [← hl]; simp⟩
      refine (hg done c hpre s es hdone).mono fun r es' hstep => ?_
      cases r with
      | error e => exact hstep
      | ok s' =>
          have hrest := ih (done ++ [c]) s' (es ++ es') (by rw [← hl]; simp) hstep
          simpa using hrest

end Ends

/-! ## Every effect -/

section Leaves

variable {x : Program Ω E ε α} {f : α → Program Ω E ε β} {P : E → Prop}

/-- Whatever the outside answers, every effect the program leaves meets `P`. -/
def Leaves (P : E → Prop) (x : Program Ω E ε α) : Prop := ∀ o h, ∀ e ∈ (x o h).2, P e

@[simp] theorem leaves_pure {a : α} : Leaves P (pure a : Program Ω E ε α) :=
  fun _ _ _ he => nomatch he

@[simp] theorem leaves_lift {r : Except ε α} : Leaves P (Program.lift r : Program Ω E ε α) :=
  fun _ _ _ he => nomatch he

@[simp] theorem leaves_ask {r : Ω → List E → α} :
    Leaves P (Program.ask r : Program Ω E ε α) := fun _ _ _ he => nomatch he

@[simp] theorem leaves_act {r : Ω → List E → Except ε α × E} :
    Leaves P (Program.act r) ↔ ∀ o h, P (r o h).2 := by
  constructor
  · exact fun hx o h => hx o h _ List.mem_cons_self
  · intro hr o h e he
    rw [List.mem_singleton.mp he]
    exact hr o h

theorem leaves_bind (hx : Leaves P x) (hf : ∀ a, Leaves P (f a)) : Leaves P (x >>= f) := by
  intro o h e he
  have hbind : (x >>= f) o h = Program.bind x f o h := rfl
  rw [hbind, Program.bind] at he
  rcases hret : x o h with ⟨r, es⟩
  rw [hret] at he
  have hes : ∀ e ∈ es, P e := fun e he => hx o h e (by rw [hret]; exact he)
  cases r with
  | error error => exact hes e he
  | ok a =>
      rcases List.mem_append.mp he with hbefore | hafter
      · exact hes e hbefore
      · exact hf a o _ e hafter

theorem leaves_foldlM {γ : Type} {g : σ → γ → Program Ω E ε σ} (hg : ∀ s c, Leaves P (g s c))
    (l : List γ) (s : σ) : Leaves P (l.foldlM g s) := by
  induction l generalizing s with
  | nil => exact leaves_pure
  | cons c l ih =>
      rw [List.foldlM_cons]
      exact leaves_bind (hg s c) ih

/-- A program that leaves nothing is stepped over. -/
theorem ends_bind_silent {o : Ω} {h : List E} {S : Except ε β → List E → Prop}
    (hx : Leaves (fun _ => False) x) (herror : ∀ error, S (.error error) [])
    (hf : ∀ a, Ends o (f a) S h) : Ends o (x >>= f) S h := by
  have hnil : (x o h).2 = [] := List.eq_nil_iff_forall_not_mem.mpr (hx o h)
  rw [ends_bind, Ends, hnil]
  cases (x o h).1 with
  | ok a => simpa using hf a
  | error error => exact herror error

/-- What holds of every effect may be used at the end. -/
theorem Ends.leaves {o : Ω} {h : List E} {Q : Except ε α → List E → Prop} (hx : Ends o x Q h)
    (hP : Leaves P x) : Ends o x (fun r es => Q r es ∧ ∀ e ∈ es, P e) h := ⟨hx, hP o h⟩

end Leaves

/-! ## Effects where they happen -/

/-- Every effect is allowed in the history it happens in. -/
def Along (R : List E → E → Prop) : List E → List E → Prop
  | _, [] => True
  | h, e :: es => R h e ∧ Along R (h ++ [e]) es

section Along

variable {R : List E → E → Prop} {h es fs : List E}

theorem along_append : Along R h (es ++ fs) ↔ Along R h es ∧ Along R (h ++ es) fs := by
  induction es generalizing h with
  | nil => simp [Along]
  | cons e es ih => simp [Along, ih, and_assoc]

theorem along_singleton {e : E} : Along R h [e] ↔ R h e := by simp [Along]

theorem along_of_forall_mem (hR : ∀ e ∈ es, ∀ h, R h e) : Along R h es := by
  induction es generalizing h with
  | nil => exact trivial
  | cons e es ih => exact ⟨hR e (by simp) h, ih fun e' he' => hR e' (List.mem_cons_of_mem e he')⟩

theorem Along.mono {R' : List E → E → Prop} (hes : Along R h es) (hR : ∀ h e, R h e → R' h e) :
    Along R' h es := by
  induction es generalizing h with
  | nil => exact trivial
  | cons e es ih => exact ⟨hR h e hes.1, ih hes.2⟩

/-- What is allowed holds at every place of the record. -/
theorem Along.at_append {e : E} {pre : List E} (hes : Along R h es) (hpre : pre ++ [e] <+: es) :
    R (h ++ pre) e := by
  rcases hpre with ⟨post, rfl⟩
  rw [List.append_assoc, along_append] at hes
  exact hes.2.1

theorem Along.at {e : E} (hes : Along R [] es) (hpre : h ++ [e] <+: es) : R h e :=
  hes.at_append hpre

end Along

/-! ## Weakest preconditions -/

/-- From the history `h` every effect is allowed where it happens, and a
normal return of `a` leaves a history that meets `Q a`. -/
def Wp (o : Ω) (R : List E → E → Prop) (x : Program Ω E ε α) (Q : α → List E → Prop)
    (h : List E) : Prop :=
  Along R h (x o h).2 ∧ ∀ a, (x o h).1 = .ok a → Q a (h ++ (x o h).2)

section Wp

variable {o : Ω} {R : List E → E → Prop} {x : Program Ω E ε α} {f : α → Program Ω E ε β}
  {Q Q' : α → List E → Prop} {S : β → List E → Prop} {h : List E}

@[simp] theorem wp_pure {a : α} : Wp o R (pure a : Program Ω E ε α) Q h ↔ Q a h := by
  show True ∧ (∀ b, (.ok a : Except ε α) = .ok b → Q b (h ++ [])) ↔ _
  simp

@[simp] theorem wp_lift {r : Except ε α} :
    Wp o R (Program.lift r : Program Ω E ε α) Q h ↔ ∀ a, r = .ok a → Q a h := by
  show True ∧ (∀ a, r = .ok a → Q a (h ++ [])) ↔ _
  simp

@[simp] theorem wp_ask {r : Ω → List E → α} :
    Wp o R (Program.ask r : Program Ω E ε α) Q h ↔ Q (r o h) h := by
  show True ∧ (∀ b, (.ok (r o h) : Except ε α) = .ok b → Q b (h ++ [])) ↔ _
  simp

@[simp] theorem wp_act {r : Ω → List E → Except ε α × E} :
    Wp o R (Program.act r) Q h ↔
      R h (r o h).2 ∧ ∀ a, (r o h).1 = .ok a → Q a (h ++ [(r o h).2]) := by
  show Along R h [(r o h).2] ∧ _ ↔ _
  rw [along_singleton]
  exact Iff.rfl

@[simp] theorem wp_bind : Wp o R (x >>= f) S h ↔ Wp o R x (fun a => Wp o R (f a) S) h := by
  show Along R h (Program.bind x f o h).2 ∧
    (∀ b, (Program.bind x f o h).1 = .ok b → S b (h ++ (Program.bind x f o h).2)) ↔ _
  unfold Program.bind Wp
  rcases x o h with ⟨r, es⟩
  cases r with
  | error e => simp
  | ok a => simp [along_append, and_assoc]

theorem Wp.mono (hx : Wp o R x Q h) (hQ : ∀ a h', Q a h' → Q' a h') : Wp o R x Q' h :=
  ⟨hx.1, fun a ha => hQ a _ (hx.2 a ha)⟩

/-- A loop keeps its invariant, when every item of the list does. -/
theorem wp_foldlM_mem {γ : Type} {g : σ → γ → Program Ω E ε σ} {I : σ → List E → Prop} {l : List γ}
    (hg : ∀ s, ∀ c ∈ l, ∀ h, I s h → Wp o R (g s c) I h) {s : σ} (hI : I s h) :
    Wp o R (l.foldlM g s) I h := by
  induction l generalizing s h with
  | nil =>
      rw [List.foldlM_nil, wp_pure]
      exact hI
  | cons c l ih =>
      rw [List.foldlM_cons, wp_bind]
      refine (hg s c List.mem_cons_self h hI).mono fun _ _ => ih fun s' c' hc' => ?_
      exact hg s' c' (List.mem_cons_of_mem c hc')

/-- A loop keeps its invariant. -/
theorem wp_foldlM {γ : Type} {g : σ → γ → Program Ω E ε σ} {I : σ → List E → Prop}
    (hg : ∀ s c h, I s h → Wp o R (g s c) I h) (l : List γ) {s : σ} (hI : I s h) :
    Wp o R (l.foldlM g s) I h := wp_foldlM_mem (fun s c _ => hg s c) hI

end Wp

/-! ## A state replayed from the record -/

/-- An invariant of the replayed state holds after every effect exactly when
every effect meets the condition under which it keeps the invariant. -/
theorem forall_prefix_iff {step : σ → E → σ} {I : σ → Prop} {C : σ → E → Prop} {s : σ}
    (hs : I s) (hC : ∀ s e, I s → (I (step s e) ↔ C s e)) (es : List E) :
    (∀ h, h <+: es → I (h.foldl step s)) ↔ ∀ h e, h ++ [e] <+: es → C (h.foldl step s) e := by
  induction es using List.reverseRecOn with
  | nil =>
      constructor
      · intro _ h e hpre
        exact absurd (List.prefix_nil.mp hpre) (by simp)
      · intro _ h hpre
        rw [List.prefix_nil.mp hpre]
        exact hs
  | append_singleton es e ih =>
      have hfold : ∀ h, (h ++ [e]).foldl step s = step (h.foldl step s) e := fun h => by simp
      constructor
      · intro hI h e' hpre
        rcases List.prefix_concat_iff.mp hpre with heq | hbefore
        · -- the last effect: the invariant holds on both sides of it
          rcases List.append_inj' heq rfl with ⟨rfl, he⟩
          cases he
          have hnow := hI _ (List.prefix_refl _)
          rw [hfold] at hnow
          exact (hC _ _ (hI h (List.prefix_append h _))).mp hnow
        · exact ih.mp (fun h' hpre' => hI h' (hpre'.trans (List.prefix_append es _))) h e' hbefore
      · intro hall h hpre
        have hall' : ∀ h, h <+: es → I (h.foldl step s) :=
          ih.mpr fun h' e' hpre' => hall h' e' (hpre'.trans (List.prefix_append es _))
        rcases List.prefix_concat_iff.mp hpre with rfl | hbefore
        · rw [hfold]
          exact (hC _ _ (hall' es (List.prefix_refl _))).mpr (hall es e (List.prefix_refl _))
        · exact hall' h hbefore

end Effects
