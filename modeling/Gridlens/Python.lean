import Mathlib.Algebra.Order.Ring.Int
import Mathlib.Data.List.Forall2

/-!
# Python values and exceptions

The parts of the standard library the code leans on: `Decimal`, `datetime`
with an optional offset, the exceptions the code raises, and the element tree
of an XML document. Times are counted in microseconds from the midnight that
opens ordinal 0, so the date with ordinal `n` starts at `n * DAY`.

Reading text (`int`, `Decimal`, `datetime.fromisoformat`, `date.fromisoformat`)
is a parameter, `Readers`: what the code does with a reading never depends on
how it was spelled.
-/

namespace Gridlens

/-! ## Time units, in microseconds -/

abbrev SECOND : Int := 1000000
abbrev MINUTE : Int := 60 * SECOND
abbrev HOUR : Int := 60 * MINUTE
abbrev DAY : Int := 24 * HOUR

theorem HOUR_eq : HOUR = 3600000000 := rfl

theorem DAY_eq : DAY = 86400000000 := rfl

/-- `date.max.toordinal()`. -/
abbrev MAX_ORDINAL : Int := 3652059

/-! ## `Decimal` -/

/-- A `decimal.Decimal`: sign, digits and exponent, or one of the specials. -/
inductive Decimal where
  | finite (negative : Bool) (digits : Nat) (exponent : Int)
  | infinite (negative : Bool)
  | nan
deriving DecidableEq, Repr

/-- `d > n` on the digits and exponent of a finite decimal that is not negative. -/
def exceeds (digits : Nat) (exponent : Int) (n : Nat) : Bool :=
  n * 10 ^ (-exponent).toNat < digits * 10 ^ exponent.toNat

/-! ## Dates and times -/

/-- A `datetime.date`. -/
structure Date where
  ordinal : Int
  inRange : 1 ≤ ordinal ∧ ordinal ≤ MAX_ORDINAL
deriving DecidableEq, Repr

theorem date_eq_iff {day day' : Date} : day = day' ↔ day.ordinal = day'.ordinal := by
  cases day
  cases day'
  rw [Date.mk.injEq]

/-- A wall-clock reading between year 1 and year 9999. -/
abbrev WallInRange (wall : Int) : Prop := DAY ≤ wall ∧ wall < (MAX_ORDINAL + 1) * DAY

/-- A `datetime` in UTC. -/
structure Instant where
  micros : Int
  inRange : WallInRange micros
deriving DecidableEq, Repr

/-- A `datetime`: the wall-clock reading, and `utcoffset()` where it is aware. -/
structure DateTime where
  wall : Int
  utcoffset : Option Int
  inRange : WallInRange wall
deriving DecidableEq, Repr

/-! ## Exceptions -/

/-- The exception classes the code raises or catches. -/
inductive Exc where
  | ValueError | AmbiguousLocalTime | OverflowError | KeyError | ParseError | InvalidOperation
  | TypeError | AttributeError | MemoryError | Overflow
  | RuntimeError | BronzeLoadFailed | AuditFailed | DeliveryFailed | BufferError | IndexError
  | GapQueryFailed | QueryFailed
  | EntsoeNoData | EntsoeAuthError | EntsoeRejected | EntsoeUnavailable | RateLimited | ClientError
  | RteError | RteAuthError | RteNoApplication | RteUnavailable | TransportError
  | WireFormatError | StructError | EOFError
  | Exception
deriving DecidableEq, Repr

/-- One part of a formatted message: literal text, or a value set in it. -/
inductive Piece where
  | text (s : String)
  | str (s : String)
  | repr (s : String)
  | int (n : Int)
  | ints (l : List Int)
  | isoformat (wall : Int) (utcoffset : Option Int)
  | timedelta (micros : Int)
  | decimal (d : Decimal)
  | none
deriving DecidableEq, Repr

/-- An exception with its message. -/
structure PyError where
  kind : Exc
  message : List Piece
deriving DecidableEq, Repr

/-- What a function returns, or the exception it raises. -/
abbrev Py (α : Type) := Except PyError α

/-- `raise kind(message)`. -/
def raise {α : Type} (kind : Exc) (message : List Piece) : Py α := .error ⟨kind, message⟩

theorem ok_bind {α β : Type} (a : α) (f : α → Py β) : ((.ok a : Py α) >>= f) = f a := rfl

theorem toOption_iff {α : Type} {x : Py α} {a : α} : x.toOption = some a ↔ x = .ok a := by
  cases x <;> simp [Except.toOption]

theorem some_bind {α β : Type} {x : Option α} {a : α} (h : x = some a) (f : α → Option β) :
    (x >>= f) = f a := by
  rw [h]
  rfl

/-- What a sequence of steps returns, its steps returned. -/
theorem bind_eq_ok {α β : Type} {x : Py α} {f : α → Py β} {b : β} :
    (x >>= f) = .ok b ↔ ∃ a, x = .ok a ∧ f a = .ok b := by
  cases x with
  | error e => simp [bind, Except.bind]
  | ok a => simp [bind, Except.bind]

/-- A loop that returns keeps what the iterations over its items keep. -/
theorem foldlM_ok_of_mem {α σ : Type} {f : σ → α → Py σ} {P : σ → Prop} {l : List α}
    (hf : ∀ s, ∀ a ∈ l, ∀ s', P s → f s a = .ok s' → P s') {s s' : σ} (hs : P s)
    (h : l.foldlM f s = .ok s') : P s' := by
  induction l generalizing s with
  | nil =>
      cases h
      exact hs
  | cons a l ih =>
      rw [List.foldlM_cons, bind_eq_ok] at h
      rcases h with ⟨s₁, hstep, hrest⟩
      exact ih (fun s b hb => hf s b (List.mem_cons_of_mem a hb))
        (hf s a List.mem_cons_self s₁ hs hstep) hrest

/-- A loop that returns keeps what each iteration keeps. -/
theorem foldlM_ok {α σ : Type} {f : σ → α → Py σ} {P : σ → Prop}
    (hf : ∀ s a s', P s → f s a = .ok s' → P s') {l : List α} {s s' : σ} (hs : P s)
    (h : l.foldlM f s = .ok s') : P s' :=
  foldlM_ok_of_mem (fun s a _ s' => hf s a s') hs h

/-- A loop that extends a list at the items `p` picks, and nowhere else. -/
theorem foldlM_extends {α β σ : Type} {f : σ → α → Py σ} {g : σ → List β} {p : α → Bool}
    {R : α → List β → Prop}
    (hf : ∀ s a s', f s a = .ok s' →
      if p a then ∃ bs, R a bs ∧ g s' = g s ++ bs else g s' = g s)
    {l : List α} {s s' : σ} (h : l.foldlM f s = .ok s') :
    ∃ bss, List.Forall₂ R (l.filter p) bss ∧ g s' = g s ++ bss.flatten := by
  induction l generalizing s with
  | nil =>
      cases h
      exact ⟨[], List.Forall₂.nil, by simp⟩
  | cons a l ih =>
      rw [List.foldlM_cons, bind_eq_ok] at h
      rcases h with ⟨s₁, hstep, hrest⟩
      rcases ih hrest with ⟨bss, hbss, hg⟩
      have hone := hf s a s₁ hstep
      by_cases hp : p a = true
      · rw [if_pos hp] at hone
        rcases hone with ⟨bs, hbs, hs₁⟩
        refine ⟨bs :: bss, ?_, by rw [hg, hs₁, List.flatten_cons, List.append_assoc]⟩
        rw [List.filter_cons_of_pos hp]
        exact List.Forall₂.cons hbs hbss
      · rw [if_neg hp] at hone
        rw [List.filter_cons_of_neg hp]
        exact ⟨bss, hbss, by rw [hg, hone]⟩

/-- A loop that extends a list at every item. -/
theorem foldlM_appends {α β σ : Type} {f : σ → α → Py σ} {g : σ → List β} {R : α → List β → Prop}
    (hf : ∀ s a s', f s a = .ok s' → ∃ bs, R a bs ∧ g s' = g s ++ bs) {l : List α} {s s' : σ}
    (h : l.foldlM f s = .ok s') :
    ∃ bss, List.Forall₂ R l bss ∧ g s' = g s ++ bss.flatten := by
  have hall := foldlM_extends (g := g) (p := fun _ => true) (R := R)
    (fun s a s' hstep => by rw [if_pos rfl]; exact hf s a s' hstep) h
  rwa [List.filter_true] at hall

/-- A step for each item returns what each of them returns. -/
theorem mapM_eq_ok {α β : Type} {f : α → Py β} {l : List α} {bs : List β} :
    l.mapM f = .ok bs ↔ List.Forall₂ (fun a b => f a = .ok b) l bs := by
  induction l generalizing bs with
  | nil =>
      rw [List.mapM_nil, List.forall₂_nil_left_iff]
      constructor
      · intro h
        cases h
        rfl
      · intro h
        rw [h]
        rfl
  | cons a l ih =>
      rw [List.mapM_cons, bind_eq_ok]
      constructor
      · intro ⟨b, hb, hrest⟩
        rcases bind_eq_ok.mp hrest with ⟨bs', hbs', heq⟩
        cases heq
        exact List.Forall₂.cons hb (ih.mp hbs')
      · intro h
        cases h with
        | cons hb hrest => exact ⟨_, hb, bind_eq_ok.mpr ⟨_, ih.mpr hrest, rfl⟩⟩

/-- And nothing else. -/
theorem mem_of_forall₂_ok {α β : Type} {f : α → Py β} {l : List α} {bs : List β}
    (h : List.Forall₂ (fun a b => f a = .ok b) l bs) {b : β} :
    b ∈ bs ↔ ∃ a ∈ l, f a = .ok b := by
  induction h with
  | nil => simp
  | @cons a b' l bs hb _ ih =>
      rw [List.mem_cons, ih]
      constructor
      · rintro (rfl | ⟨a', ha', hb'⟩)
        · exact ⟨a, List.mem_cons_self, hb⟩
        · exact ⟨a', List.mem_cons_of_mem a ha', hb'⟩
      · intro ⟨a', ha', hb'⟩
        rcases List.mem_cons.mp ha' with rfl | ha'
        · rw [hb] at hb'
          cases hb'
          exact Or.inl rfl
        · exact Or.inr ⟨a', ha', hb'⟩

/-- Each item has its own among them. -/
theorem exists_of_forall₂_ok {α β : Type} {f : α → Py β} {l : List α} {bs : List β}
    (h : List.Forall₂ (fun a b => f a = .ok b) l bs) {a : α} (ha : a ∈ l) :
    ∃ b ∈ bs, f a = .ok b := by
  induction h with
  | nil => cases ha
  | @cons a' b l bs hb _ ih =>
      rcases List.mem_cons.mp ha with rfl | ha
      · exact ⟨b, List.mem_cons_self, hb⟩
      · rcases ih ha with ⟨b', hmem, hb'⟩
        exact ⟨b', List.mem_cons_of_mem b hmem, hb'⟩

theorem exists_of_mem_right {α β : Type} {R : α → β → Prop} {l : List α} {bs : List β}
    (h : List.Forall₂ R l bs) {b : β} (hb : b ∈ bs) : ∃ a ∈ l, R a b := by
  induction h with
  | nil => cases hb
  | @cons a b' l bs hone _ ih =>
      rcases List.mem_cons.mp hb with rfl | hb
      · exact ⟨a, List.mem_cons_self, hone⟩
      · rcases ih hb with ⟨a', hmem, ha'⟩
        exact ⟨a', List.mem_cons_of_mem a hmem, ha'⟩

theorem exists_of_mem_left {α β : Type} {R : α → β → Prop} {l : List α} {bs : List β}
    (h : List.Forall₂ R l bs) {a : α} (ha : a ∈ l) : ∃ b ∈ bs, R a b :=
  exists_of_mem_right (R := flip R) (List.Forall₂.flip h) ha

theorem forall₂_comp {α β γ : Type} {R : α → β → Prop} {S : β → γ → Prop} {l : List α}
    {m : List β} {n : List γ} (h : List.Forall₂ R l m) (h' : List.Forall₂ S m n) :
    List.Forall₂ (fun a c => ∃ b, R a b ∧ S b c) l n := by
  induction h generalizing n with
  | nil =>
      cases h'
      exact List.Forall₂.nil
  | cons hone _ ih =>
      rcases List.forall₂_cons_left_iff.mp h' with ⟨c, n, hc, hrest, rfl⟩
      exact List.Forall₂.cons ⟨_, hone, hc⟩ (ih hrest)

/-! ## Arithmetic on dates -/

@[ext] theorem Instant.ext {a b : Instant} (h : a.micros = b.micros) : a = b := by
  cases a
  cases b
  simp_all

/-- A date from its ordinal, as arithmetic on dates makes one. -/
def Date.ofOrdinal (n : Int) : Py Date :=
  if h : 1 ≤ n ∧ n ≤ MAX_ORDINAL then .ok ⟨n, h⟩
  else raise .OverflowError [.text "date value out of range"]

/-- `day + timedelta(days=n)`. -/
def Date.addDays (day : Date) (n : Int) : Py Date := Date.ofOrdinal (day.ordinal + n)

/-- A UTC datetime from its microseconds, as arithmetic on datetimes makes one. -/
def Instant.ofMicros (micros : Int) : Py Instant :=
  if h : WallInRange micros then .ok ⟨micros, h⟩
  else raise .OverflowError [.text "date value out of range"]

/-- A UTC datetime as a `datetime` with offset zero. -/
def Instant.toDateTime (u : Instant) : DateTime := ⟨u.micros, some 0, u.inRange⟩

theorem Date.ofOrdinal_ok {n : Int} {d : Date} (h : Date.ofOrdinal n = .ok d) : d.ordinal = n := by
  unfold Date.ofOrdinal at h
  split at h
  · cases h
    rfl
  · cases h

theorem Instant.ofMicros_ok {n : Int} {u : Instant} (h : Instant.ofMicros n = .ok u) :
    u.micros = n := by
  unfold Instant.ofMicros at h
  split at h
  · cases h
    rfl
  · cases h

/-! ## Text and markup -/

/-- The characters `str.strip` removes. -/
def isSpace (c : Char) : Bool :=
  let n := c.toNat
  (9 ≤ n && n ≤ 13) || (28 ≤ n && n ≤ 32) || n == 0x85 || n == 0xA0 || n == 0x1680 ||
    (0x2000 ≤ n && n ≤ 0x200A) || n == 0x2028 || n == 0x2029 || n == 0x202F || n == 0x205F ||
    n == 0x3000

/-- `text.strip()`. -/
def strip (text : String) : String :=
  String.ofList ((text.toList.dropWhile isSpace).reverse.dropWhile isSpace).reverse

/-- An element of a parsed document: `tag`, `text` and child elements. -/
inductive Element where
  | mk (tag : String) (text : Option String) (children : List Element)

def Element.tag : Element → String
  | .mk tag _ _ => tag

/-- `(node.text or "").strip()`. -/
def Element.stripped : Element → String
  | .mk _ text _ => strip (text.getD "")

def Element.children : Element → List Element
  | .mk _ _ children => children

/-- How the standard library reads text. Each reading raises on text it does
not accept. -/
structure Readers where
  int : String → Py Int
  decimal : String → Py Decimal
  datetime : String → Py DateTime
  date : String → Py Date

end Gridlens
