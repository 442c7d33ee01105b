import Mathlib.Tactic.Ring

/-!
# Numbers in a text

Numbers in a base of at most sixteen, in a field of a fixed width (`fixed`) or
as long as they are (`Nat.toDigits`). What is written is read back, and what
follows it is left (`readFixed_fixed`, `readNat_toDigits`). A `Layout` is a row
of such fields with a text behind each.
-/

namespace Text

/-! ## Digits -/

/-- The value of a hexadecimal digit, in either case. -/
def hexValue (c : Char) : Option Nat :=
  if '0' ≤ c ∧ c ≤ '9' then some (c.toNat - '0'.toNat)
  else if 'a' ≤ c ∧ c ≤ 'f' then some (c.toNat - 'a'.toNat + 10)
  else if 'A' ≤ c ∧ c ≤ 'F' then some (c.toNat - 'A'.toNat + 10)
  else none

/-- The value of a digit of the base. -/
def valueIn (base : Nat) (c : Char) : Option Nat := (hexValue c).filter (· < base)

theorem hexValue_digitChar : ∀ d < 16, hexValue d.digitChar = some d := by decide

theorem valueIn_digitChar {base d : Nat} (hbase : base ≤ 16) (hd : d < base) :
    valueIn base d.digitChar = some d := by
  unfold valueIn
  rw [hexValue_digitChar d (by omega)]
  simp [hd]

theorem printable_digitChar : ∀ d < 16, ' ' ≤ d.digitChar ∧ d.digitChar ≤ '~' := by decide

/-! ## Fields of a fixed width -/

/-- The last `width` digits of `n`, the first of them first. -/
def fixed (base : Nat) : Nat → Nat → List Char
  | 0, _ => []
  | width + 1, n => (n / base ^ width).digitChar :: fixed base width (n % base ^ width)

/-- Reads `width` digits, `n` being what those before them come to. -/
def readFixed (base : Nat) : Nat → Nat → List Char → Option (Nat × List Char)
  | 0, n, s => some (n, s)
  | _ + 1, _, [] => none
  | width + 1, n, c :: s => do
      let d ← valueIn base c
      readFixed base width (n * base + d) s

variable {base width n : Nat}

@[simp] theorem length_fixed (base width n : Nat) : (fixed base width n).length = width := by
  induction width generalizing n with
  | zero => rfl
  | succ width ih => rw [fixed, List.length_cons, ih]

/-- The first digit of a number that fits. -/
theorem first_digit (hn : n < base ^ (width + 1)) :
    0 < base ^ width ∧ n / base ^ width < base := by
  have hpow : 0 < base ^ width := by
    rcases Nat.eq_zero_or_pos (base ^ width) with hzero | hpos
    · rw [Nat.pow_succ, hzero, Nat.zero_mul] at hn
      omega
    · exact hpos
  refine ⟨hpow, ?_⟩
  rw [Nat.div_lt_iff_lt_mul hpow, Nat.mul_comm]
  exact hn

theorem readFixed_fixed (hbase : base ≤ 16) (hn : n < base ^ width) (before : Nat)
    (rest : List Char) : readFixed base width before (fixed base width n ++ rest) =
      some (before * base ^ width + n, rest) := by
  induction width generalizing n before with
  | zero =>
      have hzero : n = 0 := by simpa using hn
      simp [readFixed, fixed, hzero]
  | succ width ih =>
      rcases first_digit hn with ⟨hpow, hhead⟩
      have hdivmod := Nat.div_add_mod n (base ^ width)
      rw [fixed, List.cons_append, readFixed, valueIn_digitChar hbase hhead]
      show readFixed base width _ _ = _
      rw [ih (Nat.mod_lt n hpow)]
      congr 2
      calc (before * base + n / base ^ width) * base ^ width + n % base ^ width
          = before * base ^ (width + 1) + (base ^ width * (n / base ^ width) + n % base ^ width) := by
            ring
        _ = before * base ^ (width + 1) + n := by rw [hdivmod]

theorem printable_fixed (hbase : base ≤ 16) (hn : n < base ^ width) {c : Char}
    (hc : c ∈ fixed base width n) : ' ' ≤ c ∧ c ≤ '~' := by
  induction width generalizing n with
  | zero => exact absurd hc List.not_mem_nil
  | succ width ih =>
      rcases first_digit hn with ⟨hpow, hhead⟩
      rcases List.mem_cons.mp hc with rfl | hc
      · exact printable_digitChar _ (lt_of_lt_of_le hhead hbase)
      · exact ih (Nat.mod_lt n hpow) hc

theorem isDigit_fixed (hn : n < 10 ^ width) {c : Char} (hc : c ∈ fixed 10 width n) :
    c.isDigit = true := by
  have hdigit : ∀ d < 10, d.digitChar.isDigit = true := by decide
  induction width generalizing n with
  | zero => exact absurd hc List.not_mem_nil
  | succ width ih =>
      rcases first_digit hn with ⟨hpow, hhead⟩
      rcases List.mem_cons.mp hc with rfl | hc
      · exact hdigit _ hhead
      · exact ih (Nat.mod_lt n hpow) hc

/-! ## Rows of fields -/

/-- The width of each field, and the text behind it. -/
abbrev Layout := List (Nat × List Char)

def writeLayout (base : Nat) : Layout → List Nat → List Char
  | (width, after) :: layout, n :: ns => fixed base width n ++ after ++ writeLayout base layout ns
  | _, _ => []

/-- What is left of a text that begins with `word`. -/
def dropWord (word s : List Char) : Option (List Char) :=
  if word <+: s then some (s.drop word.length) else none

theorem dropWord_append (word rest : List Char) : dropWord word (word ++ rest) = some rest := by
  unfold dropWord
  rw [if_pos (List.prefix_append word rest), List.drop_left]

def readLayout (base : Nat) : Layout → List Char → Option (List Nat × List Char)
  | [], s => some ([], s)
  | (width, after) :: layout, s => do
      let (n, s) ← readFixed base width 0 s
      let s ← dropWord after s
      let (ns, s) ← readLayout base layout s
      some (n :: ns, s)

theorem readLayout_writeLayout (hbase : base ≤ 16) {layout : Layout} {ns : List Nat}
    (hfits : List.Forall₂ (fun field n => n < base ^ field.1) layout ns) (rest : List Char) :
    readLayout base layout (writeLayout base layout ns ++ rest) = some (ns, rest) := by
  induction hfits with
  | nil => rfl
  | @cons field n layout ns hn _ ih =>
      rcases field with ⟨width, after⟩
      rw [writeLayout, readLayout, List.append_assoc, List.append_assoc,
        readFixed_fixed hbase hn]
      simp only [Option.bind_eq_bind, Option.bind_some, dropWord_append]
      rw [ih]
      simp

/-- A row is made of digits and of the texts between them. -/
theorem mem_writeLayout {layout : Layout} {ns : List Nat}
    (hfits : List.Forall₂ (fun field n => n < 10 ^ field.1) layout ns) {c : Char}
    (hc : c ∈ writeLayout 10 layout ns) :
    c.isDigit = true ∨ ∃ field ∈ layout, c ∈ field.2 := by
  induction hfits with
  | nil => exact absurd hc List.not_mem_nil
  | @cons field n layout ns hn _ ih =>
      rcases field with ⟨width, after⟩
      rw [writeLayout, List.mem_append, List.mem_append] at hc
      rcases hc with (hdigit | hafter) | hrest
      · exact Or.inl (isDigit_fixed hn hdigit)
      · exact Or.inr ⟨(width, after), List.mem_cons_self, hafter⟩
      · rcases ih hrest with hdigit | ⟨field, hfield, hmem⟩
        · exact Or.inl hdigit
        · exact Or.inr ⟨field, List.mem_cons_of_mem _ hfield, hmem⟩

/-! ## Order

Texts compare as their characters do, the first that differs. -/

theorem digitChar_lt : ∀ d < 16, ∀ e < d, e.digitChar < d.digitChar := by decide

/-- Of two numbers in one width the smaller one comes first, whatever follows. -/
theorem fixed_lt (hbase : base ≤ 16) {m : Nat} (hmn : m < n) (hn : n < base ^ width)
    (rest rest' : List Char) : fixed base width m ++ rest < fixed base width n ++ rest' := by
  induction width generalizing m n with
  | zero =>
      rw [pow_zero] at hn
      omega
  | succ width ih =>
      rcases first_digit hn with ⟨hpow, hhead⟩
      rw [fixed, fixed, List.cons_append, List.cons_append, List.cons_lt_cons_iff]
      rcases Nat.lt_or_ge (m / base ^ width) (n / base ^ width) with hfirst | hfirst
      · exact Or.inl (digitChar_lt _ (by omega) _ hfirst)
      · have hsame : m / base ^ width = n / base ^ width :=
          Nat.le_antisymm (Nat.div_le_div_right hmn.le) hfirst
        have hm := Nat.div_add_mod m (base ^ width)
        have hn' := Nat.div_add_mod n (base ^ width)
        rw [hsame] at hm
        refine Or.inr ⟨by rw [hsame], ih ?_ (Nat.mod_lt n hpow)⟩
        omega

/-- Rows of fields compare as their numbers do. -/
theorem writeLayout_lt (hbase : base ≤ 16) {layout : Layout} {ms ns : List Nat}
    (hms : List.Forall₂ (fun field m => m < base ^ field.1) layout ms)
    (hns : List.Forall₂ (fun field n => n < base ^ field.1) layout ns) (h : ms < ns) :
    writeLayout base layout ms < writeLayout base layout ns := by
  induction hms generalizing ns with
  | nil =>
      cases hns
      exact absurd h (List.not_lt_nil [])
  | @cons field m layout ms hm _ ih =>
      rcases hns with _ | ⟨hn, hns⟩
      rename_i n ns
      rcases field with ⟨width, after⟩
      rw [writeLayout, writeLayout, List.append_assoc, List.append_assoc]
      rcases List.cons_lt_cons_iff.mp h with hlt | ⟨rfl, hrest⟩
      · exact fixed_lt hbase hlt hn _ _
      · exact List.append_left_lt (List.append_left_lt (ih hns hrest))

/-! ## Numbers as long as they are -/

/-- Reads the decimal digits in front. -/
def readNat (s : List Char) : Option (Nat × List Char) :=
  match s.takeWhile Char.isDigit with
  | [] => none
  | digits => some (Nat.ofDigitChars 10 digits 0, s.dropWhile Char.isDigit)

/-- No digit comes next. -/
def EndsDigits (rest : List Char) : Prop := ∀ c ∈ rest.head?, c.isDigit = false

theorem span_digits {digits rest : List Char} (hdigits : ∀ c ∈ digits, c.isDigit = true)
    (hrest : EndsDigits rest) : (digits ++ rest).takeWhile Char.isDigit = digits ∧
      (digits ++ rest).dropWhile Char.isDigit = rest := by
  have hnone : rest.takeWhile Char.isDigit = [] ∧ rest.dropWhile Char.isDigit = rest := by
    cases rest with
    | nil => exact ⟨rfl, rfl⟩
    | cons c rest => simp [hrest c rfl]
  rw [List.takeWhile_append_of_pos hdigits, List.dropWhile_append_of_pos hdigits, hnone.1, hnone.2,
    List.append_nil]
  exact ⟨rfl, rfl⟩

theorem isDigit_toDigits {n : Nat} {c : Char} (hc : c ∈ Nat.toDigits 10 n) : c.isDigit = true :=
  Nat.isDigit_of_mem_toDigits (by omega) (by omega) hc

theorem readNat_toDigits (n : Nat) {rest : List Char} (hrest : EndsDigits rest) :
    readNat (Nat.toDigits 10 n ++ rest) = some (n, rest) := by
  rcases span_digits (fun c hc => isDigit_toDigits hc) hrest with ⟨htake, hdrop⟩
  unfold readNat
  rw [htake, hdrop]
  split
  · rename_i hnil
    exact absurd hnil Nat.toDigits_ne_nil
  · rw [Nat.ofDigitChars_ten_toDigits]

end Text
