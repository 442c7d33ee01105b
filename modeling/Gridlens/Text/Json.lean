import Gridlens.Text.Digits

/-!
# JSON, one value a line

The part of JSON that is made of texts: nulls, strings and objects. A writer
that keeps to printable ASCII and can sort the keys of every object (`dumps`),
and a reader of whatever JSON allows there: blanks between the tokens, any
escape, a pair of surrogates for a character beyond the first plane (`loads`).
What is written is read back (`loads_dumps`), and takes one line
(`lines_ofLines`).
-/

namespace Text

/-! ## Strings -/

/-- The characters with an escape of one letter, and that letter. -/
def shortEscapes : List (Char × Char) :=
  [('"', '"'), ('\\', '\\'), ('\n', 'n'), ('\r', 'r'), ('\t', 't'), ('\x0c', 'f'), ('\x08', 'b')]

def Printable (c : Char) : Prop := ' ' ≤ c ∧ c ≤ '~'

instance (c : Char) : Decidable (Printable c) := inferInstanceAs (Decidable (_ ∧ _))

/-- A code unit of UTF-16. -/
def escapeUnit (n : Nat) : List Char := '\\' :: 'u' :: fixed 16 4 n

/-- The two surrogates of a code point beyond the first plane. -/
def highSurrogate (n : Nat) : Nat := 0xD800 + (n - 0x10000) / 0x400

def lowSurrogate (n : Nat) : Nat := 0xDC00 + (n - 0x10000) % 0x400

/-- The code point of two surrogates. -/
def joined (high low : Nat) : Nat := 0x10000 + (high - 0xD800) * 0x400 + (low - 0xDC00)

def escape (c : Char) : List Char :=
  match shortEscapes.lookup c with
  | some e => ['\\', e]
  | none =>
      if Printable c then [c]
      else if c.toNat < 0x10000 then escapeUnit c.toNat
      else escapeUnit (highSurrogate c.toNat) ++ escapeUnit (lowSurrogate c.toNat)

def quote (text : String) : List Char := '"' :: text.toList.flatMap escape ++ ['"']

/-- The letter of a short escape, or a slash, which needs none. -/
def unescape (e : Char) : Option Char :=
  if e = '/' then some '/' else (shortEscapes.map Prod.swap).lookup e

def readUnit : List Char → Option (Nat × List Char)
  | '\\' :: 'u' :: s => readFixed 16 4 0 s
  | _ => none

/-- One character of a string. A surrogate without its partner is none. -/
def readChar : List Char → Option (Char × List Char)
  | [] => none
  | '\\' :: 'u' :: s => do
      let (high, s) ← readFixed 16 4 0 s
      if 0xD800 ≤ high ∧ high < 0xDC00 then
        let (low, s) ← readUnit s
        if 0xDC00 ≤ low ∧ low < 0xE000 then
          some (Char.ofNat (joined high low), s)
        else none
      else if 0xDC00 ≤ high ∧ high < 0xE000 then none
      else some (Char.ofNat high, s)
  | '\\' :: e :: s => (unescape e).map fun c => (c, s)
  | c :: s => if ' ' ≤ c ∧ c ≠ '\\' then some (c, s) else none

/-- The characters up to the closing quote. -/
def readChars : Nat → List Char → Option (List Char × List Char)
  | 0, _ => none
  | _ + 1, '"' :: s => some ([], s)
  | n + 1, s => do
      let (c, s) ← readChar s
      let (cs, s) ← readChars n s
      some (c :: cs, s)

def readString (s : List Char) : Option (String × List Char) :=
  (readChars s.length s).map fun (cs, s) => (String.ofList cs, s)

/-! ## Values -/

inductive Json where
  | null
  | str (text : String)
  | object (fields : List (String × Json))

mutual

def Json.write : Json → List Char
  | .null => ['n', 'u', 'l', 'l']
  | .str text => quote text
  | .object fields => '{' :: writeFields [] fields ++ ['}']

/-- The fields, each but the first after `", "`. -/
def writeFields (separator : List Char) : List (String × Json) → List Char
  | [] => []
  | (name, value) :: fields =>
      separator ++ quote name ++ [':', ' '] ++ value.write ++ writeFields [',', ' '] fields

end

def isBlank (c : Char) : Bool := c = ' ' || c = '\t' || c = '\n' || c = '\r'

def skip (s : List Char) : List Char := s.dropWhile isBlank

mutual

def readValue : Nat → List Char → Option (Json × List Char)
  | 0, _ => none
  | fuel + 1, s =>
      match skip s with
      | 'n' :: 'u' :: 'l' :: 'l' :: s => some (.null, s)
      | '"' :: s => (readString s).map fun (text, s) => (.str text, s)
      | '{' :: s =>
          match skip s with
          | '}' :: s => some (.object [], s)
          | s => (readFields fuel s).map fun (fields, s) => (.object fields, s)
      | _ => none

def readFields : Nat → List Char → Option (List (String × Json) × List Char)
  | 0, _ => none
  | fuel + 1, s =>
      match skip s with
      | '"' :: s => do
          let (name, s) ← readString s
          match skip s with
          | ':' :: s => do
              let (value, s) ← readValue fuel s
              match skip s with
              | ',' :: s => do
                  let (fields, s) ← readFields fuel s
                  some ((name, value) :: fields, s)
              | '}' :: s => some ([(name, value)], s)
              | _ => none
          | _ => none
      | _ => none

end

/-- The text is one value and nothing else. -/
def loads (s : List Char) : Option Json := do
  let (value, rest) ← readValue s.length s
  if skip rest = [] then some value else none

mutual

/-- Every object in the order of its keys. -/
def Json.sortKeys : Json → Json
  | .null => .null
  | .str text => .str text
  | .object fields => .object ((sortFields fields).mergeSort fun f g => f.1 ≤ g.1)

def sortFields : List (String × Json) → List (String × Json)
  | [] => []
  | (name, value) :: fields => (name, value.sortKeys) :: sortFields fields

end

/-- `json.dumps(value, sort_keys=True)`. -/
def dumps (value : Json) : List Char := value.sortKeys.write

/-! ## What is written is read back -/

theorem escape_cases (c : Char) :
    (∃ e, escape c = ['\\', e] ∧ e ≠ 'u' ∧ unescape e = some c ∧ Printable e) ∨
      (escape c = [c] ∧ Printable c ∧ c ≠ '"' ∧ c ≠ '\\') ∨
      (escape c = escapeUnit c.toNat ∧ c.toNat < 0x10000) ∨
      (0x10000 ≤ c.toNat ∧
        escape c = escapeUnit (highSurrogate c.toNat) ++ escapeUnit (lowSurrogate c.toNat)) := by
  cases hshort : shortEscapes.lookup c with
  | some e =>
      have hall : ∀ p ∈ shortEscapes, p.2 ≠ 'u' ∧ unescape p.2 = some p.1 ∧ Printable p.2 := by
        decide
      have hmem : (c, e) ∈ shortEscapes := by
        rcases List.lookup_eq_some_iff.mp hshort with ⟨before, after, hsplit, -⟩
        rw [hsplit]
        exact List.mem_append_right _ List.mem_cons_self
      refine Or.inl ⟨e, ?_, hall _ hmem⟩
      rw [escape, hshort]
  | none =>
      rw [escape, hshort]
      simp only
      by_cases hprintable : Printable c
      · refine Or.inr (Or.inl ⟨if_pos hprintable, hprintable, ?_, ?_⟩)
        · rintro rfl
          exact absurd hshort (by decide)
        · rintro rfl
          exact absurd hshort (by decide)
      · rw [if_neg hprintable]
        by_cases hplane : c.toNat < 0x10000
        · exact Or.inr (Or.inr (Or.inl ⟨if_pos hplane, hplane⟩))
        · exact Or.inr (Or.inr (Or.inr ⟨not_lt.mp hplane, if_neg hplane⟩))

theorem readFixed_unit {n : Nat} (hn : n < 0x10000) (rest : List Char) :
    readFixed 16 4 0 (fixed 16 4 n ++ rest) = some (n, rest) := by
  have hread := @readFixed_fixed 16 4 n (by omega) (by omega) 0 rest
  rw [Nat.zero_mul, Nat.zero_add] at hread
  exact hread

theorem readUnit_escapeUnit {n : Nat} (hn : n < 0x10000) (rest : List Char) :
    readUnit (escapeUnit n ++ rest) = some (n, rest) := readFixed_unit hn rest

/-- No character is a surrogate. -/
theorem not_surrogate (c : Char) : c.toNat < 0xD800 ∨ 0xDFFF < c.toNat ∧ c.toNat < 0x110000 :=
  c.valid

theorem surrogates {n : Nat} (hplane : 0x10000 ≤ n) (hlast : n < 0x110000) :
    (0xD800 ≤ highSurrogate n ∧ highSurrogate n < 0xDC00) ∧
      (0xDC00 ≤ lowSurrogate n ∧ lowSurrogate n < 0xE000) ∧
        joined (highSurrogate n) (lowSurrogate n) = n := by
  unfold joined highSurrogate lowSurrogate
  omega

theorem readChar_pair {high low : Nat} (hhigh : 0xD800 ≤ high ∧ high < 0xDC00)
    (hlow : 0xDC00 ≤ low ∧ low < 0xE000) (rest : List Char) :
    readChar (escapeUnit high ++ (escapeUnit low ++ rest)) =
      some (Char.ofNat (joined high low), rest) := by
  show readChar ('\\' :: 'u' :: (fixed 16 4 high ++ (escapeUnit low ++ rest))) = _
  rw [readChar, readFixed_unit (by omega)]
  simp only [Option.bind_eq_bind, Option.bind_some]
  rw [if_pos hhigh, readUnit_escapeUnit (by omega)]
  simp only [Option.bind_some]
  rw [if_pos hlow]

theorem readChar_escape (c : Char) (rest : List Char) :
    readChar (escape c ++ rest) = some (c, rest) := by
  have hvalid := not_surrogate c
  rcases escape_cases c with ⟨e, heq, hu, hback, -⟩ | ⟨heq, hprintable, -, hslash⟩ |
    ⟨heq, hplane⟩ | ⟨hplane, heq⟩
  · -- a short escape; its letter is not the one of a code unit
    rw [heq]
    show readChar ('\\' :: e :: rest) = _
    rw [readChar, hback]
    · rfl
    · exact fun h => hu h
  · -- a printable character stands for itself
    rw [heq]
    show readChar (c :: rest) = _
    rw [readChar]
    · rw [if_pos ⟨hprintable.1, hslash⟩]
    · rintro s rfl
      exact absurd rfl hslash
    · rintro e s rfl
      exact absurd rfl hslash
  · -- one code unit, which is no surrogate since no character is
    rw [heq]
    show readChar ('\\' :: 'u' :: (fixed 16 4 c.toNat ++ rest)) = _
    rw [readChar, readFixed_unit hplane]
    simp only [Option.bind_eq_bind, Option.bind_some]
    rw [if_neg (by omega), if_neg (by omega), Char.ofNat_toNat]
  · -- two surrogates, joined again
    rcases surrogates hplane (by omega) with ⟨hhigh, hlow, hjoined⟩
    rw [heq, List.append_assoc, readChar_pair hhigh hlow, hjoined, Char.ofNat_toNat]

/-- No character is written as a closing quote. -/
theorem escape_ne_quote (c : Char) (s t : List Char) : escape c ++ s ≠ '"' :: t := by
  rcases escape_cases c with ⟨e, heq, -, -⟩ | ⟨heq, -, hquote, -⟩ | ⟨heq, -⟩ | ⟨-, heq⟩
  · simp [heq]
  · simp [heq, hquote]
  · simp [heq, escapeUnit]
  · simp [heq, escapeUnit]

theorem readChars_flatMap {cs : List Char} {fuel : Nat} (hfuel : cs.length < fuel)
    (rest : List Char) : readChars fuel (cs.flatMap escape ++ '"' :: rest) = some (cs, rest) := by
  induction cs generalizing fuel with
  | nil =>
      cases fuel with
      | zero => exact absurd hfuel (Nat.not_lt_zero _)
      | succ fuel => rfl
  | cons c cs ih =>
      cases fuel with
      | zero => exact absurd hfuel (Nat.not_lt_zero _)
      | succ fuel =>
          -- the scan goes on, because an escape never begins with the quote
          rw [List.flatMap_cons, List.append_assoc, readChars]
          · rw [readChar_escape]
            simp only [Option.bind_eq_bind, Option.bind_some]
            rw [ih (by simpa using hfuel)]
            rfl
          · exact fun t => escape_ne_quote c _ t

theorem length_le_flatMap_escape (cs : List Char) : cs.length ≤ (cs.flatMap escape).length := by
  induction cs with
  | nil => exact le_rfl
  | cons c cs ih =>
      -- each character takes at least one, so the length is fuel enough
      have hone : 0 < (escape c).length := by
        rcases escape_cases c with ⟨e, heq, -, -⟩ | ⟨heq, -⟩ | ⟨heq, -⟩ | ⟨-, heq⟩ <;>
          simp [heq, escapeUnit]
      rw [List.flatMap_cons, List.length_append, List.length_cons]
      omega

/-- What is left of a quoted text once its first quote is read. -/
theorem readString_quote (text : String) (rest : List Char) :
    readString (text.toList.flatMap escape ++ '"' :: rest) = some (text, rest) := by
  have hlength := length_le_flatMap_escape text.toList
  unfold readString
  rw [readChars_flatMap (by rw [List.length_append, List.length_cons]; omega)]
  simp

@[simp] theorem skip_space (s : List Char) : skip (' ' :: s) = skip s :=
  List.dropWhile_cons_of_pos rfl

theorem skip_of_head {c : Char} {s : List Char} (hc : isBlank c = false) :
    skip (c :: s) = c :: s := List.dropWhile_cons_of_neg (by simp [hc])

theorem readValue_space (fuel : Nat) (s : List Char) :
    readValue fuel (' ' :: s) = readValue fuel s := by
  cases fuel with
  | zero => rfl
  | succ fuel => rw [readValue, readValue, skip_space]

theorem readFields_space (fuel : Nat) (s : List Char) :
    readFields fuel (' ' :: s) = readFields fuel s := by
  cases fuel with
  | zero => rfl
  | succ fuel => rw [readFields, readFields, skip_space]

theorem quote_append (text : String) (s : List Char) :
    quote text ++ s = '"' :: (text.toList.flatMap escape ++ '"' :: s) := by
  simp [quote]

theorem writeFields_cons (separator : List Char) (field : String × Json)
    (fields : List (String × Json)) (s : List Char) :
    writeFields separator (field :: fields) ++ s =
      separator ++ (quote field.1 ++ ':' :: ' ' :: (field.2.write ++
        (writeFields [',', ' '] fields ++ s))) := by
  rcases field with ⟨name, value⟩
  simp [writeFields]

/-- What follows a field: the next one behind a comma. -/
theorem writeFields_comma (field : String × Json) (fields : List (String × Json))
    (s : List Char) : writeFields [',', ' '] (field :: fields) ++ s =
      ',' :: ' ' :: (writeFields [] (field :: fields) ++ s) := by
  rw [writeFields_cons, writeFields_cons]
  rfl

/-- Fuel for every character is enough for the values in them. -/
def Reads (fuel : Nat) : Prop :=
  ∀ value : Json, value.write.length ≤ fuel →
    ∀ rest, readValue fuel (value.write ++ rest) = some (value, rest)

def ReadsFields (fuel : Nat) : Prop :=
  ∀ (field : String × Json) (fields : List (String × Json)),
    (writeFields [] (field :: fields)).length ≤ fuel →
      ∀ rest, readFields fuel (writeFields [] (field :: fields) ++ '}' :: rest) =
        some (field :: fields, rest)

theorem reads_succ {fuel : Nat} (hfields : ReadsFields fuel) : Reads (fuel + 1) := by
  intro value hfuel rest
  cases value with
  | null => rfl
  | str text =>
      rw [Json.write, quote_append, readValue, skip_of_head rfl]
      simp [readString_quote]
  | object fields =>
      rw [Json.write, List.length_append, List.length_cons, List.length_singleton] at hfuel
      rw [Json.write, List.cons_append, List.cons_append, List.append_assoc, readValue,
        skip_of_head rfl]
      cases fields with
      | nil => rfl
      | cons field fields =>
          -- the braces take two of the characters, the fields have the rest
          have hread := hfields field fields (by omega) rest
          rw [writeFields_cons, List.nil_append, quote_append] at hread
          rw [writeFields_cons, List.nil_append, quote_append]
          simp only
          rw [skip_of_head rfl]
          show (readFields fuel _).map _ = _
          rw [List.singleton_append, hread]
          rfl

theorem readsFields_succ {fuel : Nat} (hvalue : Reads fuel) (hfields : ReadsFields fuel) :
    ReadsFields (fuel + 1) := by
  intro field fields hfuel rest
  rcases field with ⟨name, value⟩
  -- the value is shorter than the fields it stands in
  have hlength := congrArg List.length (writeFields_cons [] (name, value) fields [])
  rw [List.append_nil, List.append_nil, List.nil_append] at hlength
  rw [hlength, List.length_append, List.length_cons, List.length_cons, List.length_append] at hfuel
  simp only at hfuel
  rw [writeFields_cons, List.nil_append, quote_append, readFields, skip_of_head rfl]
  simp only [readString_quote, Option.bind_eq_bind, Option.bind_some]
  rw [skip_of_head rfl]
  simp only
  rw [readValue_space, hvalue value (by omega)]
  simp only [Option.bind_some]
  cases fields with
  | nil =>
      rw [writeFields, List.nil_append, skip_of_head rfl]
      rfl
  | cons field fields =>
      -- behind the comma and its blank stand fields again
      have hcomma := congrArg List.length (writeFields_comma field fields [])
      rw [List.append_nil, List.append_nil, List.length_cons, List.length_cons] at hcomma
      rw [writeFields_comma, skip_of_head rfl]
      simp only
      rw [readFields_space, hfields field fields (by omega)]
      rfl

theorem reads (fuel : Nat) : Reads fuel ∧ ReadsFields fuel := by
  induction fuel with
  | zero =>
      refine ⟨fun value hfuel => ?_, fun field fields hfuel => ?_⟩
      · cases value <;> simp [Json.write, quote] at hfuel
      · simp [writeFields, quote] at hfuel
  | succ fuel ih => exact ⟨reads_succ ih.2, readsFields_succ ih.1 ih.2⟩

/-- `loads` gives back what `dumps` wrote, its keys in order. -/
theorem loads_dumps (value : Json) : loads (dumps value) = some value.sortKeys := by
  have hread := (reads _).1 value.sortKeys le_rfl []
  rw [List.append_nil] at hread
  unfold loads dumps
  rw [hread]
  rfl

/-! ## Lines -/

theorem printable_escape {c d : Char} (hd : d ∈ escape c) : Printable d := by
  have hunit : ∀ n < 0x10000, ∀ d ∈ escapeUnit n, Printable d := by
    intro n hn d hd
    simp only [escapeUnit, List.mem_cons] at hd
    rcases hd with rfl | rfl | hd
    · decide
    · decide
    · exact printable_fixed (by omega) (by omega) hd
  have hvalid := not_surrogate c
  rcases escape_cases c with ⟨e, heq, -, -, he⟩ | ⟨heq, hprintable, -⟩ | ⟨heq, hplane⟩ |
    ⟨hplane, heq⟩
  · rw [heq] at hd
    rcases List.mem_cons.mp hd with rfl | hd
    · decide
    · rwa [List.mem_singleton.mp hd]
  · rw [heq, List.mem_singleton] at hd
    rwa [hd]
  · rw [heq] at hd
    exact hunit _ hplane d hd
  · rcases surrogates hplane (by omega) with ⟨hhigh, hlow, -⟩
    rw [heq] at hd
    rcases List.mem_append.mp hd with hd | hd
    · exact hunit _ (hhigh.2.trans (by decide)) d hd
    · exact hunit _ (hlow.2.trans (by decide)) d hd

theorem printable_quote {text : String} {d : Char} (hd : d ∈ quote text) : Printable d := by
  unfold quote at hd
  rcases List.mem_append.mp hd with hd | hd
  · rcases List.mem_cons.mp hd with rfl | hd
    · decide
    · rcases List.mem_flatMap.mp hd with ⟨c, -, hd⟩
      exact printable_escape hd
  · rw [List.mem_singleton.mp hd]
    decide

theorem printable_of_all {l : List Char} (h : (l.all fun d => decide (Printable d)) = true) :
    ∀ d ∈ l, Printable d := fun d hd => of_decide_eq_true (List.all_eq_true.mp h d hd)

mutual

theorem printable_write (value : Json) : ∀ d ∈ value.write, Printable d := by
  cases value with
  | null => exact printable_of_all rfl
  | str text => exact fun d hd => printable_quote hd
  | object fields =>
      intro d hd
      rw [Json.write] at hd
      rcases List.mem_append.mp hd with hd | hd
      · rcases List.mem_cons.mp hd with rfl | hd
        · decide
        · exact printable_writeFields fields (printable_of_all rfl) d hd
      · rw [List.mem_singleton.mp hd]
        decide

theorem printable_writeFields (fields : List (String × Json)) {separator : List Char}
    (hseparator : ∀ d ∈ separator, Printable d) :
    ∀ d ∈ writeFields separator fields, Printable d := by
  cases fields with
  | nil => exact fun d hd => absurd hd List.not_mem_nil
  | cons field fields =>
      rcases field with ⟨name, value⟩
      intro d hd
      rw [writeFields] at hd
      simp only [List.mem_append] at hd
      rcases hd with (((hd | hd) | hd) | hd) | hd
      · exact hseparator d hd
      · exact printable_quote hd
      · exact printable_of_all rfl d hd
      · exact printable_write value d hd
      · exact printable_writeFields fields (printable_of_all rfl) d hd

end

/-- The lines of a text; the last one is ended, too. -/
def lines (s : List Char) : List (List Char) := (s.splitOn '\n').dropLast

/-- Each line ended by a line feed. -/
def ofLines (ls : List (List Char)) : List Char := ls.flatMap fun l => l ++ ['\n']

theorem lines_ofLines {ls : List (List Char)} (h : ∀ l ∈ ls, '\n' ∉ l) :
    lines (ofLines ls) = ls := by
  have hsplit : (ofLines ls).splitOn '\n' = ls ++ [[]] := by
    induction ls with
    | nil => rfl
    | cons l ls ih =>
        -- the first line feed is the one that ends the line
        have hl : ∀ c ∈ l, (c == '\n') = false := by
          intro c hc
          rw [beq_eq_false_iff_ne]
          rintro rfl
          exact h l List.mem_cons_self hc
        have hshape : ofLines (l :: ls) = l ++ '\n' :: ofLines ls := by simp [ofLines]
        rw [hshape, List.splitOn_eq_splitOnP,
          List.splitOnP_append_cons_of_forall_mem hl _ (beq_self_eq_true _),
          ← List.splitOn_eq_splitOnP, ih fun l hl => h l (List.mem_cons_of_mem _ hl)]
        rfl
  rw [lines, hsplit, List.dropLast_concat]

/-- A file of lines, in UTF-8. -/
def writeLines (ls : List (List Char)) : ByteArray := (String.ofList (ofLines ls)).toByteArray

def readLines (body : ByteArray) : Option (List (List Char)) :=
  (String.fromUTF8? body).map fun text => lines text.toList

theorem readLines_writeLines {ls : List (List Char)} (h : ∀ l ∈ ls, '\n' ∉ l) :
    readLines (writeLines ls) = some ls := by
  have hdecode : ∀ s : String, String.fromUTF8? s.toByteArray = some s := by
    intro s
    unfold String.fromUTF8?
    rw [dif_pos s.isValidUTF8]
    rfl
  unfold readLines writeLines
  rw [hdecode, Option.map_some, String.toList_ofList, lines_ofLines h]

/-- Nothing that is written breaks its line. -/
theorem newline_notMem_dumps (value : Json) : '\n' ∉ dumps value := fun h =>
  absurd (printable_write _ _ h) (by decide)

/-! ## Looking a key up -/

/-- The value under a key; where a key is there twice, the last one. -/
def Json.get? (name : String) : Json → Option Json
  | .object fields => fields.reverse.lookup name
  | _ => none

theorem lookup_of_mem {α β : Type} [DecidableEq α] {l : List (α × β)} {a : α} {b : β}
    (hkeys : (l.map Prod.fst).Nodup) (hmem : (a, b) ∈ l) : l.lookup a = some b := by
  induction l with
  | nil => exact absurd hmem List.not_mem_nil
  | cons p l ih =>
      rw [List.map_cons, List.nodup_cons] at hkeys
      rcases List.mem_cons.mp hmem with rfl | hmem
      · exact List.lookup_cons_self
      · have hne : a ≠ p.1 := by
          rintro rfl
          exact hkeys.1 (List.mem_map.mpr ⟨_, hmem, rfl⟩)
        rw [List.lookup_cons, beq_false_of_ne hne]
        exact ih hkeys.2 hmem

theorem sortFields_eq (fields : List (String × Json)) :
    sortFields fields = fields.map fun f => (f.1, f.2.sortKeys) := by
  induction fields with
  | nil => rfl
  | cons f fields ih => rw [sortFields, ih, List.map_cons]

/-- The same fields, in the order of their keys. -/
theorem sortKeys_object (fields : List (String × Json)) :
    ∃ sorted, (Json.object fields).sortKeys = .object sorted ∧
      sorted.Perm (fields.map fun f => (f.1, f.2.sortKeys)) := by
  refine ⟨_, rfl, ?_⟩
  rw [← sortFields_eq]
  exact List.mergeSort_perm _ _

theorem get?_sortKeys {fields : List (String × Json)} {name : String} {value : Json}
    (hkeys : (fields.map Prod.fst).Nodup) (hmem : (name, value) ∈ fields) :
    (Json.object fields).sortKeys.get? name = some value.sortKeys := by
  rcases sortKeys_object fields with ⟨sorted, hsorted, hperm⟩
  -- sorted and read from the end, each key is there once still
  have hkept : (sorted.reverse.map Prod.fst).Nodup := by
    have hnames := ((List.reverse_perm sorted).trans hperm).map Prod.fst
    rw [List.map_map] at hnames
    exact hnames.nodup_iff.mpr hkeys
  rw [hsorted]
  refine lookup_of_mem hkept ?_
  rw [List.mem_reverse, hperm.mem_iff]
  exact List.mem_map_of_mem (f := fun f : String × Json => (f.1, f.2.sortKeys)) hmem

end Text
