import Gridlens.Decimals
import Gridlens.Text.Digits

/-!
# Numbers as text

`str` of an integer and of a `Decimal`, and how such texts are read. A decimal
is written with the point among its digits, or in scientific notation where
the point would be far from them; either way it is read back with the digits
and the exponent it has (`ofText_str`).
-/

namespace Gridlens

open Text

/-! ## Integers -/

/-- `str(n)`. -/
def strInt (n : Int) : List Char :=
  if n < 0 then '-' :: Nat.toDigits 10 n.natAbs else Nat.toDigits 10 n.natAbs

/-- `"%+d" % n`. -/
def signedInt (n : Int) : List Char :=
  (if n < 0 then '-' else '+') :: Nat.toDigits 10 n.natAbs

def readSign : List Char → Bool × List Char
  | '-' :: s => (true, s)
  | '+' :: s => (false, s)
  | s => (false, s)

def readInt (s : List Char) : Option Int :=
  match readSign s with
  | (negative, s) =>
      match readNat s with
      | some (n, []) => some (if negative then -n else n)
      | _ => none

/-! ## Decimals -/

/-- What stands before the point, so many of the digits. -/
def intpart (ints : List Char) (dotplace : Int) : List Char :=
  if dotplace ≤ 0 then ['0']
  else if dotplace ≥ ints.length then
    ints ++ List.replicate (dotplace - ints.length).toNat '0'
  else ints.take dotplace.toNat

/-- The point and what stands behind it. -/
def fracpart (ints : List Char) (dotplace : Int) : List Char :=
  if dotplace ≤ 0 then '.' :: (List.replicate (-dotplace).toNat '0' ++ ints)
  else if dotplace ≥ ints.length then []
  else '.' :: ints.drop dotplace.toNat

/-- `str(value)`. -/
def Decimal.str : Decimal → List Char
  | .finite negative digits exponent =>
      let ints := Nat.toDigits 10 digits
      let leftdigits := exponent + ints.length
      -- among the digits, or else behind the first of them
      let dotplace := if exponent ≤ 0 ∧ leftdigits > -6 then leftdigits else 1
      let exp := if leftdigits = dotplace then [] else 'E' :: signedInt (leftdigits - dotplace)
      (if negative then ['-'] else []) ++ intpart ints dotplace ++ fracpart ints dotplace ++ exp
  | .infinite negative => (if negative then ['-'] else []) ++ "Infinity".toList
  | .nan => "NaN".toList

/-- The exponent behind a number, if there is one. -/
def readExponent : List Char → Option Int
  | [] => some 0
  | e :: s => if e = 'E' ∨ e = 'e' then readInt s else none

/-- The digits behind a point, if there is one, and the rest. -/
def readFraction : List Char → List Char × List Char
  | '.' :: s => (s.takeWhile Char.isDigit, s.dropWhile Char.isDigit)
  | s => ([], s)

/-- A finite decimal with the digits and the exponent its text has. -/
def Decimal.ofText (text : List Char) : Option Decimal :=
  match readSign text with
  | (negative, s) =>
      match readFraction (s.dropWhile Char.isDigit) with
      | (fraction, rest) =>
          if s.takeWhile Char.isDigit ++ fraction = [] then none
          else (readExponent rest).map fun exponent =>
            .finite negative (Nat.ofDigitChars 10 (s.takeWhile Char.isDigit ++ fraction) 0)
              (exponent - fraction.length)

/-! ## What is written is read back -/

theorem readSign_of_digit {c : Char} {s : List Char} (hc : c.isDigit = true) :
    readSign (c :: s) = (false, c :: s) := by
  unfold readSign
  split
  · rename_i heq
    cases heq
    exact absurd hc (by decide)
  · rename_i heq
    cases heq
    exact absurd hc (by decide)
  · rfl

theorem readNat_end (n : Nat) : readNat (Nat.toDigits 10 n) = some (n, []) := by
  have hends : EndsDigits [] := fun c hc => by cases hc
  have hread := readNat_toDigits n hends
  rwa [List.append_nil] at hread

theorem readInt_signedInt (n : Int) : readInt (signedInt n) = some n := by
  unfold readInt signedInt
  by_cases hn : n < 0
  · rw [if_pos hn]
    simp only [readSign, readNat_end, if_true]
    congr 1
    omega
  · rw [if_neg hn]
    simp only [readSign, readNat_end, Bool.false_eq_true, if_false]
    congr 1
    omega

theorem readInt_strInt (n : Int) : readInt (strInt n) = some n := by
  unfold readInt strInt
  by_cases hn : n < 0
  · rw [if_pos hn]
    simp only [readSign, readNat_end, if_true]
    congr 1
    omega
  · rw [if_neg hn]
    cases hdigits : Nat.toDigits 10 n.natAbs with
    | nil => exact absurd hdigits Nat.toDigits_ne_nil
    | cons c s =>
        -- no sign: the first character is a digit
        have hc : c.isDigit = true :=
          isDigit_toDigits (n := n.natAbs) (by rw [hdigits]; exact List.mem_cons_self)
        rw [readSign_of_digit hc, ← hdigits]
        simp only [readNat_end, Bool.false_eq_true, if_false]
        congr 1
        omega

section Parts

variable (negative : Bool) {ints fraction : List Char} (e : Int)

/-- The sign in front of a number, the point before a fraction, and the
exponent behind them. -/
def signText : List Char := if negative then ['-'] else []

def pointText (fraction : List Char) : List Char := if fraction = [] then [] else '.' :: fraction

def exponentText : List Char := if e = 0 then [] else 'E' :: signedInt e

theorem endsDigits_exponentText : EndsDigits (exponentText e) := by
  unfold exponentText
  split
  · exact fun c hc => by cases hc
  · intro c hc
    cases hc
    rfl

theorem readExponent_exponentText : readExponent (exponentText e) = some e := by
  unfold exponentText
  split
  · rename_i hzero
    rw [hzero]
    rfl
  · rw [readExponent, if_pos (Or.inl rfl), readInt_signedInt]

theorem readFraction_pointText (hfraction : ∀ c ∈ fraction, c.isDigit = true) :
    readFraction (pointText fraction ++ exponentText e) = (fraction, exponentText e) := by
  unfold pointText
  split
  · rename_i hnil
    rw [hnil, List.nil_append]
    unfold exponentText
    split
    · rfl
    · rfl
  · rcases span_digits hfraction (endsDigits_exponentText e) with ⟨htake, hdrop⟩
    rw [List.cons_append, readFraction, htake, hdrop]

theorem ofText_parts (hints : ∀ c ∈ ints, c.isDigit = true) (hsome : ints ≠ [])
    (hfraction : ∀ c ∈ fraction, c.isDigit = true) :
    Decimal.ofText (signText negative ++ ints ++ pointText fraction ++ exponentText e) =
      some (.finite negative (Nat.ofDigitChars 10 (ints ++ fraction) 0) (e - fraction.length)) := by
  -- what follows the digits begins with a point, an E, or not at all
  have hends : EndsDigits (pointText fraction ++ exponentText e) := by
    unfold pointText
    split
    · exact endsDigits_exponentText e
    · intro c hc
      cases hc
      rfl
  have hsign : readSign (signText negative ++ (ints ++ (pointText fraction ++ exponentText e))) =
      (negative, ints ++ (pointText fraction ++ exponentText e)) := by
    cases ints with
    | nil => exact absurd rfl hsome
    | cons c ints =>
        unfold signText
        cases negative with
        | true => rfl
        | false => exact readSign_of_digit (hints c List.mem_cons_self)
  rcases span_digits hints hends with ⟨htake, hdrop⟩
  rw [List.append_assoc, List.append_assoc]
  unfold Decimal.ofText
  rw [hsign]
  simp only
  rw [htake, hdrop, readFraction_pointText e hfraction]
  simp only
  rw [if_neg (by simp [hsome]), readExponent_exponentText, Option.map_some]

end Parts

/-- However the digits are parted, they say the same. -/
theorem digits_parts {ints : List Char} {dotplace : Int} (hints : ∀ c ∈ ints, c.isDigit = true)
    (hsome : ints ≠ []) (hdot : dotplace ≤ ints.length) :
    ∃ left fraction, intpart ints dotplace = left ∧ fracpart ints dotplace = pointText fraction ∧
      (∀ c ∈ left, c.isDigit = true) ∧ left ≠ [] ∧ (∀ c ∈ fraction, c.isDigit = true) ∧
      Nat.ofDigitChars 10 (left ++ fraction) 0 = Nat.ofDigitChars 10 ints 0 ∧
      (fraction.length : Int) = ints.length - dotplace := by
  unfold intpart fracpart pointText
  by_cases hleft : dotplace ≤ 0
  · -- zeros between the point and the digits
    refine ⟨['0'], List.replicate (-dotplace).toNat '0' ++ ints, if_pos hleft, ?_,
      List.forall_mem_singleton.mpr rfl, List.cons_ne_nil _ _, ?_, ?_, ?_⟩
    · rw [if_pos hleft, if_neg (by simp [hsome])]
    · intro c hc
      rcases List.mem_append.mp hc with hc | hc
      · rw [(List.mem_replicate.mp hc).2]
        rfl
      · exact hints c hc
    · rw [Nat.ofDigitChars_append, Nat.ofDigitChars_append, Nat.ofDigitChars_replicate_zero]
      simp [Nat.ofDigitChars]
    · rw [List.length_append, List.length_replicate]
      omega
  · rw [if_neg hleft, if_neg hleft]
    by_cases hright : dotplace ≥ ints.length
    · -- no point at all
      have hnone : (dotplace - ints.length).toNat = 0 := by omega
      refine ⟨ints, [], ?_, ?_, hints, hsome, fun c hc => absurd hc List.not_mem_nil, ?_, ?_⟩
      · rw [if_pos hright, hnone, List.replicate_zero, List.append_nil]
      · rw [if_pos hright, if_pos rfl]
      · rw [List.append_nil]
      · rw [List.length_nil]
        omega
    · -- a point among the digits
      refine ⟨ints.take dotplace.toNat, ints.drop dotplace.toNat, if_neg hright, ?_,
        fun c hc => hints c (List.mem_of_mem_take hc), ?_,
        fun c hc => hints c (List.mem_of_mem_drop hc), ?_, ?_⟩
      · have hrest : ints.drop dotplace.toNat ≠ [] := by
          rw [ne_eq, List.drop_eq_nil_iff]
          omega
        rw [if_neg hright, if_neg hrest]
      · rw [ne_eq, List.take_eq_nil_iff]
        rintro (hzero | hnil)
        · omega
        · exact hsome hnil
      · rw [List.take_append_drop]
      · rw [List.length_drop]
        omega

/-- A decimal has the digits and the exponent its text has. -/
theorem ofText_str (negative : Bool) (digits : Nat) (exponent : Int) :
    Decimal.ofText (Decimal.str (.finite negative digits exponent)) =
      some (.finite negative digits exponent) := by
  have hints : ∀ c ∈ Nat.toDigits 10 digits, c.isDigit = true := fun c hc => isDigit_toDigits hc
  have hsome : Nat.toDigits 10 digits ≠ [] := Nat.toDigits_ne_nil
  have hlength : 0 < (Nat.toDigits 10 digits).length := Nat.length_toDigits_pos
  unfold Decimal.str
  simp only
  generalize hdot : (if exponent ≤ 0 ∧ exponent + (Nat.toDigits 10 digits).length > -6 then
    exponent + ((Nat.toDigits 10 digits).length : Int) else 1) = dotplace
  -- the point is never behind the digits
  have hplace : dotplace ≤ (Nat.toDigits 10 digits).length := by
    split at hdot <;> omega
  rcases digits_parts hints hsome hplace with ⟨left, fraction, hl, hf, hleft, hne, hfraction, hvalue, hcount⟩
  -- an exponent is written exactly where the point is not where it belongs
  have hexp : (if exponent + ((Nat.toDigits 10 digits).length : Int) = dotplace then [] else
      'E' :: signedInt (exponent + (Nat.toDigits 10 digits).length - dotplace)) =
        exponentText (exponent + (Nat.toDigits 10 digits).length - dotplace) := by
    unfold exponentText
    by_cases hsame : exponent + ((Nat.toDigits 10 digits).length : Int) = dotplace
    · rw [if_pos hsame, if_pos (by omega)]
    · rw [if_neg hsame, if_neg (by omega)]
  have hback := ofText_parts negative (exponent + (Nat.toDigits 10 digits).length - dotplace)
    hleft hne hfraction
  rw [hvalue, Nat.ofDigitChars_ten_toDigits, hcount, ← hl, ← hf] at hback
  rw [hexp]
  refine hback.trans ?_
  congr 2
  omega

end Gridlens
