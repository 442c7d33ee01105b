import Mathlib.Data.Nat.Log
import Gridlens.Records

/-!
# Decimal arithmetic

What the code does with a `Decimal` besides passing it on: comparisons, `abs`
and `quantize`, in a context of 28 digits that rounds half to even. A quantity
the contract accepts comes to at most 150,000,000 thousandths
(`Plausible.scaled`), so `quantize` neither rounds it nor runs out of digits.
-/

namespace Gridlens

/-! ## Operations -/

/-- `a == b`. -/
def Decimal.equals : Decimal → Decimal → Bool
  | .finite negative digits exponent, .finite negative' digits' exponent' =>
      (if negative then -1 else 1) * (digits : Int) * 10 ^ (exponent - min exponent exponent').toNat =
        (if negative' then -1 else 1) * (digits' : Int) *
          10 ^ (exponent' - min exponent exponent').toNat
  | .infinite negative, .infinite negative' => negative = negative'
  | _, _ => false

/-- `quantity < 0`. -/
def Decimal.isNegative : Decimal → Py Bool
  | .finite negative digits _ => .ok (negative && digits ≠ 0)
  | .infinite negative => .ok negative
  | .nan => raise .InvalidOperation [.text "comparison involving NaN"]

/-- How many digits a number is written with. -/
def numDigits (n : Nat) : Nat := Nat.log 10 n + 1

/-- More than 28 digits, rounded to 28, half to even: what stays, and how many
went. -/
def roundDigits (digits : Nat) : Nat × Nat :=
  let drop := numDigits digits - 28
  let quotient := digits / 10 ^ drop
  let rest := 2 * (digits % 10 ^ drop)
  let up := 10 ^ drop < rest ∨ rest = 10 ^ drop ∧ quotient % 2 = 1
  let rounded := if up then quotient + 1 else quotient
  -- a carry through all the digits leaves one more
  if rounded = 10 ^ 28 then (10 ^ 27, drop + 1) else (rounded, drop)

/-- `abs(quantity)`, which rounds to the 28 digits of the context. An exponent
below what the context holds is left as it is; no quantity is that small. -/
def Decimal.abs : Decimal → Py Decimal
  | .finite _ digits exponent =>
      let rounded := if digits < 10 ^ 28 then (digits, 0) else roundDigits digits
      if digits ≠ 0 ∧ exponent + rounded.2 + numDigits rounded.1 - 1 > 999999 then
        raise .Overflow [.text "above Emax"]
      else .ok (.finite false rounded.1 (exponent + rounded.2))
  | .infinite _ => .ok (.infinite false)
  | .nan => .ok .nan

/-- A number less its last digits, rounded half to even. -/
def roundHalfEven (digits drop : Nat) : Nat :=
  let quotient := digits / 10 ^ drop
  let rest := 2 * (digits % 10 ^ drop)
  if 10 ^ drop < rest ∨ rest = 10 ^ drop ∧ quotient % 2 = 1 then quotient + 1 else quotient

/-- `value.quantize(Decimal((0, (1,), exponent)))`. -/
def Decimal.quantize (exponent : Int) : Decimal → Py Decimal
  | .finite negative digits exponent' =>
      let coefficient := if exponent ≤ exponent' then digits * 10 ^ (exponent' - exponent).toNat
        else roundHalfEven digits (exponent - exponent').toNat
      if numDigits coefficient > 28 then
        raise .InvalidOperation [.text "quantize result has too many digits for current context"]
      else .ok (.finite negative coefficient exponent)
  | .infinite _ => raise .InvalidOperation [.text "quantize with one INF"]
  | .nan => .ok .nan

/-- A decimal with at most three places, in thousandths. -/
def Decimal.thousandths : Decimal → Int
  | .finite negative digits exponent =>
      (if negative then -1 else 1) * (digits * 10 ^ (exponent + MAX_SCALE).toNat : Nat)
  | _ => 0

/-- And back. -/
def Decimal.ofThousandths (n : Int) : Decimal := .finite (n < 0) n.natAbs (-MAX_SCALE)

/-! ## Quantities the contract accepts -/

theorem numDigits_le {n count : Nat} (hpos : 0 < count) (h : n < 10 ^ count) :
    numDigits n ≤ count := by
  unfold numDigits
  rcases Nat.eq_zero_or_pos n with rfl | hn
  · rw [Nat.log_zero_right]
    omega
  · exact Nat.log_lt_of_lt_pow hn.ne' h

/-- At most 150,000,000 thousandths, and no minus but on a zero. -/
theorem Plausible.scaled {negative : Bool} {digits : Nat} {exponent : Int}
    (h : Plausible (.finite negative digits exponent)) : 0 ≤ exponent + MAX_SCALE ∧
      digits * 10 ^ (exponent + MAX_SCALE).toNat ≤ MAX_QUANTITY_MW * 1000 ∧
      (negative = true → digits = 0) := by
  rcases h with ⟨hnegative, hmax, hscale⟩
  have hthree : MAX_SCALE = 3 := rfl
  refine ⟨by omega, ?_, hnegative⟩
  unfold exceeds at hmax
  rw [decide_eq_false_iff_not, not_lt] at hmax
  rcases le_or_gt 0 exponent with hpos | hneg
  · have hzero : (-exponent).toNat = 0 := by omega
    have hsplit : (exponent + MAX_SCALE).toNat = exponent.toNat + 3 := by omega
    rw [hzero, pow_zero, Nat.mul_one] at hmax
    rw [hsplit, Nat.pow_add, ← Nat.mul_assoc]
    exact Nat.mul_le_mul_right _ hmax
  · have hzero : exponent.toNat = 0 := by omega
    rw [hzero, pow_zero, Nat.mul_one] at hmax
    calc digits * 10 ^ (exponent + MAX_SCALE).toNat
        ≤ MAX_QUANTITY_MW * 10 ^ (-exponent).toNat * 10 ^ (exponent + MAX_SCALE).toNat :=
          Nat.mul_le_mul_right _ hmax
      _ = MAX_QUANTITY_MW * 10 ^ ((-exponent).toNat + (exponent + MAX_SCALE).toNat) := by
          rw [Nat.mul_assoc, ← Nat.pow_add]
      _ = MAX_QUANTITY_MW * 1000 := by
          rw [show (-exponent).toNat + (exponent + MAX_SCALE).toNat = 3 by omega]
          rfl

/-- The quantity is kept as it is, with three places. -/
theorem quantize_plausible {negative : Bool} {digits : Nat} {exponent : Int}
    (h : Plausible (.finite negative digits exponent)) :
    (Decimal.finite negative digits exponent).quantize (-MAX_SCALE) =
      .ok (.finite negative (digits * 10 ^ (exponent + MAX_SCALE).toNat) (-MAX_SCALE)) := by
  rcases h.scaled with ⟨hscale, hmax, -⟩
  unfold Decimal.quantize
  have hsub : (exponent - -MAX_SCALE).toNat = (exponent + MAX_SCALE).toNat := by omega
  simp only
  have hdigits : numDigits (digits * 10 ^ (exponent + MAX_SCALE).toNat) ≤ 28 :=
    numDigits_le (by omega) (hmax.trans_lt (by decide))
  have hplaces : -MAX_SCALE ≤ exponent := by omega
  rw [if_pos hplaces, hsub, if_neg (not_lt.mpr hdigits)]

/-- Zeros behind the point do not change a value. -/
theorem equals_scaled {negative : Bool} {digits : Nat} {exponent : Int}
    (hscale : 0 ≤ exponent + MAX_SCALE) :
    (Decimal.finite negative (digits * 10 ^ (exponent + MAX_SCALE).toNat) (-MAX_SCALE)).equals
      (.finite negative digits exponent) = true := by
  have hmin : min (-MAX_SCALE) exponent = -MAX_SCALE := min_eq_left (by omega)
  have hsub : (exponent - -MAX_SCALE).toNat = (exponent + MAX_SCALE).toNat := by omega
  unfold Decimal.equals
  simp only [decide_eq_true_eq]
  rw [hmin, sub_self, hsub, Int.toNat_zero, pow_zero, mul_one, mul_assoc]
  push_cast
  rfl

/-- The thousandths of a quantity are all of it. -/
theorem equals_thousandths {negative : Bool} {digits : Nat} {exponent : Int}
    (h : Plausible (.finite negative digits exponent)) :
    (Decimal.ofThousandths (Decimal.finite negative digits exponent).thousandths).equals
      (.finite negative digits exponent) = true := by
  rcases h.scaled with ⟨hscale, -, hnegative⟩
  cases negative with
  | false =>
      have hthousandths : (Decimal.finite false digits exponent).thousandths =
          (digits * 10 ^ (exponent + MAX_SCALE).toNat : Nat) := one_mul _
      have hpos : ¬ ((digits * 10 ^ (exponent + MAX_SCALE).toNat : Nat) : Int) < 0 :=
        not_lt.mpr (Int.natCast_nonneg _)
      rw [hthousandths, Decimal.ofThousandths, decide_eq_false hpos, Int.natAbs_natCast]
      exact equals_scaled hscale
  | true =>
      -- a minus stands before a zero only
      rw [hnegative rfl]
      simp [Decimal.thousandths, Decimal.ofThousandths, Decimal.equals]

/-- The quantity of a record is a number. -/
theorem GenerationRecord.quantity_finite (r : GenerationRecord) :
    ∃ negative digits exponent, r.quantityMw = .finite negative digits exponent := by
  have hcontract := r.quantity_plausible
  cases hquantity : r.quantityMw with
  | nan =>
      rw [hquantity] at hcontract
      exact hcontract.elim
  | infinite negative =>
      rw [hquantity] at hcontract
      exact hcontract.elim
  | finite negative digits exponent => exact ⟨negative, digits, exponent, rfl⟩

/-- And its thousandths are all of it. -/
theorem GenerationRecord.equals_thousandths (r : GenerationRecord) :
    (Decimal.ofThousandths r.quantityMw.thousandths).equals r.quantityMw = true := by
  rcases r.quantity_finite with ⟨negative, digits, exponent, hquantity⟩
  have hcontract := r.quantity_plausible
  rw [hquantity] at hcontract ⊢
  exact Gridlens.equals_thousandths hcontract

/-- No column is too narrow for them. -/
theorem Plausible.thousandths_bounds {q : Decimal} (h : Plausible q) :
    0 ≤ q.thousandths ∧ q.thousandths ≤ MAX_QUANTITY_MW * 1000 := by
  cases q with
  | finite negative digits exponent =>
      rcases h.scaled with ⟨-, hmax, hnegative⟩
      cases negative with
      | false =>
          have hthousandths : (Decimal.finite false digits exponent).thousandths =
              (digits * 10 ^ (exponent + MAX_SCALE).toNat : Nat) := one_mul _
          rw [hthousandths]
          omega
      | true =>
          -- a minus stands before a zero only
          rw [hnegative rfl]
          simp [Decimal.thousandths]
  | infinite negative => exact h.elim
  | nan => exact h.elim

end Gridlens
