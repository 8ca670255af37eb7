import Mathlib
import PointerTriage.Decimal.Binary64

namespace PointerTriage.Decimal.Binary64

def sign (negative : Bool) : ℚ := if negative then -1 else 1

/-- The number that a finite double stands for. -/
def value? : Binary64 → Option ℚ
  | .finite negative mantissa exponent _ => some (sign negative * (mantissa * 2 ^ exponent))
  | .nan | .infinite _ => none

theorem signed_value (negative : Bool) (n : Nat) : (signed negative n : ℚ) = sign negative * n := by
  cases negative <;> simp [signed, sign]

theorem fraction_pos (mantissa : Nat) (exponent : Int) : 0 < (fraction mantissa exponent).2 := by
  unfold fraction
  split
  · exact Nat.two_pow_pos _
  · exact Nat.one_pos

theorem fraction_value (mantissa : Nat) (exponent : Int) :
    ((fraction mantissa exponent).1 : ℚ) / (fraction mantissa exponent).2 = mantissa * 2 ^ exponent := by
  unfold fraction
  split
  · rename_i hneg
    obtain ⟨k, rfl⟩ : ∃ k : Nat, exponent = -(k : Int) := ⟨exponent.natAbs, by omega⟩
    simp [zpow_neg, div_eq_mul_inv]
  · rename_i hpos
    obtain ⟨k, rfl⟩ : ∃ k : Nat, exponent = (k : Int) := ⟨exponent.natAbs, by omega⟩
    simp

/-- Finite doubles are compared by their values. -/
theorem lt_iff_value {x y : Binary64} {p q : ℚ} (hx : x.value? = some p) (hy : y.value? = some q) :
    x.lt y = true ↔ p < q := by
  cases x with
  | nan => cases hx
  | infinite s => cases hx
  | finite s m e h =>
    cases y with
    | nan => cases hy
    | infinite t => cases hy
    | finite t n f h' =>
      cases hx
      cases hy
      have hb : (0 : ℚ) < (fraction m e).2 := by exact_mod_cast fraction_pos m e
      have hd : (0 : ℚ) < (fraction n f).2 := by exact_mod_cast fraction_pos n f
      rw [← fraction_value m e, ← fraction_value n f, ← mul_div_assoc, ← mul_div_assoc,
        div_lt_div_iff₀ hb hd]
      simp only [lt, decide_eq_true_iff]
      rw [← Int.cast_lt (R := ℚ), signed_value, signed_value]
      push_cast
      rw [mul_assoc, mul_assoc]

end PointerTriage.Decimal.Binary64
