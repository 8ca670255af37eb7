import Mathlib.Algebra.Order.Field.Power
import Mathlib.Data.Int.Log
import Mathlib.Data.Rat.Floor
import Mathlib.Tactic.NormNum
import Mathlib.Tactic.Positivity
import Mathlib.Tactic.Ring
import PointerTriage.Decimal.Shortest

namespace PointerTriage.Decimal

namespace Binary64

theorem scaled_pos {num den : Nat} (hden : 0 < den) (e : Int) : 0 < (scaled num den e).2 := by
  unfold scaled
  split
  · exact hden
  · exact Nat.mul_pos hden (Nat.two_pow_pos _)

theorem scaled_value (num den : Nat) (e : Int) :
    ((scaled num den e).1 : ℚ) / (scaled num den e).2 = num / den / 2 ^ e := by
  unfold scaled
  split
  · rename_i hneg
    obtain ⟨k, rfl⟩ : ∃ k : Nat, e = -(k : Int) := ⟨e.natAbs, by omega⟩
    simp only [Int.natAbs_neg, Int.natAbs_natCast, Nat.pow_eq, Nat.cast_mul, Nat.cast_pow,
      Nat.cast_ofNat, zpow_neg, zpow_natCast, div_inv_eq_mul]
    ring
  · rename_i hpos
    obtain ⟨k, rfl⟩ : ∃ k : Nat, e = (k : Int) := ⟨e.natAbs, by omega⟩
    simp only [Int.natAbs_natCast, Nat.pow_eq, Nat.cast_mul, Nat.cast_pow, Nat.cast_ofNat,
      zpow_natCast, div_div]

/-- The logarithm of a quotient, from those of its parts, up to one. -/
theorem log_div_bounds {num den : Nat} (hnum : 0 < num) (hden : 0 < den) :
    (num.log2 : Int) - den.log2 - 1 ≤ Int.log 2 ((num : ℚ) / den) ∧
      Int.log 2 ((num : ℚ) / den) ≤ (num.log2 : Int) - den.log2 := by
  have hden' : (0 : ℚ) < den := by exact_mod_cast hden
  have hq : (0 : ℚ) < (num : ℚ) / den := div_pos (by exact_mod_cast hnum) hden'
  have hnumLow : (2 : ℚ) ^ (num.log2 : Int) ≤ num := by
    exact_mod_cast Nat.log2_self_le hnum.ne'
  have hnumHigh : (num : ℚ) < 2 ^ ((num.log2 : Int) + 1) := by
    exact_mod_cast Nat.lt_log2_self (n := num)
  have hdenLow : (2 : ℚ) ^ (den.log2 : Int) ≤ den := by
    exact_mod_cast Nat.log2_self_le hden.ne'
  have hdenHigh : (den : ℚ) < 2 ^ ((den.log2 : Int) + 1) := by
    exact_mod_cast Nat.lt_log2_self (n := den)
  constructor
  · rw [← Int.zpow_le_iff_le_log (by decide) hq, le_div_iff₀ hden', Nat.cast_ofNat]
    calc (2 : ℚ) ^ ((num.log2 : Int) - den.log2 - 1) * den
        ≤ 2 ^ ((num.log2 : Int) - den.log2 - 1) * 2 ^ ((den.log2 : Int) + 1) :=
          mul_le_mul_of_nonneg_left hdenHigh.le (by positivity)
      _ = 2 ^ (num.log2 : Int) := by
          rw [← zpow_add₀ (by norm_num)]
          congr 1
          omega
      _ ≤ num := hnumLow
  · refine Int.lt_add_one_iff.mp ?_
    rw [← Int.lt_zpow_iff_log_lt (by decide) hq, div_lt_iff₀ hden', Nat.cast_ofNat]
    calc (num : ℚ) < 2 ^ ((num.log2 : Int) + 1) := hnumHigh
      _ = 2 ^ ((num.log2 : Int) - den.log2 + 1) * 2 ^ (den.log2 : Int) := by
          rw [← zpow_add₀ (by norm_num)]
          congr 1
          omega
      _ ≤ 2 ^ ((num.log2 : Int) - den.log2 + 1) * den :=
          mul_le_mul_of_nonneg_left hdenLow (by positivity)

/-- The unit is such that the number has 53 bits: its first bit is worth `2 ^ 52` units. -/
theorem unitExponent_eq {num den : Nat} (hnum : 0 < num) (hden : 0 < den) :
    unitExponent num den = max (Int.log 2 ((num : ℚ) / den) - 52) (-1074) := by
  have hden' : (0 : ℚ) < den := by exact_mod_cast hden
  have hq : (0 : ℚ) < (num : ℚ) / den := div_pos (by exact_mod_cast hnum) hden'
  have htest (g : Int) : (scaled num den g).1 / (scaled num den g).2 < 2 ^ 53 ↔
      Int.log 2 ((num : ℚ) / den) < 53 + g := by
    have hpos : (0 : ℚ) < (scaled num den g).2 := by exact_mod_cast scaled_pos hden g
    rw [Nat.div_lt_iff_lt_mul (scaled_pos hden g), ← Int.lt_zpow_iff_log_lt (by decide) hq,
      Nat.cast_ofNat, zpow_add₀ (by norm_num), ← div_lt_iff₀ (by positivity), ← scaled_value,
      div_lt_iff₀ hpos]
    exact_mod_cast Iff.rfl
  obtain ⟨hlow, hhigh⟩ := log_div_bounds hnum hden
  unfold unitExponent
  simp only [Nat.pow_eq, htest]
  split <;> omega

theorem roundDiv_mul_right {k : Nat} (hk : 0 < k) (num den : Nat) :
    roundDiv (num * k) (den * k) = roundDiv num den := by
  have hmod : num * k % (den * k) = num % den * k := Nat.mul_mod_mul_right k num den
  have hmore : 2 * (num % den * k) > den * k ↔ 2 * (num % den) > den := by
    rw [← Nat.mul_assoc]
    exact Nat.mul_lt_mul_right hk
  have htie : 2 * (num % den * k) = den * k ↔ 2 * (num % den) = den := by
    rw [← Nat.mul_assoc]
    exact Nat.mul_left_inj hk.ne'
  simp only [roundDiv, Nat.mul_div_mul_right _ _ hk, hmod, Bool.or_eq_true, decide_eq_true_eq,
    Bool.and_eq_true, beq_iff_eq, hmore, htie]

theorem roundDiv_congr {num den num' den' : Nat} (hden : 0 < den) (hden' : 0 < den')
    (h : (num : ℚ) / den = num' / den') : roundDiv num den = roundDiv num' den' := by
  rw [div_eq_div_iff (by positivity) (by positivity)] at h
  have hcross : num * den' = num' * den := by exact_mod_cast h
  rw [← roundDiv_mul_right hden', ← roundDiv_mul_right hden num' den', hcross, Nat.mul_comm den]

theorem roundDiv_one (n : Nat) : roundDiv n 1 = n := by
  simp [roundDiv, Nat.mod_one]

theorem nearest_congr {num den num' den' : Nat} (hden : 0 < den) (hden' : 0 < den')
    (h : (num : ℚ) / den = num' / den') (negative : Bool) :
    nearest negative num den = nearest negative num' den' := by
  have hzero : num = 0 ↔ num' = 0 := by
    rw [div_eq_div_iff (by positivity) (by positivity)] at h
    have hcross : num * den' = num' * den := by exact_mod_cast h
    constructor
    · rintro rfl
      simpa [hden.ne'] using hcross.symm
    · rintro rfl
      simpa [hden'.ne'] using hcross
  by_cases hnum : num = 0
  · rw [nearest, nearest, if_pos hnum, if_pos (hzero.mp hnum)]
  · have hnum' : num' ≠ 0 := fun h' => hnum (hzero.mpr h')
    have hunit : unitExponent num den = unitExponent num' den' := by
      rw [unitExponent_eq (Nat.pos_of_ne_zero hnum) hden,
        unitExponent_eq (Nat.pos_of_ne_zero hnum') hden', h]
    have hround (e : Int) : roundDiv (scaled num den e).1 (scaled num den e).2 =
        roundDiv (scaled num' den' e).1 (scaled num' den' e).2 :=
      roundDiv_congr (scaled_pos hden e) (scaled_pos hden' e)
        (by rw [scaled_value, scaled_value, h])
    simp only [nearest, if_neg hnum, if_neg hnum', hunit, hround]

theorem pack_of_canonical {m : Nat} {e : Int} (h : Canonical m e) (negative : Bool) :
    pack negative m e = .finite negative m e h :=
  dif_pos h

/-- A double is the one nearest to its own value. -/
theorem nearest_of_canonical {m : Nat} {e : Int} (h : Canonical m e) (hm : 0 < m) {num den : Nat}
    (hden : 0 < den) (hvalue : (num : ℚ) / den = m * 2 ^ e) (negative : Bool) :
    nearest negative num den = .finite negative m e h := by
  obtain ⟨hbits, hleast, -, hfull⟩ := id h
  have hq : (0 : ℚ) < (num : ℚ) / den := by rw [hvalue]; positivity
  have hnum : 0 < num := by
    rcases Nat.eq_zero_or_pos num with rfl | hpos
    · simp at hq
    · exact hpos
  have hunit : unitExponent num den = e := by
    rw [unitExponent_eq hnum hden]
    have hhigh : Int.log 2 ((num : ℚ) / den) < 53 + e := by
      rw [← Int.lt_zpow_iff_log_lt (by decide) hq, hvalue, Nat.cast_ofNat,
        zpow_add₀ (by norm_num)]
      have hbits' : (m : ℚ) < 2 ^ (53 : Int) := by exact_mod_cast hbits
      exact mul_lt_mul_of_pos_right hbits' (by positivity)
    rcases hfull with hfull | rfl
    · have hlow : 52 + e ≤ Int.log 2 ((num : ℚ) / den) := by
        rw [← Int.zpow_le_iff_le_log (by decide) hq, hvalue, Nat.cast_ofNat,
          zpow_add₀ (by norm_num)]
        have hfull' : (2 : ℚ) ^ (52 : Int) ≤ m := by exact_mod_cast hfull
        exact mul_le_mul_of_nonneg_right hfull' (by positivity)
      omega
    · omega
  have hround : roundDiv (scaled num den e).1 (scaled num den e).2 = m := by
    rw [← roundDiv_one m]
    refine roundDiv_congr (scaled_pos hden e) Nat.one_pos ?_
    rw [scaled_value, hvalue, mul_div_assoc, div_self (by positivity)]
    simp
  have hsmall : m ≠ Nat.pow 2 53 := Nat.ne_of_lt hbits
  simp only [nearest, if_neg hnum.ne', hunit, hround, if_neg hsmall]
  exact pack_of_canonical h negative

theorem pack_sign {m m' : Nat} {e e' : Int} {h : Canonical m e}
    (hread : pack false m' e' = .finite false m e h) (negative : Bool) :
    pack negative m' e' = .finite negative m e h := by
  unfold pack at hread ⊢
  split at hread
  · rename_i h'
    cases hread
    exact dif_pos h'
  · cases hread

theorem nearest_sign {num den m : Nat} {e : Int} {h : Canonical m e}
    (hread : nearest false num den = .finite false m e h) (negative : Bool) :
    nearest negative num den = .finite negative m e h := by
  by_cases hnum : num = 0
  · rw [nearest, if_pos hnum] at hread ⊢
    cases hread
    rfl
  · simp only [nearest, if_neg hnum] at hread ⊢
    split at hread <;> rename_i hfull
    · rw [if_pos hfull]
      exact pack_sign hread negative
    · rw [if_neg hfull]
      exact pack_sign hread negative

end Binary64

namespace Scientific
open Binary64

/-- The number that a decimal stands for. -/
def value (d : Scientific) : ℚ := d.coefficient * 10 ^ d.exponent

theorem value_pos {d : Scientific} (h : 0 < d.coefficient) : 0 < d.value := by
  unfold value
  positivity

theorem value_eq_zero_iff {d : Scientific} : d.value = 0 ↔ d.coefficient = 0 := by
  have hpower : (10 : ℚ) ^ d.exponent ≠ 0 := by positivity
  simp [value, hpower]

theorem exists_fraction (d : Scientific) : ∃ num den : Nat, 0 < den ∧ (num : ℚ) / den = d.value := by
  obtain ⟨coefficient, exponent⟩ := d
  obtain ⟨k, rfl | rfl⟩ := exponent.eq_nat_or_neg
  · exact ⟨coefficient * 10 ^ k, 1, Nat.one_pos, by simp [value]⟩
  · exact ⟨coefficient, 10 ^ k, by positivity, by simp [value, div_eq_mul_inv]⟩

theorem digitCount_pos (n : Nat) : 0 < digitCount n := by
  rw [digitCount, ← String.length_toList, Nat.toString_eq_repr, Nat.toList_repr]
  exact List.length_pos_iff.mpr Nat.toDigits_ne_nil

theorem digitCount_le_iff {n k : Nat} (hk : 0 < k) : digitCount n ≤ k ↔ n < 10 ^ k :=
  Nat.length_repr_le_iff hk

theorem digitCount_bounds {n : Nat} (hn : 0 < n) :
    10 ^ (digitCount n - 1) ≤ n ∧ n < 10 ^ digitCount n := by
  have hpos := digitCount_pos n
  refine ⟨?_, (digitCount_le_iff hpos).mp le_rfl⟩
  rcases Nat.eq_zero_or_pos (digitCount n - 1) with hone | hmore
  · rw [hone]
    exact hn
  · exact Nat.le_of_not_lt fun hlt => absurd ((digitCount_le_iff hmore).mpr hlt) (by omega)

/-- The place of a decimal's first digit is that of its value. -/
theorem digitCount_add_exponent {d : Scientific} (h : 0 < d.coefficient) :
    (digitCount d.coefficient : Int) + d.exponent = Int.log 10 d.value + 1 := by
  obtain ⟨hlow, hhigh⟩ := digitCount_bounds h
  have hpos := digitCount_pos d.coefficient
  have hq := value_pos h
  have hleast : ((digitCount d.coefficient - 1 : Nat) : Int) + d.exponent ≤ Int.log 10 d.value := by
    rw [← Int.zpow_le_iff_le_log (by decide) hq, Nat.cast_ofNat, zpow_add₀ (by norm_num), value]
    have hlow' : (10 : ℚ) ^ ((digitCount d.coefficient - 1 : Nat) : Int) ≤ d.coefficient := by
      exact_mod_cast hlow
    exact mul_le_mul_of_nonneg_right hlow' (by positivity)
  have hmost : Int.log 10 d.value < digitCount d.coefficient + d.exponent := by
    rw [← Int.lt_zpow_iff_log_lt (by decide) hq, Nat.cast_ofNat, zpow_add₀ (by norm_num), value]
    have hhigh' : (d.coefficient : ℚ) < 10 ^ (digitCount d.coefficient : Int) := by
      exact_mod_cast hhigh
    exact mul_lt_mul_of_pos_right hhigh' (by positivity)
  omega

/-- Reading a decimal, by its value and any fraction of that value. -/
theorem toBinary64_eq (d : Scientific) {num den : Nat} (hden : 0 < den)
    (hvalue : (num : ℚ) / den = d.value) (negative : Bool) :
    d.toBinary64 negative =
      if d.value = 0 then .zero negative
      else if 309 < Int.log 10 d.value then .infinite negative
      else if Int.log 10 d.value < -401 then .zero negative
      else nearest negative num den := by
  by_cases hzero : d.coefficient = 0
  · rw [toBinary64, if_pos hzero, if_pos (value_eq_zero_iff.mpr hzero)]
  · have htop := digitCount_add_exponent (Nat.pos_of_ne_zero hzero)
    have hhuge : (digitCount d.coefficient : Int) + d.exponent > 310 ↔ 309 < Int.log 10 d.value := by
      omega
    have htiny : (digitCount d.coefficient : Int) + d.exponent < -400 ↔ Int.log 10 d.value < -401 := by
      omega
    have hfraction : (if d.exponent < 0 then
          nearest negative d.coefficient (10 ^ d.exponent.natAbs)
        else nearest negative (d.coefficient * 10 ^ d.exponent.natAbs) 1) =
        nearest negative num den := by
      split
      · rename_i hneg
        refine nearest_congr (by positivity) hden ?_ negative
        have hexponent : d.exponent = -(d.exponent.natAbs : Int) := by omega
        rw [hvalue, value]
        conv_rhs => rw [hexponent, zpow_neg, zpow_natCast, ← div_eq_mul_inv]
        exact_mod_cast rfl
      · rename_i hpos
        refine nearest_congr Nat.one_pos hden ?_ negative
        have hexponent : d.exponent = (d.exponent.natAbs : Int) := by omega
        rw [hvalue, value]
        conv_rhs => rw [hexponent, zpow_natCast]
        simp
    simp only [toBinary64, Nat.pow_eq, if_neg hzero, value_eq_zero_iff, hhuge, htiny, hfraction]

/-- Decimals of the same value read as the same double. -/
theorem toBinary64_congr {d d' : Scientific} (h : d.value = d'.value) (negative : Bool) :
    d.toBinary64 negative = d'.toBinary64 negative := by
  obtain ⟨num, den, hden, hvalue⟩ := d.exists_fraction
  rw [d.toBinary64_eq hden hvalue, d'.toBinary64_eq hden (hvalue.trans h), h]

theorem value_normalize (d : Scientific) : d.normalize.value = d.value := by
  fun_induction normalize d with
  | case1 d h ih =>
    rw [ih, value, value, zpow_add_one₀ (by norm_num)]
    have hten : d.coefficient / 10 * 10 = d.coefficient := by omega
    have hten' : ((d.coefficient / 10 : Nat) : ℚ) * 10 = d.coefficient := by exact_mod_cast hten
    rw [← hten']
    ring
  | case2 d h => rfl

theorem toBinary64_sign {d : Scientific} {m : Nat} {e : Int} {h : Canonical m e}
    (hread : d.toBinary64 false = .finite false m e h) (negative : Bool) :
    d.toBinary64 negative = .finite negative m e h := by
  obtain ⟨num, den, hden, hvalue⟩ := d.exists_fraction
  rw [d.toBinary64_eq hden hvalue] at hread ⊢
  split_ifs at hread ⊢ with hzero hhuge htiny
  · cases hread
    rfl
  · cases hread
    rfl
  · exact nearest_sign hread negative

end Scientific

namespace Binary64

theorem value_exact (m : Nat) (e : Int) : (exact m e).value = m * 2 ^ e := by
  unfold exact
  split
  · rename_i hneg
    obtain ⟨k, rfl⟩ : ∃ k : Nat, e = -(k : Int) := ⟨e.natAbs, by omega⟩
    simp only [Scientific.value, Int.natAbs_neg, Int.natAbs_natCast, Nat.pow_eq, Nat.cast_mul,
      Nat.cast_pow, Nat.cast_ofNat, zpow_neg, zpow_natCast]
    have hten : (10 : ℚ) ^ k = 2 ^ k * 5 ^ k := by rw [← mul_pow]; norm_num
    rw [hten, mul_inv, mul_assoc, mul_comm ((2 : ℚ) ^ k)⁻¹, ← mul_assoc ((5 : ℚ) ^ k),
      mul_inv_cancel₀ (by positivity), one_mul]
  · rename_i hpos
    obtain ⟨k, rfl⟩ : ∃ k : Nat, e = (k : Int) := ⟨e.natAbs, by omega⟩
    simp [Scientific.value]

/-- Written out in full, a double reads back: it is neither too large nor too small. -/
theorem toBinary64_exact {m : Nat} {e : Int} (h : Canonical m e) (hm : 0 < m) (negative : Bool) :
    (exact m e).toBinary64 negative = .finite negative m e h := by
  obtain ⟨num, den, hden, hvalue⟩ := (exact m e).exists_fraction
  obtain ⟨hbits, hleast, hmost, -⟩ := id h
  have hpos : (0 : ℚ) < m * 2 ^ e := by positivity
  have hnotHuge : Int.log 10 ((m : ℚ) * 2 ^ e) < 309 := by
    rw [← Int.lt_zpow_iff_log_lt (by decide) hpos, Nat.cast_ofNat]
    have hbits' : (m : ℚ) < 2 ^ (53 : Int) := by exact_mod_cast hbits
    have hpower : (2 : ℚ) ^ e ≤ 2 ^ (971 : Int) := zpow_le_zpow_right₀ (by norm_num) hmost
    calc (m : ℚ) * 2 ^ e < 2 ^ (53 : Int) * 2 ^ e := mul_lt_mul_of_pos_right hbits' (by positivity)
      _ ≤ 2 ^ (53 : Int) * 2 ^ (971 : Int) := mul_le_mul_of_nonneg_left hpower (by positivity)
      _ = 2 ^ (93 * 11 + 1) := by rw [← zpow_add₀ (by norm_num), ← zpow_natCast]; norm_num
      _ = (2 ^ 93) ^ 11 * 2 := by rw [pow_succ, pow_mul]
      _ ≤ (10 ^ 28) ^ 11 * 10 :=
        mul_le_mul (pow_le_pow_left₀ (by positivity) (by norm_num) 11) (by norm_num)
          (by norm_num) (by positivity)
      _ = 10 ^ (309 : Int) := by rw [← pow_mul, ← pow_succ, ← zpow_natCast]; norm_num
  have hnotTiny : -401 ≤ Int.log 10 ((m : ℚ) * 2 ^ e) := by
    rw [← Int.zpow_le_iff_le_log (by decide) hpos, Nat.cast_ofNat]
    have hone : (1 : ℚ) ≤ m := by exact_mod_cast hm
    calc (10 : ℚ) ^ (-401 : Int) = (10 ^ 401)⁻¹ := by rw [zpow_neg]; rfl
      _ ≤ ((2 ^ 3) ^ 401)⁻¹ :=
        inv_anti₀ (by positivity) (pow_le_pow_left₀ (by norm_num) (by norm_num) 401)
      _ = 2 ^ (-1203 : Int) := by rw [← pow_mul, zpow_neg]; rfl
      _ ≤ 2 ^ e := zpow_le_zpow_right₀ (by norm_num) (by omega)
      _ ≤ m * 2 ^ e := le_mul_of_one_le_left (by positivity) hone
  rw [Scientific.toBinary64_eq _ hden hvalue, value_exact, if_neg hpos.ne', if_neg (by omega),
    if_neg (by omega)]
  exact nearest_of_canonical h hm hden (hvalue.trans (value_exact m e)) negative

theorem toBinary64_of_reading? {tie : Tie} {x : Binary64} {d s : Scientific} {digits : Nat}
    (h : reading? tie x d digits = some s) : s.toBinary64 false = x := by
  unfold reading? at h
  simp only at h
  split_ifs at h with hboth hlower hbelow habove <;> cases h
  · exact hboth.1
  · exact hboth.2
  · exact hbelow
  · exact habove

/-- The shortest decimal of a double reads back. -/
theorem toBinary64_shortest (tie : Tie) {m : Nat} {e : Int} (h : Canonical m e) (hm : 0 < m)
    (negative : Bool) : (shortest tie m e).toBinary64 negative = .finite negative m e h := by
  unfold shortest
  simp only
  rw [Scientific.toBinary64_congr (Scientific.value_normalize _)]
  cases hfound : (List.range 17).findSome? fun i =>
      reading? tie (pack false m e) (exact m e) (i + 1) with
  | none => exact toBinary64_exact h hm negative
  | some s =>
    obtain ⟨i, -, hi⟩ := List.exists_of_findSome?_eq_some hfound
    have hread := toBinary64_of_reading? hi
    rw [pack_of_canonical h] at hread
    exact Scientific.toBinary64_sign hread negative

end Binary64

end PointerTriage.Decimal
