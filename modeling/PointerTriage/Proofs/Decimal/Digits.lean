import Mathlib
import PointerTriage.Decimal.Text

namespace PointerTriage.Decimal

theorem naturalOf_toDigits (n : Nat) : naturalOf (Nat.toDigits 10 n) = n := by
  have hdigits := Nat.ofDigitChars_ten_toDigits (n := n)
  rwa [Nat.ofDigitChars_eq_foldl] at hdigits

/-- Only zero is written with a leading zero. -/
theorem head?_toDigits {n : Nat} (h : 0 < n) : (Nat.toDigits 10 n).head? ≠ some '0' := by
  induction n using Nat.strongRecOn with
  | ind n ih =>
    by_cases hlt : n < 10
    · rw [Nat.toDigits_of_lt_base hlt, List.head?_cons]
      have hdigits : ∀ d < 10, 0 < d → some d.digitChar ≠ some '0' := by decide
      exact hdigits n hlt h
    · have hfirst := ih (n / 10) (by omega) (by omega)
      obtain ⟨d, ds, hds⟩ := List.exists_cons_of_ne_nil (Nat.toDigits_ne_nil (n := n / 10) (b := 10))
      rw [Nat.toDigits_of_base_le (by decide) (by omega), hds]
      rwa [hds] at hfirst

theorem isDigit_of_mem_toDigits {n : Nat} {c : Char} (h : c ∈ Nat.toDigits 10 n) :
    c.isDigit = true :=
  Nat.isDigit_of_mem_toDigits (by decide) (by decide) h

theorem natural?_toDigits (n : Nat) : natural? (Nat.toDigits 10 n) = some n := by
  have hall : (Nat.toDigits 10 n).all Char.isDigit = true :=
    List.all_eq_true.mpr fun _ => isDigit_of_mem_toDigits
  rw [natural?, if_pos ⟨Nat.toDigits_ne_nil, hall⟩, naturalOf_toDigits]

theorem naturalOf_append_zeros (ds : List Char) (k : Nat) :
    naturalOf (ds ++ List.replicate k '0') = naturalOf ds * 10 ^ k := by
  induction k with
  | zero => simp
  | succ k ih =>
    have hlast : naturalOf (ds ++ List.replicate k '0' ++ ['0']) =
        10 * naturalOf (ds ++ List.replicate k '0') + digitValue '0' := by
      rw [naturalOf, List.foldl_append]
      rfl
    have hzero : digitValue '0' = 0 := rfl
    rw [List.replicate_succ', ← List.append_assoc, hlast, ih, hzero, Nat.add_zero, Nat.pow_succ,
      Nat.mul_comm 10, Nat.mul_assoc]

theorem naturalOf_zeros_append (k : Nat) (ds : List Char) :
    naturalOf (List.replicate k '0' ++ ds) = naturalOf ds := by
  have hzeros : (List.replicate k '0').foldl (fun n d => 10 * n + digitValue d) 0 = 0 := by
    have hzeros := naturalOf_append_zeros [] k
    rw [List.nil_append] at hzeros
    simpa [naturalOf] using hzeros
  rw [naturalOf, List.foldl_append, hzeros]
  rfl

theorem digitChar_digitValue {d : Char} (h : d.isDigit = true) :
    digitValue d < 10 ∧ (digitValue d).digitChar = d := by
  have hrange : 48 ≤ d.toNat ∧ d.toNat ≤ 57 := by
    simpa [Char.isDigit, UInt32.le_iff_toNat_le] using h
  have hvalue : digitValue d = d.toNat - 48 := rfl
  have hdigits : ∀ n < 10, n.digitChar = Char.ofNat (48 + n) := by decide
  refine ⟨by omega, ?_⟩
  rw [hvalue, hdigits _ (by omega), Nat.add_sub_cancel' hrange.1, Char.ofNat_toNat]

theorem naturalOf_concat (ds : List Char) (d : Char) :
    naturalOf (ds ++ [d]) = 10 * naturalOf ds + digitValue d := by
  simp [naturalOf]

/-- Digits are those of their number, behind zeros. -/
theorem exists_zeros_toDigits {ds : List Char} (h : ∀ c ∈ ds, c.isDigit = true) (hne : ds ≠ []) :
    ∃ k, ds = List.replicate k '0' ++ Nat.toDigits 10 (naturalOf ds) := by
  induction ds using List.reverseRecOn with
  | nil => exact absurd rfl hne
  | append_singleton ds d ih =>
    obtain ⟨hlt, hchar⟩ := digitChar_digitValue (h d (by simp))
    rw [naturalOf_concat]
    by_cases hzero : naturalOf ds = 0
    · rw [hzero, Nat.mul_zero, Nat.zero_add, Nat.toDigits_of_lt_base hlt, hchar]
      by_cases hds : ds = []
      · exact ⟨0, by rw [hds]; rfl⟩
      · obtain ⟨k, hk⟩ := ih (fun c hc => h c (by simp [hc])) hds
        refine ⟨k + 1, ?_⟩
        rw [List.replicate_succ', hk, hzero]
        rfl
    · have hds : ds ≠ [] := by
        rintro rfl
        exact hzero rfl
      obtain ⟨k, hk⟩ := ih (fun c hc => h c (by simp [hc])) hds
      have hdiv : (10 * naturalOf ds + digitValue d) / 10 = naturalOf ds := by omega
      have hmod : (10 * naturalOf ds + digitValue d) % 10 = digitValue d := by omega
      refine ⟨k, ?_⟩
      rw [Nat.toDigits_of_base_le (by decide) (by omega), hdiv, hmod, hchar, ← List.append_assoc,
        ← hk]

/-- A number is read from its digits, behind any zeros, and from nothing else. -/
theorem natural?_eq_some_iff {ds : List Char} {n : Nat} :
    natural? ds = some n ↔ ∃ k, ds = List.replicate k '0' ++ Nat.toDigits 10 n := by
  constructor
  · intro h
    obtain ⟨⟨hne, hall⟩, hn⟩ := Option.ite_none_right_eq_some.mp h
    obtain rfl := Option.some.inj hn
    exact exists_zeros_toDigits (List.all_eq_true.mp hall) hne
  · rintro ⟨k, rfl⟩
    have hall : (List.replicate k '0' ++ Nat.toDigits 10 n).all Char.isDigit = true := by
      rw [List.all_append, List.all_eq_true.mpr fun _ => isDigit_of_mem_toDigits]
      simp
    rw [natural?, if_pos ⟨by simp [Nat.toDigits_ne_nil], hall⟩, naturalOf_zeros_append,
      naturalOf_toDigits]

theorem splitSign_cons {d : Char} (hd : d.isDigit = true) (cs : List Char) :
    splitSign (d :: cs) = (false, d :: cs) := by
  have hminus : d ≠ '-' := by rintro rfl; exact absurd hd (by decide)
  have hplus : d ≠ '+' := by rintro rfl; exact absurd hd (by decide)
  simp [splitSign, hminus, hplus]

theorem splitSign_digits {ds : List Char} (h : ∀ c ∈ ds, c.isDigit = true) (hne : ds ≠ []) :
    splitSign ds = (false, ds) := by
  obtain ⟨d, ds, rfl⟩ := List.exists_cons_of_ne_nil hne
  exact splitSign_cons (h d List.mem_cons_self) ds

/-- An integer is written as an exponent that reads back. -/
theorem exponent?_toString (i : Int) : exponent? ('e' :: (toString i).toList) = some i := by
  rw [Int.toString_eq_repr, Int.repr_eq_if]
  split
  · rename_i hle
    have hsign : splitSign (Nat.toDigits 10 i.toNat) = (false, Nat.toDigits 10 i.toNat) :=
      splitSign_digits (fun _ => isDigit_of_mem_toDigits) Nat.toDigits_ne_nil
    rw [Nat.toList_repr, exponent?, if_pos (.inl rfl)]
    simp only [hsign, natural?_toDigits, Option.map_some, Binary64.signed, Bool.false_eq_true,
      if_false, Int.toNat_of_nonneg hle]
  · rename_i hlt
    rw [String.toList_append, Nat.toList_repr, exponent?, if_pos (.inl rfl)]
    have hsign : splitSign ("-".toList ++ Nat.toDigits 10 (-i).toNat) =
        (true, Nat.toDigits 10 (-i).toNat) := rfl
    simp only [hsign, natural?_toDigits, Option.map_some, Binary64.signed, if_true]
    rw [Int.toNat_of_nonneg (by omega), Int.neg_neg]

/-- Digits end here. -/
def DigitsEnd (cs : List Char) : Prop := ∀ c ∈ cs.head?, c.isDigit = false

theorem span_digits {ds : List Char} (h : ∀ c ∈ ds, c.isDigit = true) {rest : List Char}
    (hrest : DigitsEnd rest) :
    (ds ++ rest).takeWhile Char.isDigit = ds ∧ (ds ++ rest).dropWhile Char.isDigit = rest := by
  have htake : rest.takeWhile Char.isDigit = [] ∧ rest.dropWhile Char.isDigit = rest := by
    cases rest with
    | nil => exact ⟨rfl, rfl⟩
    | cons c rest =>
      have hc : c.isDigit = false := hrest c (by simp)
      exact ⟨by simp [hc], by simp [hc]⟩
  rw [List.takeWhile_append_of_pos h, List.dropWhile_append_of_pos h, htake.1, htake.2,
    List.append_nil]
  exact ⟨rfl, rfl⟩

theorem literal?_point {whole part rest : List Char} {e : Int}
    (hwhole : ∀ c ∈ whole, c.isDigit = true) (hpart : ∀ c ∈ part, c.isDigit = true)
    (hne : whole ≠ []) (hrest : DigitsEnd rest) (he : exponent? rest = some e) :
    literal? (whole ++ '.' :: (part ++ rest)) =
      some ⟨naturalOf (whole ++ part), e - part.length⟩ := by
  have hpoint : DigitsEnd ('.' :: (part ++ rest)) := by
    intro c hc
    cases hc
    rfl
  obtain ⟨hfirst, hafter⟩ := span_digits hwhole hpoint
  obtain ⟨hsecond, hend⟩ := span_digits hpart hrest
  simp [literal?, hfirst, hafter, hsecond, hend, hne, he]

theorem literal?_whole {whole rest : List Char} {e : Int}
    (hwhole : ∀ c ∈ whole, c.isDigit = true) (hne : whole ≠ []) (hrest : DigitsEnd rest)
    (hpoint : rest.head? ≠ some '.') (he : exponent? rest = some e) :
    literal? (whole ++ rest) = some ⟨naturalOf whole, e⟩ := by
  obtain ⟨hfirst, hafter⟩ := span_digits hwhole hrest
  simp only [literal?, hfirst, hafter]
  cases rest with
  | nil => simp [hne, he]
  | cons c rest =>
    have hc : c ≠ '.' := fun h => hpoint (by rw [h]; rfl)
    simp [hne, he, hc]

end PointerTriage.Decimal
