import PointerTriage.Proofs.Decimal.Digits
import PointerTriage.Proofs.Decimal.Nearest

namespace PointerTriage.Decimal

/-- The characters of numbers in decimal or scientific notation. -/
def isNumeral (c : Char) : Bool := c.isDigit || c = '.' || c = 'e' || c = '-'

theorem isNumeral_of_isDigit {c : Char} (h : c.isDigit = true) : isNumeral c = true := by
  simp [isNumeral, h]

/-- A literal that starts with a digit and has this value. -/
structure Spells (cs : List Char) (v : ℚ) : Prop where
  first : ∃ d rest, cs = d :: rest ∧ d.isDigit = true
  numeral : ∀ c ∈ cs, isNumeral c = true
  reads : ∃ d, literal? cs = some d ∧ d.value = v

section Digits

variable {ds : List Char} (hds : ∀ c ∈ ds, c.isDigit = true) (hne : ds ≠ [])
include hds hne

theorem spells_of_digits {rest : List Char} {v : ℚ} (hrest : ∀ c ∈ rest, isNumeral c = true)
    (hreads : ∃ d, literal? (ds ++ rest) = some d ∧ d.value = v) : Spells (ds ++ rest) v := by
  obtain ⟨d, more, rfl⟩ := List.exists_cons_of_ne_nil hne
  refine ⟨⟨d, more ++ rest, rfl, hds d List.mem_cons_self⟩, ?_, hreads⟩
  intro c hc
  rcases List.mem_append.mp hc with hc | hc
  · exact isNumeral_of_isDigit (hds c hc)
  · exact hrest c hc

theorem spells_point {part : List Char} (hpart : ∀ c ∈ part, c.isDigit = true) :
    Spells (ds ++ '.' :: part) (naturalOf (ds ++ part) * 10 ^ (-(part.length : Int))) := by
  have hread : literal? (ds ++ '.' :: (part ++ [])) =
      some ⟨naturalOf (ds ++ part), 0 - part.length⟩ :=
    literal?_point hds hpart hne nofun rfl
  rw [List.append_nil] at hread
  refine spells_of_digits hds hne ?_ ⟨_, hread, by rw [Scientific.value, Int.zero_sub]⟩
  intro c hc
  rcases List.mem_cons.mp hc with rfl | hc
  · rfl
  · exact isNumeral_of_isDigit (hpart c hc)

omit hds hne in
theorem isDigit_of_mem_zeros {k : Nat} : ∀ c ∈ List.replicate k '0', c.isDigit = true := by
  intro c hc
  rw [List.eq_of_mem_replicate hc]
  rfl

/-- Digits with zeros after them, with or without a point. -/
theorem spells_whole (pointed : Bool) (k : Nat) :
    Spells (ds ++ List.replicate k '0' ++ (if pointed then ['.', '0'] else []))
      (naturalOf ds * 10 ^ (k : Int)) := by
  have hall : ∀ c ∈ ds ++ List.replicate k '0', c.isDigit = true := by
    intro c hc
    exact (List.mem_append.mp hc).elim (hds c) (isDigit_of_mem_zeros c)
  have hne' : ds ++ List.replicate k '0' ≠ [] := by simp [hne]
  cases pointed with
  | true =>
    have hspell := spells_point hall hne' (isDigit_of_mem_zeros (k := 1))
    rw [naturalOf_append_zeros, naturalOf_append_zeros, List.length_replicate] at hspell
    have hvalue : ((naturalOf ds * 10 ^ k * 10 ^ 1 : Nat) : ℚ) * 10 ^ (-((1 : Nat) : Int)) =
        naturalOf ds * 10 ^ (k : Int) := by
      push_cast
      rw [zpow_natCast, mul_assoc]
      norm_num
    rw [hvalue] at hspell
    exact hspell
  | false =>
    have hread : literal? (ds ++ List.replicate k '0' ++ []) =
        some ⟨naturalOf (ds ++ List.replicate k '0'), 0⟩ :=
      literal?_whole hall hne' nofun nofun rfl
    refine spells_of_digits hall hne' nofun ⟨_, hread, ?_⟩
    rw [Scientific.value, naturalOf_append_zeros]
    push_cast
    rw [mul_one, zpow_natCast]

theorem spells_positional (style : Style) (point : Int) :
    Spells (positional style ds point) (naturalOf ds * 10 ^ (point - ds.length)) := by
  unfold positional
  simp only
  split
  · rename_i hwhole
    obtain ⟨k, hk⟩ : ∃ k : Nat, point - ds.length = k := ⟨(point - ds.length).toNat, by omega⟩
    rw [hk, Int.toNat_natCast]
    exact spells_whole hds hne style.pointed k
  · rename_i hlong
    split
    · rename_i hinside
      obtain ⟨k, rfl⟩ : ∃ k : Nat, point = k := ⟨point.toNat, by omega⟩
      have hne' : ds.take k ≠ [] := by
        intro hempty
        rcases List.take_eq_nil_iff.mp hempty with hk | hds
        · omega
        · exact hne hds
      have hpart : ∀ c ∈ ds.drop k, c.isDigit = true := fun c hc => hds c (List.mem_of_mem_drop hc)
      have hspell := spells_point (fun c hc => hds c (List.mem_of_mem_take hc)) hne' hpart
      have hshift : -((ds.drop k).length : Int) = k - ds.length := by
        rw [List.length_drop]
        omega
      rw [List.take_append_drop, hshift] at hspell
      rw [Int.toNat_natCast, List.append_assoc]
      exact hspell
    · rename_i hbefore
      obtain ⟨k, rfl⟩ : ∃ k : Nat, point = -(k : Int) := ⟨(-point).toNat, by omega⟩
      have hall : ∀ c ∈ List.replicate k '0' ++ ds, c.isDigit = true := by
        intro c hc
        exact (List.mem_append.mp hc).elim (isDigit_of_mem_zeros c) (hds c)
      have hspell := spells_point (isDigit_of_mem_zeros (k := 1)) (by simp) hall
      have hshift : -((List.replicate k '0' ++ ds).length : Int) = -(k : Int) - ds.length := by
        rw [List.length_append, List.length_replicate]
        omega
      rw [naturalOf_zeros_append, naturalOf_zeros_append, hshift] at hspell
      rw [Int.neg_neg, Int.toNat_natCast, List.append_assoc]
      exact hspell

omit hds hne in
theorem isNumeral_of_mem_toString (i : Int) : ∀ c ∈ (toString i).toList, isNumeral c = true := by
  intro c hc
  rw [Int.toString_eq_repr, Int.repr_eq_if] at hc
  split at hc
  · rw [Nat.toList_repr] at hc
    exact isNumeral_of_isDigit (isDigit_of_mem_toDigits hc)
  · rw [String.toList_append, Nat.toList_repr] at hc
    rcases List.mem_append.mp hc with hc | hc
    · rw [List.mem_singleton.mp hc]
      rfl
    · exact isNumeral_of_isDigit (isDigit_of_mem_toDigits hc)

theorem spells_withExponent (point : Int) :
    Spells (withExponent ds point) (naturalOf ds * 10 ^ (point - ds.length)) := by
  have hend : DigitsEnd ('e' :: (toString (point - 1)).toList) := by
    intro c hc
    cases hc
    rfl
  have hexponent := exponent?_toString (point - 1)
  have hnumeral : ∀ c ∈ 'e' :: (toString (point - 1)).toList, isNumeral c = true :=
    List.forall_mem_cons.mpr ⟨rfl, isNumeral_of_mem_toString _⟩
  obtain ⟨d, more, rfl⟩ := List.exists_cons_of_ne_nil hne
  cases more with
  | nil =>
    have hread := literal?_whole hds hne hend (by simp) hexponent
    exact spells_of_digits hds hne hnumeral ⟨_, hread, rfl⟩
  | cons e more =>
    have hfirst : ∀ c ∈ [d], c.isDigit = true := fun c hc => hds c (by simp_all)
    have hpart : ∀ c ∈ e :: more, c.isDigit = true := fun c hc => hds c (List.mem_cons_of_mem d hc)
    have hread := literal?_point hfirst hpart (by simp) hend hexponent
    have hshift : point - 1 - ((e :: more).length : Int) = point - (d :: e :: more).length := by
      simp only [List.length_cons]
      omega
    rw [hshift] at hread
    have htext : withExponent (d :: e :: more) point =
        [d] ++ '.' :: ((e :: more) ++ 'e' :: (toString (point - 1)).toList) := by
      simp [withExponent]
    rw [htext]
    refine spells_of_digits hfirst (by simp) ?_ ⟨_, hread, rfl⟩
    intro c hc
    rcases List.mem_cons.mp hc with rfl | hc
    · rfl
    · rcases List.mem_append.mp hc with hc | hc
      · exact isNumeral_of_isDigit (hpart c hc)
      · exact hnumeral c hc

end Digits

namespace Binary64

/-- The text of a finite number is a literal for its decimal, after a minus sign if there is one. -/
theorem spells_write (style : Style) (negative : Bool) {m : Nat} {e : Int} (h : Canonical m e) :
    ∃ (cs : List Char) (d : Scientific),
      ((finite negative m e h).write style).toList = (if negative then ['-'] else []) ++ cs ∧
        Spells cs d.value ∧ d.toBinary64 negative = .finite negative m e h := by
  have hsign : (if negative then "-" else "").toList = if negative then ['-'] else [] := by
    cases negative <;> rfl
  by_cases hm : m = 0
  · obtain rfl : e = -1074 := by
      rcases h.2.2.2 with hfull | he
      · exact absurd hfull (hm ▸ by decide)
      · exact he
    subst hm
    refine ⟨positional style ['0'] 1, ⟨0, 0⟩, ?_, ?_, rfl⟩
    · rw [write, if_pos rfl, String.toList_append, String.toList_ofList, hsign]
    · have hspell := spells_positional (show ∀ c ∈ ['0'], c.isDigit = true by simp) (by simp) style 1
      have hvalue : (naturalOf ['0'] : ℚ) * 10 ^ ((1 : Int) - (['0'] : List Char).length) =
          (⟨0, 0⟩ : Scientific).value := by
        simp [Scientific.value, naturalOf, digitValue]
      rwa [hvalue] at hspell
  · let d := shortest style.tie m e
    let ds := Nat.toDigits 10 d.coefficient
    have hds : ∀ c ∈ ds, c.isDigit = true := fun _ => isDigit_of_mem_toDigits
    have hne : ds ≠ [] := Nat.toDigits_ne_nil
    have hvalue : (naturalOf ds : ℚ) * 10 ^ ((ds.length : Int) + d.exponent - ds.length) = d.value := by
      rw [naturalOf_toDigits, Int.add_comm, Int.add_sub_cancel, Scientific.value]
    refine ⟨if style.fits (ds.length + d.exponent) then positional style ds (ds.length + d.exponent)
      else withExponent ds (ds.length + d.exponent), d, ?_, ?_,
      toBinary64_shortest style.tie h (Nat.pos_of_ne_zero hm) negative⟩
    · simp only [write, if_neg hm, String.toList_append, String.toList_ofList, hsign,
        Nat.toString_eq_repr, Nat.toList_repr]
      rfl
    · split
      · exact hvalue ▸ spells_positional hds hne style _
      · exact hvalue ▸ spells_withExponent hds hne _

theorem double?_write (style : Style) (negative : Bool) {m : Nat} {e : Int} (h : Canonical m e) :
    double? ((finite negative m e h).write style) = some (.finite negative m e h) := by
  obtain ⟨cs, d, htext, hspell, hread⟩ := spells_write style negative h
  obtain ⟨first, rest, rfl, hfirst⟩ := hspell.first
  obtain ⟨d', hliteral, hvalue⟩ := hspell.reads
  have hsign : splitSign ((finite negative m e h).write style).toList = (negative, first :: rest) := by
    rw [htext]
    cases negative with
    | true => rfl
    | false => exact splitSign_cons hfirst rest
  simp only [double?, hsign, hliteral]
  rw [Scientific.toBinary64_congr hvalue, hread]

end Binary64

end PointerTriage.Decimal
