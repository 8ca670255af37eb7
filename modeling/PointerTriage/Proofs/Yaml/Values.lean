import PointerTriage.Proofs.Decimal.Writing
import PointerTriage.Proofs.Yaml.Scanning
import PointerTriage.Yaml.Core

namespace PointerTriage.Yaml
open Decimal (Binary64 Canonical isNumeral isNumeral_of_isDigit isDigit_of_mem_toDigits)

/-- A number as it is written: digits, then a fraction or an exponent. -/
inductive Numeral : List Char → Prop where
  | unsigned {d : Char} {rest : List Char} (hd : d.isDigit = true)
    (hrest : ∀ c ∈ rest, isNumeral c = true) : Numeral (d :: rest)
  | negative {d : Char} {rest : List Char} (hd : d.isDigit = true)
    (hrest : ∀ c ∈ rest, isNumeral c = true) : Numeral ('-' :: d :: rest)

theorem numeral_of_digits {cs : List Char} (hfirst : ∃ d rest, cs = d :: rest ∧ d.isDigit = true)
    (h : ∀ c ∈ cs, isNumeral c = true) (negative : Bool) :
    Numeral ((if negative then ['-'] else []) ++ cs) := by
  obtain ⟨d, rest, rfl, hd⟩ := hfirst
  have hrest : ∀ c ∈ rest, isNumeral c = true := fun c hc => h c (List.mem_cons_of_mem d hc)
  cases negative with
  | true => exact .negative hd hrest
  | false => exact .unsigned hd hrest

theorem numeral_toDigits (n : Nat) (negative : Bool) :
    Numeral ((if negative then ['-'] else []) ++ Nat.toDigits 10 n) := by
  obtain ⟨d, rest, hcons⟩ := List.exists_cons_of_ne_nil (Nat.toDigits_ne_nil (n := n) (b := 10))
  refine numeral_of_digits ⟨d, rest, hcons, isDigit_of_mem_toDigits (n := n) ?_⟩
    (fun c hc => isNumeral_of_isDigit (isDigit_of_mem_toDigits hc)) negative
  rw [hcons]
  exact List.mem_cons_self

theorem toList_toString (i : Int) :
    (toString i).toList = (if i < 0 then ['-'] else []) ++ Nat.toDigits 10 i.natAbs := by
  rw [Int.toString_eq_repr, Int.repr_eq_if]
  split
  · rw [Nat.toList_repr, if_neg (by omega), show i.toNat = i.natAbs by omega]
    rfl
  · rw [String.toList_append, Nat.toList_repr, if_pos (by omega), show (-i).toNat = i.natAbs by omega]
    rfl

theorem numeral_write (style : Decimal.Style) (negative : Bool) {m : Nat} {e : Int}
    (h : Canonical m e) : Numeral ((Binary64.finite negative m e h).write style).toList := by
  obtain ⟨cs, d, htext, hspell, -⟩ := Binary64.spells_write style negative h
  rw [htext]
  exact numeral_of_digits hspell.first hspell.numeral negative

theorem of_isDigit {p : Char → Prop} (h : ∀ n < 10, p (Char.ofNat (48 + n))) {c : Char}
    (hc : c.isDigit = true) : p c := by
  have hrange : 48 ≤ c.toNat ∧ c.toNat ≤ 57 := by
    simpa [Char.isDigit, UInt32.le_iff_toNat_le] using hc
  have hn := h (c.toNat - 48) (by omega)
  rwa [Nat.add_sub_cancel' hrange.1, Char.ofNat_toNat] at hn

theorem of_isLower {p : Char → Prop} (h : ∀ n < 26, p (Char.ofNat (97 + n))) {c : Char}
    (hc : c.isLower = true) : p c := by
  have hrange : 97 ≤ c.toNat ∧ c.toNat ≤ 122 := by
    simpa [Char.isLower, UInt32.le_iff_toNat_le] using hc
  have hn := h (c.toNat - 97) (by omega)
  rwa [Nat.add_sub_cancel' hrange.1, Char.ofNat_toNat] at hn

/-- A character that never ends plain text. -/
def isTame (c : Char) : Bool := isPlainChar c && c ≠ ' ' && c ≠ ':' && c ≠ '#'

theorem isTame_of_isNumeral {c : Char} (h : isNumeral c = true) : isTame c = true := by
  simp only [isNumeral, Bool.or_eq_true, decide_eq_true_eq] at h
  rcases h with ((h | rfl) | rfl) | rfl
  · exact of_isDigit (p := fun c => isTame c = true) (by decide) h
  all_goals rfl

theorem endsEarly_tame {cs : List Char} (h : ∀ c ∈ cs, isTame c = true) (before : Char) :
    Writer.endsEarly before cs = false := by
  induction cs generalizing before with
  | nil => rfl
  | cons c cs ih =>
    obtain ⟨hc, hcs⟩ := List.forall_mem_cons.mp h
    simp only [isTame, Bool.and_eq_true, decide_eq_true_eq] at hc
    simp [Writer.endsEarly, hc, ih hcs]

theorem allowsPlain_tame {c : Char} {cs : List Char} (h : ∀ d ∈ c :: cs, isTame d = true)
    (hmark : Writer.isDocumentMark (c :: cs) = false)
    (hstart : Writer.startsOther c cs.head? = false) : Writer.allowsPlain (c :: cs) = true := by
  have htame : ∀ d ∈ c :: cs, isPlainChar d = true ∧ d ≠ ' ' := by
    intro d hd
    have htame := h d hd
    simp only [isTame, Bool.and_eq_true, decide_eq_true_eq] at htame
    exact htame.1.1
  have hall : (c :: cs).all (fun d => Writer.isPrintable d && !Writer.isLineBreak d) = true :=
    List.all_eq_true.mpr fun d hd => (htame d hd).1
  have hlast : (c :: cs).getLast? ≠ some ' ' := fun hlast =>
    (htame ' ' (List.mem_of_getLast? hlast)).2 rfl
  have hearly := endsEarly_tame (fun d hd => h d (List.mem_cons_of_mem c hd)) c
  simp [Writer.allowsPlain, hmark, hstart, hearly, hall, (htame c List.mem_cons_self).2, hlast]

theorem startsOther_of_none {c : Char} (h : Writer.startsOther c none = false) (next : Option Char) :
    Writer.startsOther c next = false := by
  simp only [Writer.startsOther, Writer.isGap, Bool.and_true, Bool.or_eq_false_iff] at h ⊢
  exact ⟨h.1, by rw [h.2]; rfl⟩

/-- Text that starts with a character that is plain before all others. -/
theorem suits_tame {c : Char} {cs : List Char}
    (hc : c ≠ '-' ∧ c ≠ '.' ∧ Writer.startsOther c none = false)
    (h : ∀ d ∈ c :: cs, isTame d = true) : Scanner.Suits .plain (c :: cs) :=
  ⟨allowsPlain_tame h (by simp [Writer.isDocumentMark, hc]) (startsOther_of_none hc.2.2 _), by simp⟩

theorem suits_numeral {cs : List Char} (h : Numeral cs) : Scanner.Suits .plain cs := by
  cases h with
  | @unsigned d rest hd hrest =>
    have hall : ∀ c ∈ d :: rest, isNumeral c = true :=
      List.forall_mem_cons.mpr ⟨isNumeral_of_isDigit hd, hrest⟩
    exact suits_tame
      (of_isDigit (p := fun d => d ≠ '-' ∧ d ≠ '.' ∧ Writer.startsOther d none = false) (by decide) hd)
      fun c hc => isTame_of_isNumeral (hall c hc)
  | @negative d rest hd hrest =>
    have hall : ∀ c ∈ '-' :: d :: rest, isNumeral c = true :=
      List.forall_mem_cons.mpr ⟨rfl, List.forall_mem_cons.mpr ⟨isNumeral_of_isDigit hd, hrest⟩⟩
    have hmark : d ≠ '-' := of_isDigit (p := fun d => d ≠ '-') (by decide) hd
    have hstart : Writer.startsOther '-' (some d) = false :=
      of_isDigit (p := fun d => Writer.startsOther '-' (some d) = false) (by decide) hd
    exact ⟨allowsPlain_tame (fun c hc => isTame_of_isNumeral (hall c hc))
      (by simp [Writer.isDocumentMark, hmark]) hstart, by simp⟩

/-- The characters of the names of fields. -/
def isNameChar (c : Char) : Bool := c.isLower || c = '_'

theorem of_isNameChar {p : Char → Prop} (hlower : ∀ n < 26, p (Char.ofNat (97 + n))) (hline : p '_')
    {c : Char} (h : isNameChar c = true) : p c := by
  simp only [isNameChar, Bool.or_eq_true, decide_eq_true_eq] at h
  rcases h with h | rfl
  · exact of_isLower hlower h
  · exact hline

theorem suits_name {cs : List Char} (h : ∀ c ∈ cs, isNameChar c = true) (hne : cs ≠ []) :
    Scanner.Suits .plain cs := by
  obtain ⟨c, cs, rfl⟩ := List.exists_cons_of_ne_nil hne
  refine suits_tame ?_ fun d hd => ?_
  · exact of_isNameChar (p := fun c => c ≠ '-' ∧ c ≠ '.' ∧ Writer.startsOther c none = false) (by decide)
      (by decide) (h c List.mem_cons_self)
  · exact of_isNameChar (p := fun c => isTame c = true) (by decide) (by decide) (h d hd)

theorem width_name {cs : List Char} (h : ∀ c ∈ cs, isNameChar c = true) : width cs = cs.length := by
  induction cs with
  | nil => rfl
  | cons c cs ih =>
    obtain ⟨hc, hcs⟩ := List.forall_mem_cons.mp h
    have hsize : c.utf8Size = 1 := of_isNameChar (p := fun c => c.utf8Size = 1) (by decide) (by decide) hc
    have hmore := ih hcs
    simp only [width, List.map_cons, List.sum_cons, hsize, List.length_cons] at hmore ⊢
    omega

namespace Core

theorem digit?_of_isDigit {c : Char} (h : c.isDigit = true) :
    digit? 10 c = some (Decimal.digitValue c) :=
  of_isDigit (p := fun c => digit? 10 c = some (Decimal.digitValue c)) (by decide) h

theorem digits?_of_isDigit {ds : List Char} (h : ∀ c ∈ ds, c.isDigit = true) (hne : ds ≠ []) :
    digits? 10 ds = some (Decimal.naturalOf ds) := by
  have hvalues : ds.mapM (digit? 10) = some (ds.map Decimal.digitValue) := by
    clear hne
    induction ds with
    | nil => rfl
    | cons d ds ih =>
      rw [List.mapM_cons, digit?_of_isDigit (h d List.mem_cons_self),
        ih fun c hc => h c (List.mem_cons_of_mem d hc)]
      rfl
  rw [digits?, hvalues, if_neg (by simpa using hne), Option.map_some, List.foldl_map]
  rfl

theorem magnitude?_toDigits (n : Nat) : magnitude? (Nat.toDigits 10 n) = some n := by
  cases n with
  | zero => rfl
  | succ n =>
    have hfirst := Decimal.head?_toDigits (Nat.succ_pos n)
    have hne : Nat.toDigits 10 (n + 1) ≠ [] := Nat.toDigits_ne_nil
    have hread := digits?_of_isDigit (fun _ => isDigit_of_mem_toDigits) hne
    rw [Decimal.naturalOf_toDigits] at hread
    obtain ⟨d, rest, hcons⟩ := List.exists_cons_of_ne_nil hne
    rw [hcons] at hfirst hread ⊢
    have hd : d ≠ '0' := by simpa using hfirst
    simp [magnitude?, hd, hread]

theorem withoutPlus_numeral {cs : List Char} (h : Numeral cs) : withoutPlus cs = cs := by
  cases h with
  | @unsigned d rest hd hrest =>
    have hplus : d ≠ '+' := of_isDigit (p := fun d => d ≠ '+') (by decide) hd
    simp [withoutPlus, hplus]
  | negative => rfl

theorem natural?_toString (n : Nat) : natural? (toString n) = some n := by
  rw [natural?, Nat.toString_eq_repr, Nat.toList_repr,
    withoutPlus_numeral (show Numeral (Nat.toDigits 10 n) from numeral_toDigits n false),
    magnitude?_toDigits]

theorem integer?_toString (i : Int) : integer? (toString i) = some i := by
  have hread := magnitude?_toDigits i.natAbs
  have hplus := withoutPlus_numeral (numeral_toDigits i.natAbs (i < 0))
  simp only [decide_eq_true_eq] at hplus
  rw [integer?, natural?, negative?, toList_toString, hplus]
  by_cases hneg : i < 0
  · have hminus : ∀ ds, magnitude? ('-' :: ds) = none := by
      intro ds
      simp [magnitude?, digits?, List.mapM_cons, digit?]
    have habs : -(i.natAbs : Int) = i := by omega
    simp only [hneg, if_true, List.singleton_append, hminus, hread]
    exact congrArg some habs
  · have habs : (i.natAbs : Int) = i := by omega
    simp only [hneg, if_false, List.nil_append, hread, habs]

theorem isDigit_of_numeral {cs : List Char} (h : Numeral cs) :
    (Decimal.splitSign cs).2.head?.any Char.isDigit = true := by
  cases h with
  | unsigned hd hrest => simp [Decimal.splitSign_cons hd, hd]
  | negative hd hrest => simp [Decimal.splitSign, hd]

/-- A number is none of the words for what is no finite number. -/
theorem ne_word_of_numeral {s : String} (h : Numeral s.toList) :
    ∀ w ∈ [".inf", ".Inf", ".INF", "-.inf", "-.Inf", "-.INF", ".nan", ".NaN", ".NAN"], s ≠ w := by
  have hwords : ∀ w ∈ [".inf", ".Inf", ".INF", "-.inf", "-.Inf", "-.INF", ".nan", ".NaN", ".NAN"],
      (Decimal.splitSign w.toList).2.head?.any Char.isDigit = false := by decide
  rintro w hw rfl
  exact Bool.false_ne_true ((hwords _ hw).symm.trans (isDigit_of_numeral h))

theorem double?_write {style : Decimal.Style} {x : Binary64} (hx : x ≠ .nan)
    (hstyle : style.infinity = ".inf") : double? (x.write style) = some x := by
  cases x with
  | nan => exact absurd rfl hx
  | infinite negative => cases negative <;> simp only [Binary64.write, hstyle] <;> decide
  | finite negative m e h =>
    have hnumeral := numeral_write style negative h
    have hread := Binary64.double?_write style negative h
    have hwords := ne_word_of_numeral hnumeral
    have hplus : ∀ cs, ((Binary64.finite negative m e h).write style).toList ≠ '+' :: cs := by
      intro cs hcs
      rw [hcs] at hnumeral
      cases hnumeral with
      | unsigned hd hrest => exact absurd hd (by decide)
    unfold double?
    simp only [withoutPlus_numeral hnumeral, String.ofList_toList]
    rw [if_neg (by simp [hwords]), if_neg (by simp [hwords]), if_neg (by simp [hwords])]
    split
    · exact absurd ‹_› (hplus _)
    · exact absurd ‹_› (hplus _)
    · rw [hread]

end Core

theorem suits_styleOf (s : String) : Scanner.Suits (Writer.styleOf s) s.toList := by
  unfold Writer.styleOf
  simp only
  split
  · rename_i hline
    split
    · rename_i hblock
      exact ⟨hblock, by simpa using hline⟩
    · trivial
  · rename_i hline
    split
    · rename_i hplain
      simp only [Bool.and_eq_true, Bool.not_eq_true'] at hplain
      refine ⟨hplain.2, fun hempty => ?_⟩
      rw [String.toList_eq_nil_iff.mp hempty] at hplain
      exact absurd hplain.1 (by decide)
    · split
      · rename_i hsingle
        exact ⟨hsingle, by simpa using hline⟩
      · trivial

end PointerTriage.Yaml
