import Mathlib.Data.List.TakeWhile
import PointerTriage.Json.Token
import PointerTriage.Json.Writer
import PointerTriage.Proofs.Decimal.Digits

namespace PointerTriage.Json
open PointerTriage.Decimal (naturalOf_toDigits head?_toDigits isDigit_of_mem_toDigits)

/-- A value whose containers nest at most so deep, with such atoms. -/
inductive Nested (atom : Json → Prop) : Nat → Json → Prop where
  | atom {n : Nat} {j : Json} (h : atom j) : Nested atom n j
  | list {n : Nat} {items : List Json} (h : ∀ j ∈ items, Nested atom n j) :
      Nested atom (n + 1) (.list items)
  | record {n : Nat} {entries : List (String × Json)} (h : ∀ e ∈ entries, Nested atom n e.2) :
      Nested atom (n + 1) (.record entries)

/-- What is written as it is read: no reals, and integers of 64 bits. -/
def IsPlain : Json → Prop
  | .null | .bool _ | .text _ => True
  | .integer i => -9223372036854775808 ≤ i ∧ i < 18446744073709551616
  | .real _ | .list _ | .record _ => False

mutual

/-- The tokens that a value is written with. -/
def tokens : Json → List Token
  | .text s => [.text s]
  | .list [] => [.openList, .closeList]
  | .list (j :: js) => .openList :: tokens j ++ itemTokens js ++ [.closeList]
  | .record [] => [.openRecord, .closeRecord]
  | .record ((k, j) :: es) =>
    .openRecord :: .text k :: .colon :: tokens j ++ entryTokens es ++ [.closeRecord]
  | j => [.atom j]

def itemTokens : List Json → List Token
  | [] => []
  | j :: js => .comma :: tokens j ++ itemTokens js

def entryTokens : List (String × Json) → List Token
  | [] => []
  | (k, j) :: es => .comma :: .text k :: .colon :: tokens j ++ entryTokens es

end

theorem hex4?_hexDigit : ∀ n < 32, hex4? '0' '0' (hexDigit (n / 16)) (hexDigit (n % 16)) = some n := by
  decide

theorem scalar?_toNat (c : Char) : scalar? c.toNat = some c := by
  have hvalid : c.toNat.isValidChar := c.valid
  rw [scalar?, if_pos hvalid, Char.ofNat_toNat]

/-- An escape for a character outside the surrogates stands for it, whatever follows. -/
theorem quoted?_unicode {a b c d x : Char} {n : Nat} (hn : hex4? a b c d = some n)
    (hx : scalar? n = some x) (cs : List Char) :
    quoted? ('\\' :: 'u' :: a :: b :: c :: d :: cs) =
      (quoted? cs).map fun (s, rest) => (x :: s, rest) := by
  rw [quoted?.eq_def]
  split
  case h_1 heq => cases heq
  case h_2 heq => cases heq
  case h_3 heq =>
    cases heq
    rw [hn, Option.bind_eq_bind, Option.bind_some, hx]
  case h_4 heq =>
    cases heq
    rw [hn, Option.bind_eq_bind, Option.bind_some, hx]
    rfl
  case h_5 hnot heq =>
    cases heq
    exact absurd rfl (hnot _ _ _ _ _ rfl)
  case h_6 hnot heq =>
    cases heq
    exact absurd rfl (hnot _ _ rfl)

/-- The characters with an escape of their own. -/
def shortEscapes : List Char := ['"', '\\', '\n', '\r', '\t', '\x08', '\x0c']

theorem quoted?_escape (c : Char) (cs : List Char) :
    quoted? (escape c ++ cs) = (quoted? cs).map fun (s, rest) => (c :: s, rest) := by
  by_cases hshort : c ∈ shortEscapes
  · simp only [shortEscapes, List.mem_cons, List.not_mem_nil, or_false] at hshort
    rcases hshort with rfl | rfl | rfl | rfl | rfl | rfl | rfl <;> rfl
  · simp only [shortEscapes, List.mem_cons, List.not_mem_nil, or_false, not_or] at hshort
    obtain ⟨hquote, hslash, hnewline, hreturn, htab, hback, hfeed⟩ := hshort
    simp only [escape, hquote, hslash, hnewline, hreturn, htab, hback, hfeed, if_false]
    split
    · rename_i hlt
      exact quoted?_unicode (hex4?_hexDigit c.toNat hlt) (scalar?_toNat c) cs
    · rename_i hlt
      rw [List.singleton_append, quoted?]
      · simp [hlt, hslash]
      all_goals simp [hquote, hslash]

theorem quoted?_flatMap_escape (s rest : List Char) :
    quoted? (s.flatMap escape ++ '"' :: rest) = some (s, rest) := by
  induction s with
  | nil => rfl
  | cons c s ih => rw [List.flatMap_cons, List.append_assoc, quoted?_escape, ih, Option.map_some]

/-- The digits of a number are its whole part, and in order. -/
theorem whole_toDigits (n : Nat) :
    (Nat.toDigits 10 n).takeWhile Char.isDigit = Nat.toDigits 10 n ∧
      (Nat.toDigits 10 n).dropWhile Char.isDigit = [] ∧
      ¬((Nat.toDigits 10 n).isEmpty ∨
        ((Nat.toDigits 10 n).head? = some '0' ∧ (Nat.toDigits 10 n).length > 1)) := by
  refine ⟨List.takeWhile_eq_self_iff.mpr fun _ => isDigit_of_mem_toDigits,
    List.dropWhile_eq_nil_iff.mpr fun _ => isDigit_of_mem_toDigits, ?_⟩
  rintro (hempty | ⟨hzero, hlong⟩)
  · exact Nat.toDigits_ne_nil (List.isEmpty_iff.mp hempty)
  · cases n with
    | zero => simp at hlong
    | succ n => exact head?_toDigits n.succ_pos hzero

theorem number?_toDigits {n : Nat} (h : n < 18446744073709551616) :
    number? (Nat.toDigits 10 n) = some (.integer n) := by
  have hsign : (Nat.toDigits 10 n).head? ≠ some '-' := by
    intro hhead
    have hdigit := isDigit_of_mem_toDigits (List.mem_of_mem_head? hhead)
    exact absurd hdigit (by decide)
  obtain ⟨hwhole, hrest, hproper⟩ := whole_toDigits n
  simp only [number?, hsign, if_false, hwhole, hrest, hproper, naturalOf_toDigits]
  simp [h]

theorem number?_negative {n : Nat} (hpos : 0 < n) (h : n ≤ 9223372036854775808) :
    number? ('-' :: Nat.toDigits 10 n) = some (.integer (-n)) := by
  obtain ⟨hwhole, hrest, hproper⟩ := whole_toDigits n
  simp only [number?, List.head?_cons, if_true, List.drop_succ_cons, List.drop_zero, hwhole, hrest,
    hproper, if_false, naturalOf_toDigits]
  simp [hpos, h]

theorem number?_toString {i : Int} (hlow : -9223372036854775808 ≤ i)
    (hhigh : i < 18446744073709551616) : number? (toString i).toList = some (.integer i) := by
  rw [Int.toString_eq_repr, Int.repr_eq_if]
  split
  · rename_i hle
    rw [Nat.toList_repr, number?_toDigits (by omega), Int.toNat_of_nonneg hle]
  · rename_i hlt
    rw [String.toList_append, Nat.toList_repr]
    have hneg : number? ('-' :: Nat.toDigits 10 (-i).toNat) = some (.integer (-((-i).toNat : Int))) :=
      number?_negative (by omega) (by omega)
    rw [Int.toNat_of_nonneg (by omega), Int.neg_neg] at hneg
    exact hneg

/-- A number or a word ends here. -/
def Breaks (cs : List Char) : Prop := ∀ c ∈ cs.head?, isNumberChar c = false ∧ c.isAlpha = false

theorem breaks_cons {c : Char} (cs : List Char) (h : isNumberChar c = false ∧ c.isAlpha = false) :
    Breaks (c :: cs) := by
  intro d hd
  cases hd
  exact h

theorem takeWhile_append_of_breaks {p : Char → Bool} {cs rest : List Char} (hcs : ∀ c ∈ cs, p c)
    (hrest : ∀ c ∈ rest.head?, p c = false) : (cs ++ rest).takeWhile p = cs ∧
      (cs ++ rest).dropWhile p = rest := by
  rw [List.takeWhile_append_of_pos hcs, List.dropWhile_append_of_pos hcs]
  cases rest with
  | nil => simp
  | cons c rest => simp [hrest c rfl]

theorem tokensAfter_space {c : Char} (h : isSpace c = true) (before : List Token) (cs : List Char) :
    tokensAfter before (c :: cs) = tokensAfter before cs := by
  rw [tokensAfter, if_pos h]

theorem tokensAfter_gap (layout : Layout) (level : Nat) (before : List Token) (cs : List Char) :
    tokensAfter before (layout.gap level ++ cs) = tokensAfter before cs := by
  cases layout with
  | compact => rfl
  | indented =>
    have hblanks : ∀ n, tokensAfter before (List.replicate n ' ' ++ cs) = tokensAfter before cs := by
      intro n
      induction n with
      | zero => rfl
      | succ n ih => rw [List.replicate_succ, List.cons_append, tokensAfter_space rfl, ih]
    rw [Layout.gap, List.cons_append, tokensAfter_space rfl, hblanks]

theorem mark?_apart {c : Char} {t : Token} (h : mark? c = some t) :
    isSpace c = false ∧ c ≠ '"' ∧ isNumberChar c = false := by
  unfold mark? at h
  split at h
  case h_7 => cases h
  all_goals decide

theorem tokensAfter_mark {c : Char} {t : Token} (h : mark? c = some t) (before : List Token)
    (cs : List Char) : tokensAfter before (c :: cs) = tokensAfter (t :: before) cs := by
  obtain ⟨hspace, hquote, _⟩ := mark?_apart h
  rw [tokensAfter, if_neg (by simp [hspace]), if_neg hquote, h]

theorem tokensAfter_colon (layout : Layout) (before : List Token) (cs : List Char) :
    tokensAfter before (layout.colon ++ cs) = tokensAfter (.colon :: before) cs := by
  cases layout with
  | compact => exact tokensAfter_mark rfl before cs
  | indented =>
    rw [Layout.colon, List.cons_append, tokensAfter_mark rfl, List.singleton_append,
      tokensAfter_space rfl]

theorem tokensAfter_quote (s : String) (before : List Token) (cs : List Char) :
    tokensAfter before (quote s ++ cs) = tokensAfter (.text s :: before) cs := by
  have hquoted := quoted?_flatMap_escape s.toList cs
  rw [quote, List.cons_append, List.cons_append, List.append_assoc, List.singleton_append,
    tokensAfter, if_neg (by decide), if_pos rfl]
  split
  · rename_i hnone
    rw [hquoted] at hnone
    cases hnone
  · rename_i hsome
    rw [hquoted] at hsome
    cases hsome
    rw [String.ofList_toList]

theorem isNumberChar_apart {c : Char} (h : isNumberChar c = true) :
    isSpace c = false ∧ c ≠ '"' ∧ mark? c = none := by
  refine ⟨?_, ?_, ?_⟩
  · by_contra hspace
    simp only [isSpace, Bool.not_eq_false, Bool.or_eq_true, decide_eq_true_eq] at hspace
    rcases hspace with ((rfl | rfl) | rfl) | rfl <;> exact absurd h (by decide)
  · rintro rfl
    exact absurd h (by decide)
  · cases hm : mark? c with
    | none => rfl
    | some t =>
      rw [(mark?_apart hm).2.2] at h
      cases h

theorem tokensAfter_number {cs rest : List Char} {j : Json} (hcs : ∀ c ∈ cs, isNumberChar c)
    (hj : number? cs = some j) (hrest : Breaks rest) (before : List Token) :
    tokensAfter before (cs ++ rest) = tokensAfter (.atom j :: before) rest := by
  cases cs with
  | nil => cases hj
  | cons c cs =>
    obtain ⟨hc, hcs⟩ := List.forall_mem_cons.mp hcs
    obtain ⟨hspace, hquote, hmark⟩ := isNumberChar_apart hc
    obtain ⟨htake, hdrop⟩ := takeWhile_append_of_breaks hcs fun c hc => (hrest c hc).1
    rw [List.cons_append, tokensAfter, if_neg (by simp [hspace]), if_neg hquote, hmark]
    simp only [if_pos hc, htake, hdrop, hj]

theorem tokensAfter_integer {i : Int} (h : IsPlain (.integer i)) {rest : List Char}
    (hrest : Breaks rest) (before : List Token) :
    tokensAfter before ((toString i).toList ++ rest) =
      tokensAfter (.atom (.integer i) :: before) rest := by
  refine tokensAfter_number ?_ (number?_toString h.1 h.2) hrest before
  have hdigit : ∀ n, ∀ c ∈ Nat.toDigits 10 n, isNumberChar c := by
    intro n c hc
    simp [isNumberChar, isDigit_of_mem_toDigits hc]
  rw [Int.toString_eq_repr, Int.repr_eq_if]
  split
  · rw [Nat.toList_repr]
    exact hdigit _
  · rw [String.toList_append, Nat.toList_repr]
    exact List.forall_mem_cons.mpr ⟨rfl, hdigit _⟩

theorem tokensAfter_word {c : Char} {cs rest : List Char} {j : Json}
    (hc : isSpace c = false ∧ c ≠ '"' ∧ (mark? c).isNone ∧ isNumberChar c = false)
    (hcs : cs.all Char.isAlpha) (hj : word? (c :: cs) = some j) (hrest : Breaks rest)
    (before : List Token) :
    tokensAfter before (c :: cs ++ rest) = tokensAfter (.atom j :: before) rest := by
  obtain ⟨hspace, hquote, hmark, hnumber⟩ := hc
  obtain ⟨htake, hdrop⟩ := takeWhile_append_of_breaks (List.all_eq_true.mp hcs) fun c hc => (hrest c hc).2
  rw [List.cons_append, tokensAfter, if_neg (by simp [hspace]), if_neg hquote,
    Option.isNone_iff_eq_none.mp hmark]
  simp only [hnumber, Bool.false_eq_true, if_false, htake, hdrop, hj]

/-- The text of a value has the tokens of the value, whatever tokens are before it. -/
def Lexes (j : Json) : Prop :=
  ∀ layout level before rest, Breaks rest →
    tokensAfter before (write layout level j ++ rest) =
      tokensAfter ((tokens j).reverse ++ before) rest

theorem breaks_gap (layout : Layout) (level : Nat) {c : Char} (cs : List Char)
    (h : isNumberChar c = false ∧ c.isAlpha = false) : Breaks (layout.gap level ++ c :: cs) := by
  cases layout with
  | compact => exact breaks_cons cs h
  | indented => exact breaks_cons _ (by decide)

theorem breaks_items (layout : Layout) (level : Nat) (js : List Json) {rest : List Char}
    (hrest : Breaks rest) : Breaks (writeItems layout level js ++ rest) := by
  cases js with
  | nil => exact hrest
  | cons j js => exact breaks_cons _ (by decide)

theorem breaks_entries (layout : Layout) (level : Nat) (es : List (String × Json))
    {rest : List Char} (hrest : Breaks rest) : Breaks (writeEntries layout level es ++ rest) := by
  cases es with
  | nil => exact hrest
  | cons e es => exact breaks_cons _ (by decide)

theorem tokensAfter_items {js : List Json} (h : ∀ j ∈ js, Lexes j) (layout : Layout) (level : Nat)
    (before : List Token) {rest : List Char} (hrest : Breaks rest) :
    tokensAfter before (writeItems layout level js ++ rest) =
      tokensAfter ((itemTokens js).reverse ++ before) rest := by
  induction js generalizing before with
  | nil => rfl
  | cons j js ih =>
    obtain ⟨hj, hjs⟩ := List.forall_mem_cons.mp h
    simp only [writeItems, itemTokens, List.cons_append, List.append_assoc]
    rw [tokensAfter_mark rfl, tokensAfter_gap, hj _ _ _ _ (breaks_items layout level js hrest),
      ih hjs]
    simp

theorem tokensAfter_entries {es : List (String × Json)} (h : ∀ e ∈ es, Lexes e.2) (layout : Layout)
    (level : Nat) (before : List Token) {rest : List Char} (hrest : Breaks rest) :
    tokensAfter before (writeEntries layout level es ++ rest) =
      tokensAfter ((entryTokens es).reverse ++ before) rest := by
  induction es generalizing before with
  | nil => rfl
  | cons e es ih =>
    obtain ⟨k, j⟩ := e
    obtain ⟨hj, hes⟩ := List.forall_mem_cons.mp h
    simp only [writeEntries, entryTokens, List.cons_append, List.append_assoc]
    rw [tokensAfter_mark rfl, tokensAfter_gap, tokensAfter_quote, tokensAfter_colon,
      hj _ _ _ _ (breaks_entries layout level es hrest), ih hes]
    simp

theorem lexes_list {js : List Json} (h : ∀ j ∈ js, Lexes j) : Lexes (.list js) := by
  intro layout level before rest hrest
  cases js with
  | nil =>
    change tokensAfter before ('[' :: ']' :: rest) = _
    rw [tokensAfter_mark rfl, tokensAfter_mark rfl]
    rfl
  | cons j js =>
    obtain ⟨hj, hjs⟩ := List.forall_mem_cons.mp h
    have hclose := breaks_gap layout level rest (c := ']') (by decide)
    simp only [write, tokens, List.cons_append, List.append_assoc, List.nil_append]
    rw [tokensAfter_mark rfl, tokensAfter_gap, hj _ _ _ _ (breaks_items layout _ js hclose),
      tokensAfter_items hjs layout _ _ hclose, tokensAfter_gap, tokensAfter_mark rfl]
    simp

theorem lexes_record {es : List (String × Json)} (h : ∀ e ∈ es, Lexes e.2) : Lexes (.record es) := by
  intro layout level before rest hrest
  cases es with
  | nil =>
    change tokensAfter before ('{' :: '}' :: rest) = _
    rw [tokensAfter_mark rfl, tokensAfter_mark rfl]
    rfl
  | cons e es =>
    obtain ⟨k, j⟩ := e
    obtain ⟨hj, hes⟩ := List.forall_mem_cons.mp h
    have hclose := breaks_gap layout level rest (c := '}') (by decide)
    simp only [write, tokens, List.cons_append, List.append_assoc, List.nil_append]
    rw [tokensAfter_mark rfl, tokensAfter_gap, tokensAfter_quote, tokensAfter_colon,
      hj _ _ _ _ (breaks_entries layout _ es hclose), tokensAfter_entries hes layout _ _ hclose,
      tokensAfter_gap, tokensAfter_mark rfl]
    simp

theorem lexes_plain {j : Json} (h : IsPlain j) : Lexes j := by
  intro layout level before rest hrest
  cases j with
  | null => exact tokensAfter_word (by decide) (by decide) rfl hrest before
  | bool b =>
    cases b with
    | false => exact tokensAfter_word (by decide) (by decide) rfl hrest before
    | true => exact tokensAfter_word (by decide) (by decide) rfl hrest before
  | integer i => exact tokensAfter_integer h hrest before
  | text s => exact tokensAfter_quote s before rest
  | real x => cases h
  | list js => cases h
  | record es => cases h

theorem lexes_of_nested {n : Nat} {j : Json} (h : Nested IsPlain n j) : Lexes j := by
  induction h with
  | atom h => exact lexes_plain h
  | list _ ih => exact lexes_list ih
  | record _ ih => exact lexes_record ih

theorem tokens?_write {n : Nat} {j : Json} (h : Nested IsPlain n j) (layout : Layout) :
    tokens? (String.ofList (write layout 0 j)) = some (tokens j) := by
  have hwhole := lexes_of_nested h layout 0 [] [] nofun
  rw [List.append_nil, List.append_nil] at hwhole
  rw [tokens?, String.toList_ofList, hwhole, tokensAfter, List.reverse_reverse]

end PointerTriage.Json
