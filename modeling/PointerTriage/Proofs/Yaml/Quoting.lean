import PointerTriage.Proofs.Yaml.Glyphs

namespace PointerTriage.Yaml
open Glyph
open Writer (blanks)

/-- The quote that closes a scalar. -/
def closingQuote (double : Bool) : Char := if double then '"' else '\''

/-- What a quoted scalar gives after its first word: that is all, or white space and more follow. -/
inductive AfterWord (double : Bool) (left : Nat) (word : List Char) (escaped : Bool) (gs : Input) :
    List Char → Input → Prop where
  | close (h : gs.peek = closingQuote double) : AfterWord double left word escaped gs word (gs.drop 1)
  | more {gap : Gap} {after out : Input} {more : List Char} (h : gs.peek ≠ closingQuote double)
      (hgap : gap? 0 escaped gs = some (gap, after)) (hleft : after.left < left)
      (hmore : quotedFrom double after = some (more, out)) :
      AfterWord double left word escaped gs
        (word ++ (if escaped then gap.breaks else gap.fold) ++ more) out

section Steps

variable {double : Bool} {line column : Nat}

theorem quotedFrom_eq_some_iff {gs out : Input} {cs : List Char} :
    quotedFrom double gs = some (cs, out) ↔
      (gs.atDocumentMark || isEnd gs.peek) = false ∧
        ∃ word escaped rest, quotedWord? double gs = some (word, escaped, rest) ∧
          AfterWord double gs.left word escaped rest cs out := by
  rw [quotedFrom, ← closingQuote]
  cases (gs.atDocumentMark || isEnd gs.peek) with
  | true => simp
  | false =>
    cases quotedWord? double gs with
    | none => simp
    | some read =>
      obtain ⟨word, escaped, rest⟩ := read
      simp only [Bool.false_eq_true, if_false, Option.bind_eq_bind, Option.bind_some, true_and,
        Option.some.injEq, Prod.mk.injEq]
      constructor
      · intro h
        refine ⟨word, escaped, rest, ⟨rfl, rfl, rfl⟩, ?_⟩
        by_cases hclose : rest.peek = closingQuote double
        · rw [if_pos hclose] at h
          cases h
          exact .close hclose
        · rw [if_neg hclose] at h
          obtain ⟨⟨gap, after⟩, hgap, h⟩ := Option.bind_eq_some_iff.mp h
          obtain ⟨hleft, h⟩ := Option.ite_none_right_eq_some.mp h
          obtain ⟨⟨more, out'⟩, hmore, h⟩ := Option.bind_eq_some_iff.mp h
          cases h
          exact .more hclose hgap hleft hmore
      · rintro ⟨_, _, _, ⟨rfl, rfl, rfl⟩, h⟩
        cases h with
        | close hclose => rw [if_pos hclose]; rfl
        | more hclose hgap hleft hmore => simp [hclose, hgap, hleft, hmore]

theorem isSpace_of_quotedPart? {cs : List Char} {c : Char} {out : Input}
    (h : quotedPart? double (glyphs line column cs) = some (.char c out)) :
    isSpace (first cs) = false := by
  cases hspace : isSpace (first cs) with
  | false => rfl
  | true => simp [quotedPart?, hspace] at h

theorem quotedFrom_char {cs rest : List Char} {c : Char} {line' column' : Nat} {more : List Char}
    {out : Input} (hcolumn : 0 < column)
    (hpart : quotedPart? double (glyphs line column cs) = some (.char c (glyphs line' column' rest)))
    (hleft : width rest < width cs)
    (hrest : quotedFrom double (glyphs line' column' rest) = some (more, out)) :
    quotedFrom double (glyphs line column cs) = some (c :: more, out) := by
  obtain ⟨-, -, hend⟩ := isSpace_eq_false_iff.mp (isSpace_of_quotedPart? hpart)
  obtain ⟨-, word, escaped, after, hword, hafter⟩ := quotedFrom_eq_some_iff.mp hrest
  refine quotedFrom_eq_some_iff.mpr ⟨by simp [atDocumentMark_glyphs _ _ _ hcolumn, hend],
    c :: word, escaped, after, ?_, ?_⟩
  · rw [quotedWord?, hpart]
    simp [hleft, hword]
  · cases hafter with
    | close hclose => exact .close hclose
    | more hclose hgap hless hmore =>
      rw [left_glyphs] at hless
      exact .more hclose hgap (by rw [left_glyphs]; omega) hmore

theorem quotedFrom_space {cs rest more : List Char} {gap : Gap} {line' column' : Nat} {out : Input}
    (hcolumn : 0 < column) (hspace : isSpace (first cs) = true) (hend : isEnd (first cs) = false)
    (hgap : gap? 0 false (glyphs line column cs) = some (gap, glyphs line' column' rest))
    (hleft : width rest < width cs)
    (hrest : quotedFrom double (glyphs line' column' rest) = some (more, out)) :
    quotedFrom double (glyphs line column cs) = some (gap.fold ++ more, out) := by
  have hclose : first cs ≠ closingQuote double := by
    intro h
    rw [h] at hspace
    cases double <;> exact absurd hspace (by decide)
  have hword : quotedWord? double (glyphs line column cs) =
      some ([], false, glyphs line column cs) := by
    rw [quotedWord?]
    simp [quotedPart?, hspace]
  exact quotedFrom_eq_some_iff.mpr ⟨by simp [atDocumentMark_glyphs _ _ _ hcolumn, hend],
    [], false, _, hword, .more (by rwa [peek_glyphs]) hgap (by simpa using hleft) hrest⟩

theorem quotedFrom_blanks {n : Nat} {rest more : List Char} {out : Input} (hcolumn : 0 < column)
    (hstops : Stops rest)
    (hrest : quotedFrom double (glyphs line (column + (n + 1)) rest) = some (more, out)) :
    quotedFrom double (glyphs line column (blanks (n + 1) ++ rest)) =
      some (blanks (n + 1) ++ more, out) := by
  have hgap := gap?_blanks hstops 0 false (n + 1) line column
  have hleft := width_lt_append (show blanks (n + 1) ≠ [] by simp [blanks]) rest
  exact quotedFrom_space hcolumn rfl rfl hgap hleft hrest

/-- Line breaks count all, unless the first one is `\n`. -/
theorem quotedFrom_breaks {bs rest more : List Char} {n : Nat} {out : Input} (hcolumn : 0 < column)
    (hbs : ∀ b ∈ bs, isBreak b = true) (hne : bs ≠ []) (hline : '\n' ∉ bs) (hstops : Stops rest)
    (hrest : quotedFrom double (glyphs (line + bs.length) n rest) = some (more, out)) :
    quotedFrom double (glyphs line column (bs ++ (blanks n ++ rest))) = some (bs ++ more, out) := by
  have hgap := gap?_breaks hstops 0 false n hbs hne line column
  have hleft : width rest < width (bs ++ (blanks n ++ rest)) := by
    have hbs := width_pos hne
    rw [width_append, width_append]
    omega
  have hfold : (⟨[], bs⟩ : Gap).fold = bs := by
    obtain ⟨b, bs, rfl⟩ := List.exists_cons_of_ne_nil hne
    have hb : b ≠ '\n' := fun h => hline (by simp [h])
    unfold Gap.fold
    split <;> simp_all
  obtain ⟨b, bs', hcons⟩ := List.exists_cons_of_ne_nil hne
  have hb : isBreak b = true := hbs b (by rw [hcons]; exact List.mem_cons_self)
  have hfirst : first (bs ++ (blanks n ++ rest)) = b := by rw [hcons]; rfl
  have hread := quotedFrom_space hcolumn (by rw [hfirst]; exact isSpace_of_isBreak hb)
    (by rw [hfirst]; exact isEnd_of_isBreak hb) hgap hleft hrest
  rwa [hfold] at hread

theorem quotedFrom_close {rest : List Char} (hcolumn : 0 < column) (hnext : first rest ≠ '\'') :
    quotedFrom double (glyphs line column (closingQuote double :: rest)) =
      some ([], glyphs line (column + 1) rest) := by
  have hword : quotedWord? double (glyphs line column (closingQuote double :: rest)) =
      some ([], false, glyphs line column (closingQuote double :: rest)) := by
    have hsecond : (glyphs line column ('\'' :: rest)).charAt 1 ≠ '\'' := by
      rwa [charAt_glyphs_one]
    rw [quotedWord?]
    cases double with
    | true => rfl
    | false =>
      simp only [quotedPart?, closingQuote, peek_glyphs, first_cons, Bool.false_eq_true, if_false,
        hsecond, if_true]
      rfl
  have hbreak : isBreak (closingQuote double) = false := by cases double <;> rfl
  have hend : isEnd (closingQuote double) = false := by cases double <;> rfl
  rw [← drop_glyphs_cons _ _ _ hbreak]
  exact quotedFrom_eq_some_iff.mpr ⟨by simp [atDocumentMark_glyphs _ _ _ hcolumn, hend],
    [], false, _, hword, .close (by simp)⟩

end Steps

theorem hexNumber?_hex (width n : Nat) : hexNumber? (Writer.hex width n) = some (n % 16 ^ width) := by
  induction width generalizing n with
  | zero => simp [Writer.hex, hexNumber?, Nat.mod_one]
  | succ width ih =>
    have hdigit : ∀ d < 16, hexValue? (Writer.hexDigit d) = some d := by decide
    have hlast : hexNumber? (Writer.hex width (n / 16) ++ [Writer.hexDigit (n % 16)]) = do
        return (← hexNumber? (Writer.hex width (n / 16))) * 16 +
          (← hexValue? (Writer.hexDigit (n % 16))) := by
      rw [hexNumber?, List.foldl_append]
      rfl
    rw [Writer.hex, hlast, ih, hdigit _ (Nat.mod_lt _ (by decide))]
    have hsplit : n / 16 % 16 ^ width * 16 + n % 16 = n % 16 ^ (width + 1) := by
      rw [Nat.pow_succ, Nat.mul_comm (16 ^ width), Nat.mod_mul]
      omega
    exact congrArg some hsplit

theorem length_hex (width n : Nat) : (Writer.hex width n).length = width := by
  induction width generalizing n with
  | zero => rfl
  | succ width ih => simp [Writer.hex, ih]

theorem codePoint?_toNat (c : Char) : codePoint? c.toNat = some c := by
  have hvalid : c.toNat < 0xD800 ∨ (0xDFFF < c.toNat ∧ c.toNat < 0x110000) := c.valid
  have htest : (c.toNat < 0xD800 || (0xDFFF < c.toNat && c.toNat ≤ 0x10FFFF)) = true := by
    simp only [Bool.or_eq_true, Bool.and_eq_true, decide_eq_true_eq]
    omega
  rw [codePoint?, if_pos htest, Char.ofNat_toNat]

theorem exists_of_mem_hex {width n : Nat} {c : Char} (h : c ∈ Writer.hex width n) :
    ∃ d < 16, c = Writer.hexDigit d := by
  induction width generalizing n with
  | zero => cases h
  | succ width ih =>
    rcases List.mem_append.mp h with h | h
    · exact ih h
    · exact ⟨n % 16, Nat.mod_lt n (by decide), List.mem_singleton.mp h⟩

theorem isBreak_of_mem_hex {width n : Nat} {c : Char} (h : c ∈ Writer.hex width n) :
    isBreak c = false := by
  have hdigit : ∀ d < 16, isBreak (Writer.hexDigit d) = false := by decide
  obtain ⟨d, hd, rfl⟩ := exists_of_mem_hex h
  exact hdigit d hd

section Escape

variable (line column : Nat) (tail : List Char)

/-- A backslash and what follows it on the line. -/
theorem quotedPart?_backslash {letter : Char} {rest : List Char} (h : isBreak letter = false) :
    quotedPart? true (glyphs line column ('\\' :: letter :: rest)) =
      (escape? (glyphs line (column + 1) (letter :: rest))).map fun (c, rest) => .char c rest := by
  have hslash : isSpace '\\' = false := rfl
  have hbreak : isBreak '\\' = false := rfl
  simp only [quotedPart?, peek_glyphs, first_cons, hslash, charAt_glyphs_one, h,
    drop_glyphs_cons _ _ _ hbreak, Bool.false_eq_true, if_false, if_true]
  rfl

theorem quotedPart?_letter {letter c : Char} (h : isBreak letter = false)
    (hwidth : escapeWidth? letter = none)
    (hletter : escapes.find? (·.1 == letter) = some (letter, c)) :
    quotedPart? true (glyphs line column ('\\' :: letter :: tail)) =
      some (.char c (glyphs line (column + 2) tail)) := by
  rw [quotedPart?_backslash line column h, escape?]
  simp [hwidth, hletter, drop_glyphs_cons _ _ _ h]

theorem quotedPart?_hex {mark c : Char} {width : Nat} (hwidth : escapeWidth? mark = some width)
    (hmark : isBreak mark = false) (hc : c.toNat < 16 ^ width) :
    quotedPart? true (glyphs line column ('\\' :: mark :: (Writer.hex width c.toNat ++ tail))) =
      some (.char c (glyphs line (column + (2 + width)) tail)) := by
  have hhex : ∀ c' ∈ Writer.hex width c.toNat, isBreak c' = false := fun _ => isBreak_of_mem_hex
  have htake := take_glyphs line (column + 2) tail hhex
  have hdrop := drop_glyphs line (column + 1) tail (List.forall_mem_cons.mpr ⟨hmark, hhex⟩)
  rw [length_hex] at htake
  have hcolumn : column + 1 + (1 + width) = column + (2 + width) := by omega
  rw [List.length_cons, length_hex, Nat.add_comm width, hcolumn] at hdrop
  rw [quotedPart?_backslash line column hmark, escape?, peek_glyphs, first_cons, hwidth]
  simp only [drop_glyphs_cons _ _ _ hmark, htake, hexNumber?_hex, Nat.mod_eq_of_lt hc,
    Option.bind_eq_bind, Option.bind_some, codePoint?_toNat]
  rw [← List.cons_append, hdrop]
  rfl

/-- An escaped character reads back; blanks are white space and are read in runs. -/
theorem quotedPart?_escape {c : Char} (hc : c ≠ ' ') :
    quotedPart? true (glyphs line column (Writer.escape c ++ tail)) =
      some (.char c (glyphs line (column + (Writer.escape c).length) tail)) := by
  have htable : ∀ e ∈ Writer.escapes, isBreak e.2 = false ∧ escapeWidth? e.2 = none ∧
      escapes.find? (·.1 == e.2) = some (e.2, e.1) := by decide
  unfold Writer.escape
  split
  · rename_i c' letter hfind
    have hmem := List.mem_of_find?_eq_some hfind
    obtain rfl : c' = c := by simpa using List.find?_some hfind
    obtain ⟨hbreak, hwidth, hletter⟩ := htable _ hmem
    exact quotedPart?_letter line column tail hbreak hwidth hletter
  · rename_i hfind
    have hplain (c' letter : Char) (h : (c', letter) ∈ Writer.escapes) : c ≠ c' := by
      rintro rfl
      simpa using List.find?_eq_none.mp hfind _ h
    split
    · rename_i hprint
      have hquote : c ≠ '"' := hplain '"' '"' (by decide)
      have hslash : c ≠ '\\' := hplain '\\' '\\' (by decide)
      have hbreak : isBreak c = false := by
        simp [isBreak, isSeparator, hplain '\n' 'n' (by decide), hplain '\u2028' 'L' (by decide),
          hplain '\u2029' 'P' (by decide)]
      have hspace : isSpace c = false := isSpace_of_isPrintable hprint hc hbreak
      simp [quotedPart?, hspace, hquote, hslash, drop_glyphs_cons _ _ _ hbreak]
    · have hvalid : c.toNat < 0xD800 ∨ (0xDFFF < c.toNat ∧ c.toNat < 0x110000) := c.valid
      split
      · rename_i hsize
        exact quotedPart?_hex line column tail rfl rfl hsize
      · split
        · rename_i hsize
          exact quotedPart?_hex line column tail rfl rfl hsize
        · exact quotedPart?_hex line column tail rfl rfl (by omega)

end Escape

theorem escape_ne_nil (c : Char) : Writer.escape c ≠ [] := by
  unfold Writer.escape
  repeat' split
  all_goals simp

theorem stops_escape {c : Char} (hc : c ≠ ' ') (tail : List Char) : Stops (Writer.escape c ++ tail) := by
  obtain ⟨hblank, hbreak, -⟩ :=
    isSpace_eq_false_iff.mp (isSpace_of_quotedPart? (quotedPart?_escape 0 0 tail hc))
  exact ⟨hblank, hbreak⟩

theorem flatMap_escape_blanks (n : Nat) : (blanks n).flatMap Writer.escape = blanks n := by
  induction n with
  | zero => rfl
  | succ n ih =>
    have hblank : Writer.escape ' ' = [' '] := rfl
    rw [blanks, List.replicate_succ, ← blanks, List.flatMap_cons, ih, hblank]
    rfl

theorem quotedFrom_escape {c : Char} {cs tail : List Char} {line column : Nat} {out : Input}
    (hcolumn : 0 < column) (hc : c ≠ ' ')
    (h : quotedFrom true (glyphs line (column + (Writer.escape c).length)
      (cs.flatMap Writer.escape ++ tail)) = some (cs, out)) :
    quotedFrom true (glyphs line column ((c :: cs).flatMap Writer.escape ++ tail)) =
      some (c :: cs, out) := by
  rw [List.flatMap_cons, List.append_assoc]
  refine quotedFrom_char hcolumn (quotedPart?_escape line column _ hc) ?_ h
  exact width_lt_append (escape_ne_nil c) _

/-- Characters in double quotes. -/
theorem quotedFrom_double (cs : List Char) (line : Nat) {column : Nat} (hcolumn : 0 < column)
    {rest : List Char} (hrest : first rest ≠ '\'') :
    ∃ column', quotedFrom true (glyphs line column (cs.flatMap Writer.escape ++ '"' :: rest)) =
      some (cs, glyphs line column' rest) := by
  induction cs using run_induction generalizing column with
  | nil => exact ⟨column + 1, quotedFrom_close hcolumn hrest⟩
  | char c cs hc _ ih =>
    obtain ⟨column', hread⟩ := ih (show 0 < column + (Writer.escape c).length by omega)
    exact ⟨column', quotedFrom_escape hcolumn hc hread⟩
  | run n cs hcs ih =>
    obtain ⟨column', hread⟩ := ih (show 0 < column + (n + 1) by omega)
    have hstops : Stops (cs.flatMap Writer.escape ++ '"' :: rest) := by
      cases cs with
      | nil => exact ⟨rfl, rfl⟩
      | cons c cs =>
        rw [List.flatMap_cons, List.append_assoc]
        exact stops_escape (by simpa using hcs) _
    rw [List.flatMap_append, flatMap_escape_blanks, List.append_assoc]
    exact ⟨column', quotedFrom_blanks hcolumn hstops hread⟩
  | lines bs cs hne hbs _ ih =>
    -- line breaks are escaped like other characters
    clear hne
    induction bs generalizing column with
    | nil => exact ih hcolumn
    | cons b bs ih' =>
      obtain ⟨hb, hbs⟩ := List.forall_mem_cons.mp hbs
      have hblank : b ≠ ' ' := by rintro rfl; exact absurd hb (by decide)
      obtain ⟨column', hread⟩ := ih' hbs (show 0 < column + (Writer.escape b).length by omega)
      exact ⟨column', quotedFrom_escape hcolumn hblank hread⟩

theorem hasPair_of_append {p q : Char → Bool} {xs ys : List Char}
    (h : Writer.hasPair p q (xs ++ ys) = false) : Writer.hasPair p q ys = false := by
  induction xs with
  | nil => exact h
  | cons x xs ih =>
    refine ih ?_
    cases hxs : xs ++ ys with
    | nil => rfl
    | cons y ys =>
      rw [List.cons_append, hxs, Writer.hasPair, Bool.or_eq_false_iff] at h
      exact h.2

/-- After a run of one class no character of the other comes. -/
theorem head_of_hasPair {p q : Char → Bool} {xs ys : List Char} (hne : xs ≠ [])
    (hxs : ∀ x ∈ xs, p x = true) (h : Writer.hasPair p q (xs ++ ys) = false) :
    ∀ c ∈ ys.head?, q c = false := by
  intro c hc
  obtain ⟨ys, rfl⟩ := List.head?_eq_some_iff.mp hc
  obtain ⟨xs, x, rfl⟩ : ∃ xs' x, xs = xs' ++ [x] :=
    ⟨xs.dropLast, xs.getLast hne, (List.dropLast_concat_getLast hne).symm⟩
  rw [List.append_assoc] at h
  have hpair := hasPair_of_append h
  rw [List.singleton_append, Writer.hasPair, Bool.or_eq_false_iff, hxs x (by simp)] at hpair
  simpa using hpair.1

/-- Text that single quotes may hold on its lines. -/
structure Single (cs : List Char) : Prop where
  printable : ∀ c ∈ cs, Writer.isPrintable c = true
  oneLine : '\n' ∉ cs
  before : Writer.hasPair (· = ' ') Writer.isLineBreak cs = false
  after : Writer.hasPair Writer.isLineBreak (· = ' ') cs = false

theorem Single.of_append {xs ys : List Char} (h : Single (xs ++ ys)) : Single ys where
  printable c hc := h.printable c (List.mem_append_right xs hc)
  oneLine hc := h.oneLine (List.mem_append_right xs hc)
  before := hasPair_of_append h.before
  after := hasPair_of_append h.after

theorem single_of_allowsSingle {cs : List Char} (h : Writer.allowsSingle cs = true)
    (hline : '\n' ∉ cs) : Single cs := by
  simp only [Writer.allowsSingle, Bool.and_eq_true, Bool.not_eq_true', List.all_eq_true] at h
  exact ⟨h.1.1, hline, h.1.2, h.2⟩

theorem quoted_blanks (indent n : Nat) (cs : List Char) :
    Writer.quoted indent false (blanks n ++ cs) = blanks n ++ Writer.quoted indent false cs := by
  induction n with
  | zero => rfl
  | succ n ih =>
    have hline : Writer.isLineBreak ' ' = false := rfl
    rw [blanks, List.replicate_succ, List.cons_append, ← blanks, Writer.quoted, ih]
    simp [hline]

theorem quoted_breaks {bs : List Char} (hne : bs ≠ []) (hbs : ∀ b ∈ bs, isBreak b = true)
    (indent : Nat) (fresh : Bool) (cs : List Char) :
    Writer.quoted indent fresh (bs ++ cs) = bs ++ Writer.quoted indent true cs := by
  induction bs generalizing fresh with
  | nil => exact absurd rfl hne
  | cons b bs ih =>
    obtain ⟨hb, hbs⟩ := List.forall_mem_cons.mp hbs
    have hline : Writer.isLineBreak b = true := by simp [Writer.isLineBreak, hb]
    rw [List.cons_append, Writer.quoted, if_pos hline]
    cases bs with
    | nil => rfl
    | cons b' bs => rw [ih (by simp) hbs true]; rfl

/-- A line that goes on after its indentation. -/
theorem quoted_fresh {cs : List Char} (h : ∀ c ∈ cs.head?, Writer.isLineBreak c = false)
    (indent : Nat) :
    Writer.quoted indent true cs = blanks indent ++ Writer.quoted indent false cs := by
  cases cs with
  | nil => simp [Writer.quoted]
  | cons c cs =>
    have hc : Writer.isLineBreak c = false := h c rfl
    simp [Writer.quoted, hc]

theorem stops_quoted {cs : List Char} (hblank : cs.head? ≠ some ' ')
    (hcs : ∀ c ∈ cs, Writer.isPrintable c = true) (hbreak : ∀ c ∈ cs.head?, isBreak c = false)
    (indent : Nat) (rest : List Char) :
    Stops (Writer.quoted indent false cs ++ '\'' :: rest) := by
  cases cs with
  | nil => exact ⟨rfl, rfl⟩
  | cons c cs =>
    have hprint := hcs c List.mem_cons_self
    have hbreak : isBreak c = false := hbreak c rfl
    have hspace := isSpace_of_isPrintable hprint (by simpa using hblank) hbreak
    obtain ⟨hblank, hbreak, -⟩ := isSpace_eq_false_iff.mp hspace
    have hfirst : first (Writer.quoted indent false (c :: cs) ++ '\'' :: rest) = c := by
      rw [Writer.quoted, isLineBreak_of_isPrintable hprint, hbreak]
      by_cases hquote : c = '\'' <;> simp [hquote]
    rw [Stops, hfirst]
    exact ⟨hblank, hbreak⟩

theorem quotedPart?_single {c : Char} (hspace : isSpace c = false) (line column : Nat)
    (tail : List Char) :
    quotedPart? false (glyphs line column ((if c = '\'' then ['\'', '\''] else [c]) ++ tail)) =
      some (.char c (glyphs line (column + (if c = '\'' then ['\'', '\''] else [c]).length) tail)) := by
  obtain ⟨-, hbreak, -⟩ := isSpace_eq_false_iff.mp hspace
  by_cases hquote : c = '\''
  · have hspace : isSpace '\'' = false := rfl
    have hdrop := drop_glyphs line column tail
      (show ∀ c ∈ ['\'', '\''], isBreak c = false by simp [isBreak, isSeparator])
    have hsecond := charAt_glyphs_one line column ('\'' :: tail) '\''
    simp only [hquote, if_true, quotedPart?, peek_glyphs, List.cons_append, List.nil_append,
      first_cons, hspace, Bool.false_eq_true, if_false, hsecond]
    exact congrArg _ (congrArg _ hdrop)
  · simp [hquote, quotedPart?, hspace, drop_glyphs_cons _ _ _ hbreak]

/-- Characters in single quotes. Line breaks are followed by the indentation, which does not count. -/
theorem quotedFrom_single {cs : List Char} (hcs : Single cs) {indent : Nat} (hindent : 0 < indent)
    (line : Nat) {column : Nat} (hcolumn : 0 < column) {rest : List Char}
    (hrest : first rest ≠ '\'') :
    ∃ line' column', line ≤ line' ∧
      quotedFrom false (glyphs line column (Writer.quoted indent false cs ++ '\'' :: rest)) =
        some (cs, glyphs line' column' rest) := by
  induction cs using run_induction generalizing line column with
  | nil => exact ⟨line, column + 1, Nat.le_refl line, quotedFrom_close hcolumn hrest⟩
  | char c cs hblank hbreak ih =>
    have hprint := hcs.printable c List.mem_cons_self
    have hspace := isSpace_of_isPrintable hprint hblank hbreak
    have hpart := quotedPart?_single hspace line column (Writer.quoted indent false cs ++ '\'' :: rest)
    obtain ⟨line', column', hline, hread⟩ := ih (show Single ([c] ++ cs) from hcs).of_append line
      (show 0 < column + (if c = '\'' then ['\'', '\''] else [c]).length by omega)
    rw [Writer.quoted, isLineBreak_of_isPrintable hprint, hbreak]
    simp only [Bool.false_eq_true, if_false, List.nil_append, List.append_assoc]
    refine ⟨line', column', hline, quotedFrom_char hcolumn hpart ?_ hread⟩
    exact width_lt_append (by split <;> simp) _
  | run n cs hblank ih =>
    have hbreak : ∀ c ∈ cs.head?, isBreak c = false := by
      intro c hc
      have hline := head_of_hasPair (by simp [blanks]) (by simp [blanks]) hcs.before c hc
      rwa [isLineBreak_of_isPrintable] at hline
      exact hcs.printable c (List.mem_append_right _ (List.mem_of_mem_head? hc))
    have hcs := hcs.of_append
    obtain ⟨line', column', hline, hread⟩ := ih hcs line (show 0 < column + (n + 1) by omega)
    rw [quoted_blanks, List.append_assoc]
    exact ⟨line', column', hline, quotedFrom_blanks hcolumn
      (stops_quoted hblank hcs.printable hbreak indent rest) hread⟩
  | lines bs cs hne hbs hbreak ih =>
    have hblank : cs.head? ≠ some ' ' := by
      intro hc
      have hline : ∀ b ∈ bs, Writer.isLineBreak b = true := by
        intro b hb
        simp [Writer.isLineBreak, hbs b hb]
      simpa using head_of_hasPair hne hline hcs.after ' ' hc
    have hoff : '\n' ∉ bs := fun h => hcs.oneLine (List.mem_append_left cs h)
    have hcs := hcs.of_append
    have hlines : ∀ c ∈ cs.head?, Writer.isLineBreak c = false := by
      intro c hc
      rw [isLineBreak_of_isPrintable (hcs.printable c (List.mem_of_mem_head? hc))]
      exact hbreak c hc
    obtain ⟨line', column', hline, hread⟩ := ih hcs (line + bs.length) hindent
    rw [quoted_breaks hne hbs, quoted_fresh hlines, List.append_assoc, List.append_assoc]
    exact ⟨line', column', by omega, quotedFrom_breaks hcolumn hbs hne hoff
      (stops_quoted hblank hcs.printable hbreak indent rest) hread⟩

end PointerTriage.Yaml
