import PointerTriage.Proofs.Yaml.Blocks
import PointerTriage.Proofs.Yaml.Plain
import PointerTriage.Proofs.Yaml.Quoting
import PointerTriage.Yaml.Token

namespace PointerTriage.Yaml
open Glyph
open Writer (blanks)

namespace Scanner

/-- Whatever comes of the second comes of the first. -/
def Leads (s t : Scanner) : Prop := ∀ ts, t.run = some ts → s.run = some ts

theorem Leads.refl (s : Scanner) : s.Leads s := fun _ h => h

theorem Leads.trans {s t u : Scanner} (h : s.Leads t) (h' : t.Leads u) : s.Leads u :=
  fun ts hu => h ts (h' ts hu)

theorem leads_of_next {s t : Scanner} (hinput : s.input ≠ []) (hnext : s.next = some t)
    (hleft : t.input.left < s.input.left) : s.Leads t := by
  intro ts ht
  have hempty : s.input.isEmpty = false := by simpa using hinput
  rw [run, hempty, hnext]
  simpa [hleft] using ht

theorem leads_of_next_eq {s t : Scanner} (hnext : s.next = t.next)
    (hleft : t.input.left ≤ s.input.left) (hinput : s.input ≠ []) (hinput' : t.input ≠ []) :
    s.Leads t := by
  intro ts hrun
  have hempty : s.input.isEmpty = false := by simpa using hinput
  have hempty' : t.input.isEmpty = false := by simpa using hinput'
  rw [run, hempty', if_neg (by simp)] at hrun
  rw [run, hempty, hnext, if_neg (by simp)]
  cases hnext : t.next with
  | none => simp [hnext] at hrun
  | some u =>
    simp only [hnext] at hrun ⊢
    obtain ⟨hless, hrun⟩ := Option.ite_none_right_eq_some.mp hrun
    rw [if_pos (by omega)]
    exact hrun

theorem leads_of_settle {s t : Scanner} (hs : s.settle = some t) (ht : t.settle = some t)
    (hleft : t.input.left ≤ s.input.left) (hinput : s.input ≠ []) (hinput' : t.input ≠ []) :
    s.Leads t :=
  leads_of_next_eq (by rw [next, next, hs, ht]) hleft hinput hinput'

/-- A scanner in a text, outside of brackets. -/
def inText (line column : Nat) (cs : List Char) (indent : Int) (indents : List Int)
    (keyAllowed : Bool) (key : Option KeyPlace) (ts : List Token) : Scanner :=
  ⟨glyphs line column cs, indent, indents, keyAllowed, [key], ts, ts.length⟩

/-- The scanner comes to a place at the start of a line, where a key may start. -/
def Reaches (s : Scanner) (column : Nat) (cs : List Char) (indent : Int) (indents : List Int)
    (ts : List Token) : Prop :=
  ∃ line, s.Leads (inText line column cs indent indents true none ts)

section Reaches

variable {s t : Scanner} {column column' : Nat} {cs cs' : List Char} {indent indent' : Int}
  {indents indents' : List Int} {ts ts' : List Token}

theorem Leads.reaches (h : s.Leads t) (h' : t.Reaches column cs indent indents ts) :
    s.Reaches column cs indent indents ts := by
  obtain ⟨line, hleads⟩ := h'
  exact ⟨line, h.trans hleads⟩

theorem Reaches.trans (h : s.Reaches column cs indent indents ts)
    (h' : ∀ line, (inText line column cs indent indents true none ts).Reaches column' cs' indent' indents'
      ts') : s.Reaches column' cs' indent' indents' ts' := by
  obtain ⟨line, hleads⟩ := h
  exact hleads.reaches (h' line)

end Reaches

/-- The text ends, or a token starts. -/
def Starts (cs : List Char) : Prop :=
  cs = [] ∨ (isSpace (first cs) = false ∧ first cs ≠ '#' ∧ first cs ≠ '\ufeff')

theorem starts_cons {c : Char} (h : isSpace c = false ∧ c ≠ '#' ∧ c ≠ '\ufeff') (cs : List Char) :
    Starts (c :: cs) :=
  .inr h

theorem Starts.stops {cs : List Char} (h : Starts cs) : Stops cs := by
  rcases h with rfl | ⟨hspace, -⟩
  · exact ⟨rfl, rfl⟩
  · obtain ⟨hblank, hbreak, -⟩ := isSpace_eq_false_iff.mp hspace
    exact ⟨hblank, hbreak⟩

theorem skipSpace_starts {cs : List Char} (h : Starts cs) (inFlow keyAllowed : Bool)
    (line column : Nat) :
    skipSpace inFlow keyAllowed false (glyphs line column cs) =
      (keyAllowed, glyphs line column cs) := by
  rcases h with rfl | ⟨hspace, hcomment, hmark⟩
  · simp [glyphs, skipSpace, endMark, isBreak, isSeparator]
  · cases cs with
    | nil => exact absurd hspace (by decide)
    | cons c cs =>
      rw [first_cons] at hspace hcomment hmark
      obtain ⟨hblank, hbreak, -⟩ := isSpace_eq_false_iff.mp hspace
      simp only [isBlank, Bool.or_eq_false_iff, decide_eq_false_iff_not] at hblank
      simp [glyphs, skipSpace, hbreak, hblank, hcomment, hmark]

theorem skipSpace_blanks (n : Nat) (cs : List Char) (inFlow keyAllowed : Bool) (line column : Nat) :
    skipSpace inFlow keyAllowed false (glyphs line column (blanks n ++ cs)) =
      skipSpace inFlow keyAllowed false (glyphs line (column + n) cs) := by
  induction n generalizing column with
  | zero => rfl
  | succ n ih =>
    have hbreak : isBreak ' ' = false := rfl
    rw [blanks, List.replicate_succ, List.cons_append, ← blanks, glyphs, skipSpace]
    simp only [hbreak, Bool.false_eq_true, if_false, Bool.false_and, decide_true, Bool.true_or, if_true,
      ih]
    rw [Nat.add_assoc, Nat.add_comm 1]

/-- A new line may start a key. -/
theorem skipSpace_line (n : Nat) (cs : List Char) (keyAllowed : Bool) (line column : Nat) :
    skipSpace false keyAllowed false (glyphs line column ('\n' :: (blanks n ++ cs))) =
      skipSpace false true false (glyphs (line + 1) n cs) := by
  have hbreak : isBreak '\n' = true := rfl
  rw [glyphs, skipSpace]
  simp only [hbreak, if_true, Bool.not_false, Bool.or_true, skipSpace_blanks, Nat.zero_add]

/-- The remembered place, if there is one, is on an earlier line and need not be a key. -/
def Passed (key : Option KeyPlace) (line : Nat) : Prop :=
  ∀ k ∈ key, k.required = false ∧ k.line < line

theorem passed_none (line : Nat) : Passed none line := nofun

theorem settle_inText {line column line' column' : Nat} {cs cs' : List Char} {indent : Int}
    {indents : List Int} {keyAllowed keyAllowed' : Bool} {key : Option KeyPlace} {ts : List Token}
    (hspace : skipSpace false keyAllowed false (glyphs line column cs) =
      (keyAllowed', glyphs line' column' cs')) (hkey : Passed key line') :
    (inText line column cs indent indents keyAllowed key ts).settle =
      some (inText line' column' cs' indent indents keyAllowed' none ts) := by
  cases key with
  | none => simp [settle, toNextToken, inText, inFlow, hspace, dropStale]
  | some k =>
    obtain ⟨hrequired, hline⟩ := hkey k rfl
    simp [settle, toNextToken, inText, inFlow, hspace, dropStale, isStale, hrequired, hline]

section Space

variable {cs : List Char} (hcs : Starts cs) {line column : Nat} {indent : Int} {indents : List Int}
  {keyAllowed : Bool} {key : Option KeyPlace} {ts : List Token}
include hcs

theorem settle_starts :
    (inText line column cs indent indents keyAllowed none ts).settle =
      some (inText line column cs indent indents keyAllowed none ts) :=
  settle_inText (skipSpace_starts hcs false keyAllowed line column) (passed_none line)

theorem leads_blank :
    (inText line column (' ' :: cs) indent indents keyAllowed none ts).Leads
      (inText line (column + 1) cs indent indents keyAllowed none ts) := by
  refine leads_of_settle (settle_inText ?_ (passed_none line)) (settle_starts hcs) ?_
    (glyphs_ne_nil _ _ _) (glyphs_ne_nil _ _ _)
  · exact (skipSpace_blanks 1 cs false keyAllowed line column).trans
      (skipSpace_starts hcs false keyAllowed line (column + 1))
  · simp [inText, width]

theorem leads_line (n : Nat) (hkey : Passed key (line + 1)) :
    (inText line column ('\n' :: (blanks n ++ cs)) indent indents keyAllowed key ts).Leads
      (inText (line + 1) n cs indent indents true none ts) := by
  refine leads_of_settle (settle_inText ?_ hkey) (settle_starts hcs) ?_
    (glyphs_ne_nil _ _ _) (glyphs_ne_nil _ _ _)
  · exact (skipSpace_line n cs keyAllowed line column).trans
      (skipSpace_starts hcs false true (line + 1) n)
  · have hsplit := width_append ['\n'] (blanks n ++ cs)
    have hmore := width_append (blanks n) cs
    simp only [List.singleton_append] at hsplit
    simp only [inText, left_glyphs]
    omega

theorem leads_passed (hkey : Passed key line) :
    (inText line column cs indent indents keyAllowed key ts).Leads
      (inText line column cs indent indents keyAllowed none ts) :=
  leads_of_settle (settle_inText (skipSpace_starts hcs false keyAllowed line column) hkey)
    (settle_starts hcs) (Nat.le_refl _) (glyphs_ne_nil _ _ _) (glyphs_ne_nil _ _ _)

end Space

section Blocks

variable {line column : Nat} {cs : List Char} {indent : Int} {indents : List Int}
  {keyAllowed : Bool} {key : Option KeyPlace} {ts : List Token}

theorem closeBlocks_inText {place : Int} (h : indent ≤ place) :
    (inText line column cs indent indents keyAllowed key ts).closeBlocks place =
      inText line column cs indent indents keyAllowed key ts := by
  have hleave : leave place indent indents = (indent, indents, 0) := by
    cases indents with
    | nil => rfl
    | cons outer indents => simp [leave, Int.not_lt.mpr h]
  simp [closeBlocks, inText, inFlow, hleave]

theorem next_starts (hcs : Starts cs) (h : indent ≤ column) :
    (inText line column cs indent indents keyAllowed none ts).next =
      (inText line column cs indent indents keyAllowed none ts).readToken := by
  have hcolumn : (inText line column cs indent indents keyAllowed none ts).input.column = column :=
    column_glyphs line column cs
  rw [next, settle_starts hcs]
  simp only [Option.bind_eq_bind, Option.bind_some, hcolumn, closeBlocks_inText h]

/-- A block ends before a token that is left of it. -/
theorem leads_blockEnd {outer : Int} (hcs : Starts cs) (h : (column : Int) < indent) :
    (inText line column cs indent (outer :: indents) keyAllowed none ts).Leads
      (inText line column cs outer indents keyAllowed none (.blockEnd :: ts)) := by
  refine leads_of_next_eq ?_ (Nat.le_refl _) (glyphs_ne_nil _ _ _) (glyphs_ne_nil _ _ _)
  rw [next, next, settle_starts hcs, settle_starts hcs]
  have hclose : (inText line column cs indent (outer :: indents) keyAllowed none ts).closeBlocks column =
      (inText line column cs outer indents keyAllowed none (.blockEnd :: ts)).closeBlocks column := by
    simp only [closeBlocks, inText, inFlow, leave, h, if_true, List.replicate_succ',
      List.append_assoc, List.singleton_append, List.length_cons, Nat.add_assoc, Nat.add_comm 1,
      Bool.false_eq_true, if_false]
  simp only [Option.bind_eq_bind, Option.bind_some, inText, column_glyphs] at hclose ⊢
  rw [hclose]

theorem Reaches.blockEnd {s : Scanner} {outer : Int} (hcs : Starts cs)
    (h : s.Reaches column cs indent (outer :: indents) ts) (hcolumn : (column : Int) < indent) :
    s.Reaches column cs outer indents (.blockEnd :: ts) := by
  obtain ⟨line, hleads⟩ := h
  exact ⟨line, hleads.trans (leads_blockEnd hcs hcolumn)⟩

end Blocks

/-- The place that is remembered where a key is allowed. -/
def keyPlace (line column : Nat) (cs : List Char) (indent : Int) (keyAllowed : Bool)
    (ts : List Token) : Option KeyPlace :=
  if keyAllowed then some ⟨indent = column, ts.length, line, column, width cs + 1⟩ else none

section Scalars

variable {line column : Nat} {cs : List Char} {indent : Int} {indents : List Int}
  {keyAllowed : Bool} {ts : List Token}

theorem passed_keyPlace (hcolumn : indent ≠ column) {line' : Nat} (hline : line < line') :
    Passed (keyPlace line column cs indent keyAllowed ts) line' := by
  intro k hk
  cases keyAllowed with
  | false => cases hk
  | true =>
    cases hk
    exact ⟨by simp [hcolumn], hline⟩

theorem markKey_inText :
    (inText line column cs indent indents keyAllowed none ts).markKey =
      some (inText line column cs indent indents keyAllowed
        (keyPlace line column cs indent keyAllowed ts) ts) := by
  cases keyAllowed with
  | false => rfl
  | true => simp [markKey, inText, inFlow, dropKey, keyPlace]

/-- Plain text may start with this character before that one. -/
structure PlainStart (c next : Char) : Prop where
  space : isSpace c = false
  mark : c ≠ '\ufeff'
  other : c ∉ ['#', ',', '[', ']', '{', '}', '&', '*', '!', '|', '>', '\'', '"', '%', '@', '\x60']
  next : c ∈ ['?', ':', '-'] → isSpace next = false

theorem plainStart_of_allowsPlain {c : Char} {cs : List Char}
    (h : Writer.allowsPlain (c :: cs) = true) (rest : List Char) :
    PlainStart c (first (cs ++ rest)) := by
  simp only [Writer.allowsPlain, Writer.startsOther, Bool.and_eq_true, Bool.not_eq_true',
    Bool.or_eq_false_iff, decide_eq_false_iff_not, decide_eq_true_eq, List.all_eq_true] at h
  obtain ⟨⟨⟨⟨⟨-, hother, hnext⟩, -⟩, hall⟩, hblank⟩, -⟩ := h
  have hc := hall c (List.mem_cons_self ..)
  refine ⟨isSpace_of_isPlainChar (by simpa [isPlainChar] using hc) hblank, ?_, hother, ?_⟩
  · rintro rfl
    exact absurd hc.1 (by decide)
  · intro hmem
    simp only [hmem, decide_true, Bool.true_and] at hnext
    cases cs with
    | nil => exact absurd hnext (by decide)
    | cons d cs =>
      simp only [List.head?_cons, Writer.isGap, Bool.or_eq_false_iff] at hnext
      obtain ⟨⟨hblank, hline⟩, hend⟩ := hnext
      simp only [Writer.isLineBreak, Bool.or_eq_false_iff] at hline
      exact isSpace_eq_false_iff.mpr ⟨hblank, hline.1.1, hend⟩

theorem PlainStart.starts {c : Char} (h : PlainStart c (first cs)) : Starts (c :: cs) := by
  refine .inr ⟨h.space, ?_, h.mark⟩
  rintro rfl
  exact h.other (by simp)

theorem readToken_plain {c : Char} (h : PlainStart c (first cs))
    (hmark : (glyphs line column (c :: cs)).atDocumentMark = false) :
    (inText line column (c :: cs) indent indents keyAllowed none ts).readToken =
      (inText line column (c :: cs) indent indents keyAllowed none ts).plainScalar := by
  obtain ⟨hspace, -, hother, hnext⟩ := h
  have hend := (isSpace_eq_false_iff.mp hspace).2.2
  have hstart : startsPlain false c (first cs) = true := by
    by_cases hc : c ∈ ['?', ':', '-']
    · have hblank := (isSpace_eq_false_iff.mp (hnext hc)).1
      simp only [List.mem_cons, List.not_mem_nil, or_false] at hc
      rcases hc with rfl | rfl | rfl <;> simp [startsPlain, hnext, hblank]
    · simp only [List.mem_cons, List.not_mem_nil, or_false, not_or] at hother hc
      simp [startsPlain, hspace, hother, hc]
  have hmarks : ∀ d ∈ ['?', ':', '-'], ¬(c = d ∧ isSpace (first cs) = true) := by
    rintro d hd ⟨rfl, hgap⟩
    simp [hnext hd] at hgap
  simp only [List.mem_cons, List.not_mem_nil, or_false, not_or] at hother
  simp only [List.mem_cons, List.not_mem_nil, or_false, forall_eq_or_imp, forall_eq] at hmarks
  simp [readToken, inText, inFlow, charAt_glyphs_one, hmark, hend, hother, hmarks, hstart]

theorem readToken_plain_eq {c : Char} {text : String} {crossed : Bool} {line' column' : Nat}
    {rest : List Char} (h : PlainStart c (first cs))
    (hmark : (glyphs line column (c :: cs)).atDocumentMark = false)
    (hread : plain? false (indent + 1) (glyphs line column (c :: cs)) =
      some (text, crossed, glyphs line' column' rest)) :
    (inText line column (c :: cs) indent indents keyAllowed none ts).readToken =
      some (inText line' column' rest indent indents crossed
        (keyPlace line column (c :: cs) indent keyAllowed ts) (.scalar .plain text :: ts)) := by
  rw [readToken_plain h hmark, plainScalar, markKey_inText]
  simp [inText, inFlow, hread, push]

theorem readToken_quoted {double : Bool} {text rest : List Char} {line' column' : Nat}
    (hcolumn : 0 < column)
    (hread : quotedFrom double (glyphs line (column + 1) cs) = some (text, glyphs line' column' rest)) :
    (inText line column (closingQuote double :: cs) indent indents keyAllowed none ts).readToken =
      some (inText line' column' rest indent indents false
        (keyPlace line column (closingQuote double :: cs) indent keyAllowed ts)
        (.scalar (if double then .double else .single) (String.ofList text) :: ts)) := by
  have hscalar :
      (inText line column (closingQuote double :: cs) indent indents keyAllowed none ts).readToken =
      (inText line column (closingQuote double :: cs) indent indents keyAllowed none ts).quotedScalar
        double := by
    have hmark := atDocumentMark_glyphs line column (closingQuote double :: cs) hcolumn
    cases double <;>
      simp_all [readToken, inText, inFlow, closingQuote, isEnd, endMark]
  have hbreak : isBreak (closingQuote double) = false := by cases double <;> rfl
  rw [hscalar, quotedScalar, markKey_inText]
  simp [inText, quoted?, drop_glyphs_cons _ _ _ hbreak, hread, push]

theorem readToken_literal {text : String} {rest : List Char} {line' column' : Nat}
    (hcolumn : 0 < column)
    (hread : block? true indent (glyphs line (column + 1) cs) = some (text, glyphs line' column' rest)) :
    (inText line column ('|' :: cs) indent indents keyAllowed none ts).readToken =
      some (inText line' column' rest indent indents true none (.scalar .literal text :: ts)) := by
  have hmark := atDocumentMark_glyphs line column ('|' :: cs) hcolumn
  have hbreak : isBreak '|' = false := rfl
  simp [readToken, inText, inFlow, hmark, isEnd, endMark, blockScalar, dropKey,
    drop_glyphs_cons _ _ _ hbreak, hread, push]

theorem leads_of_readToken {t : Scanner} (hcs : Starts cs) (h : indent ≤ column)
    (hread : (inText line column cs indent indents keyAllowed none ts).readToken = some t)
    (hleft : t.input.left ≤ width cs) :
    (inText line column cs indent indents keyAllowed none ts).Leads t :=
  leads_of_next (glyphs_ne_nil _ _ _) ((next_starts hcs h).trans hread)
    (Nat.lt_of_le_of_lt hleft (by simp [inText]))

end Scalars

/-- A text may be written in this style. -/
def Suits : Style → List Char → Prop
  | .plain, cs => Writer.allowsPlain cs = true ∧ cs ≠ []
  | .single, cs => Writer.allowsSingle cs = true ∧ '\n' ∉ cs
  | .double, _ => True
  | .literal, cs => Writer.allowsBlock cs = true ∧ '\n' ∈ cs
  | .folded, _ => False

section Scalar

variable {cs rest : List Char} {line column indent m : Nat} {indents : List Int} {keyAllowed : Bool}
  {ts : List Token} (hcolumn : indent < column) (hrest : Starts rest)
include hcolumn hrest

theorem reaches_plain (h : Suits .plain cs) (hm : m ≤ indent) :
    (inText line column (cs ++ '\n' :: (blanks m ++ rest)) indent indents keyAllowed none ts).Reaches
      m rest indent indents (.scalar .plain (String.ofList cs) :: ts) := by
  obtain ⟨hplain, hne⟩ := h
  have hwords := words_of_allowsPlain hplain hne
  have hmark := atDocumentMark_glyphs line column (cs ++ '\n' :: (blanks m ++ rest)) (by omega)
  have hread := plain?_line hwords (show (indent : Int) + 1 ≤ column + 1 by omega) (by omega) hrest.stops
    hmark
  obtain ⟨c, cs, rfl⟩ := List.exists_cons_of_ne_nil hne
  have hstart := plainStart_of_allowsPlain hplain ('\n' :: (blanks m ++ rest))
  refine ⟨line + 1, Leads.trans (leads_of_readToken hstart.starts (by omega)
    (readToken_plain_eq hstart hmark hread) ?_)
    (leads_passed hrest (passed_keyPlace (Int.ne_of_lt (by omega)) (Nat.lt_succ_self line)))⟩
  simpa [inText, Nat.succ_le_iff] using
    width_lt_append (show c :: cs ++ '\n' :: blanks m ≠ [] by simp) rest

theorem reaches_quoted (double : Bool) {text : List Char} {line' column' : Nat} (hline : line ≤ line')
    (hread : quotedFrom double
        (glyphs line (column + 1) (cs ++ closingQuote double :: '\n' :: (blanks m ++ rest))) =
      some (text, glyphs line' column' ('\n' :: (blanks m ++ rest)))) :
    (inText line column (closingQuote double :: (cs ++ closingQuote double :: '\n' :: (blanks m ++ rest)))
      indent indents keyAllowed none ts).Reaches m rest indent indents
        (.scalar (if double then .double else .single) (String.ofList text) :: ts) := by
  have hstart : Starts (closingQuote double ::
      (cs ++ closingQuote double :: '\n' :: (blanks m ++ rest))) := by
    cases double <;> exact starts_cons (by decide) _
  refine ⟨line' + 1, Leads.trans
    (leads_of_readToken hstart (by omega) (readToken_quoted (by omega) hread) ?_)
    (leads_line hrest m (passed_keyPlace (Int.ne_of_lt (by omega)) (Nat.lt_succ_of_le hline)))⟩
  simpa [inText, Nat.succ_le_iff] using width_lt_append
    (show closingQuote double :: cs ++ [closingQuote double] ≠ [] by simp) ('\n' :: (blanks m ++ rest))

theorem reaches_literal (h : Suits .literal cs) (hm : m ≤ indent) :
    (inText line column ('|' :: (Writer.indentHint cs ++ Writer.chompHint cs ++
        '\n' :: (Writer.lines (indent + 2) true (ended cs) ++ (blanks m ++ rest))))
      indent indents keyAllowed none ts).Reaches m rest indent indents
        (.scalar .literal (String.ofList cs) :: ts) := by
  obtain ⟨line', -, hread⟩ := block?_literal h.1 h.2 hm hrest.stops line (column + 1)
  refine ⟨line', leads_of_readToken (starts_cons (by decide) _) (by omega)
    (readToken_literal (by omega) hread) ?_⟩
  simpa [inText, Nat.succ_le_iff] using width_lt_append
    (show '|' :: (Writer.indentHint cs ++ Writer.chompHint cs ++
      '\n' :: (Writer.lines (indent + 2) true (ended cs) ++ blanks m)) ≠ [] by simp) rest

/-- A scalar in any style is one token. -/
theorem reaches_scalar {style : Style} {s : String} (h : Suits style s.toList) (hm : m ≤ indent) :
    (inText line column (Writer.scalar (indent + 2) style s ++ (blanks m ++ rest)) indent indents
      keyAllowed none ts).Reaches m rest indent indents (.scalar style s :: ts) := by
  have hquote : first ('\n' :: (blanks m ++ rest)) ≠ '\'' := by simp
  cases style with
  | plain => simpa [Writer.scalar] using reaches_plain hcolumn hrest h hm
  | single =>
    obtain ⟨line', column', hline, hread⟩ := quotedFrom_single (single_of_allowsSingle h.1 h.2)
      (Nat.succ_pos (indent + 1)) line (Nat.succ_pos column) hquote
    simpa [Writer.scalar, closingQuote] using reaches_quoted hcolumn hrest false hline hread
  | double =>
    obtain ⟨column', hread⟩ := quotedFrom_double s.toList line (Nat.succ_pos column) hquote
    simpa [Writer.scalar, closingQuote] using
      reaches_quoted hcolumn hrest true (Nat.le_refl line) hread
  | literal =>
    have hleads : (inText line column ('|' :: (Writer.indentHint s.toList ++ Writer.chompHint s.toList ++
        '\n' :: (Writer.lines (indent + 2) true (ended s.toList) ++ (blanks m ++ rest)))) indent indents
          keyAllowed none ts).Reaches m rest indent indents _ := reaches_literal hcolumn hrest h hm
    rw [← lines_ended] at hleads
    simpa [Writer.scalar] using hleads
  | folded => exact h.elim

end Scalar

/-- No remembered place is too far away for a key. -/
def Fresh (s : Scanner) : Prop := ∀ key ∈ s.keys, ∀ k ∈ key, s.isStale k = false

theorem mapM_eq_self {α : Type} {f : α → Option α} {xs : List α} (h : ∀ x ∈ xs, f x = some x) :
    xs.mapM f = some xs := by
  induction xs with
  | nil => rfl
  | cons x xs ih =>
    have hmore := ih fun y hy => h y (List.mem_cons_of_mem x hy)
    simp [List.mapM_cons, h x (List.mem_cons_self ..), hmore]

theorem dropStale_of_fresh {s : Scanner} (h : s.Fresh) : s.dropStale = some s := by
  rw [dropStale, mapM_eq_self]
  · rfl
  · rintro (_ | k) hkey
    · rfl
    · simp [h (some k) hkey k rfl]

theorem settle_of_fresh {s : Scanner} {line column : Nat} {cs : List Char}
    (hinput : s.input = glyphs line column cs) (hcs : Starts cs) (h : s.Fresh) : s.settle = some s := by
  have hspace : s.toNextToken = s := by
    rw [toNextToken, hinput, skipSpace_starts hcs, ← hinput]
  rw [settle, hspace, dropStale_of_fresh h]

theorem isStale_keyPlace {s : Scanner} {line column column' : Nat} {cs rest : List Char} {indent : Int}
    {keyAllowed : Bool} {ts : List Token} (hinput : s.input = glyphs line column' rest)
    (hwidth : width cs ≤ longestKey) :
    ∀ k ∈ keyPlace line column (cs ++ rest) indent keyAllowed ts, s.isStale k = false := by
  intro k hk
  cases keyAllowed with
  | false => cases hk
  | true =>
    cases hk
    rw [isStale, hinput, line_glyphs, left_glyphs, width_append]
    simp
    omega

/-- A block starts at a column, or goes on there. -/
inductive Opens (start : Token) (column : Nat) :
    Int → List Int → List Token → List Int → List Token → Prop where
  | same (indents : List Int) (ts : List Token) : Opens start column column indents ts indents ts
  | new {indent : Int} {indents : List Int} {ts : List Token} (h : indent < column) :
    Opens start column indent indents ts (indent :: indents) (start :: ts)

section Marks

variable {line column : Nat} {cs : List Char} {indent : Int} {indents indents' : List Int}
  {keyAllowed : Bool} {key : Option KeyPlace} {start : Token} {ts ts' : List Token}

theorem Opens.le (h : Opens start column indent indents ts indents' ts') : indent ≤ column := by
  cases h <;> omega

theorem insertAt_inText (xs : List Token) (t : Token) :
    (inText line column cs indent indents keyAllowed key (xs ++ ts)).insertAt ts.length t =
      inText line column cs indent indents keyAllowed key (xs ++ t :: ts) := by
  simp [insertAt, inText, Nat.add_assoc]

theorem openBlock_inText {place : Nat} (h : Opens start place indent indents ts indents' ts')
    (xs : List Token) :
    (inText line column cs indent indents keyAllowed key (xs ++ ts)).openBlock place ts.length start =
      inText line column cs place indents' keyAllowed key (xs ++ ts') := by
  cases h with
  | same => simp [openBlock, inText]
  | new h =>
    rw [openBlock, insertAt_inText]
    simp [inText, inFlow, h]

theorem readToken_entry {c : Char} (hc : isSpace c = true) :
    (inText line column ('-' :: c :: cs) indent indents keyAllowed none ts).readToken =
      (inText line column ('-' :: c :: cs) indent indents keyAllowed none ts).blockEntry := by
  have hne : c ≠ '-' := by
    rintro rfl
    exact absurd hc (by decide)
  simp [readToken, inText, charAt_glyphs_one, isEnd, endMark, Input.atDocumentMark, hne, hc]

theorem leads_entry {c : Char} (hc : isSpace c = true)
    (h : Opens .blockSequenceStart column indent indents ts indents' ts') :
    (inText line column ('-' :: c :: cs) indent indents true none ts).Leads
      (inText line (column + 1) (c :: cs) column indents' true none (.blockEntry :: ts')) := by
  refine leads_of_readToken (starts_cons (by decide) _) h.le ?_ ?_
  · have hopen : (inText line column ('-' :: c :: cs) indent indents true none ts).openBlock column
        ts.length .blockSequenceStart = inText line column ('-' :: c :: cs) column indents' true none ts' :=
      openBlock_inText h []
    have hbreak : isBreak '-' = false := rfl
    rw [readToken_entry hc, blockEntry]
    simp only [inText, inFlow, column_glyphs] at hopen ⊢
    simp [hopen, dropKey, take, push, drop_glyphs_cons _ _ _ hbreak]
  · simpa [inText, Nat.succ_le_iff] using width_lt_append (show ['-'] ≠ [] by simp) (c :: cs)

theorem readToken_value {c : Char} (hc : isSpace c = true) (hcolumn : 0 < column) :
    (inText line column (':' :: c :: cs) indent indents keyAllowed key ts).readToken =
      (inText line column (':' :: c :: cs) indent indents keyAllowed key ts).value := by
  have hmark := atDocumentMark_glyphs line column (':' :: c :: cs) hcolumn
  simp [readToken, inText, charAt_glyphs_one, isEnd, endMark, hmark, hc]

theorem value_inText {c : Char} {k : KeyPlace} {t : Token} (hk : k.number = ts.length)
    (h : Opens .blockMappingStart k.column indent indents ts indents' ts') :
    (inText line column (':' :: c :: cs) indent indents keyAllowed (some k) (t :: ts)).value =
      some (inText line (column + 1) (c :: cs) k.column indents' false none
        (.value :: t :: .key :: ts')) := by
  have hbreak : isBreak ':' = false := rfl
  have hmade : ((inText line column (':' :: c :: cs) indent indents keyAllowed (some k)
      (t :: ts)).insertAt ts.length .key).openBlock k.column ts.length .blockMappingStart =
        inText line column (':' :: c :: cs) k.column indents' keyAllowed (some k) (t :: .key :: ts') := by
    rw [show t :: ts = [t] ++ ts from rfl, insertAt_inText]
    exact openBlock_inText h [t, .key]
  have hvalue : (inText line column (':' :: c :: cs) indent indents keyAllowed (some k) (t :: ts)).value =
      some { (inText line column (':' :: c :: cs) k.column indents' keyAllowed (some k)
        (t :: .key :: ts')).take 1 .value with keys := [none], keyAllowed := false } := by
    rw [← hmade, ← hk]
    rfl
  rw [hvalue]
  simp [inText, take, push, drop_glyphs_cons _ _ _ hbreak]

/-- A colon makes a key of the token before it. -/
theorem leads_value {c : Char} {t : Token} {place : Nat} {name : List Char} (hc : isSpace c = true)
    (hshort : width name ≤ longestKey) (hplace : place < column)
    (h : Opens .blockMappingStart place indent indents ts indents' ts') :
    (inText line column (':' :: c :: cs) indent indents keyAllowed
        (keyPlace line place (name ++ ':' :: c :: cs) indent true ts) (t :: ts)).Leads
      (inText line (column + 1) (c :: cs) place indents' false none (.value :: t :: .key :: ts')) := by
  have hle := h.le
  have hfresh : (inText line column (':' :: c :: cs) indent indents keyAllowed
      (keyPlace line place (name ++ ':' :: c :: cs) indent true ts) (t :: ts)).Fresh := by
    intro key hkey
    obtain rfl := List.mem_singleton.mp hkey
    exact isStale_keyPlace rfl hshort
  refine leads_of_next (glyphs_ne_nil _ _ _) ?_ ?_
  · rw [next, settle_of_fresh rfl (starts_cons (by decide) _) hfresh]
    simp only [Option.bind_eq_bind, Option.bind_some]
    rw [closeBlocks_inText, readToken_value hc (by omega)]
    · exact value_inText rfl h
    · simp only [inText, column_glyphs]
      omega
  · simpa [inText] using width_lt_append (show [':'] ≠ [] by simp) (c :: cs)

/-- The text of a key, on one line with its colon. -/
structure IsKey (cs : List Char) : Prop where
  suits : Suits .plain cs
  short : width cs ≤ longestKey

theorem leads_key {c : Char} {name : List Char} (hname : IsKey name) (hc : isSpace c = true)
    (line : Nat) (cs : List Char)
    (h : Opens .blockMappingStart column indent indents ts indents' ts') :
    ∃ column', column < column' ∧
      (inText line column (name ++ ':' :: c :: cs) indent indents true none ts).Leads
        (inText line column' (c :: cs) column indents' false none
          (.value :: .scalar .plain (String.ofList name) :: .key :: ts')) := by
  obtain ⟨⟨hplain, hne⟩, hshort⟩ := hname
  have hle := h.le
  have hmark := atDocumentMark_of_allowsPlain hplain line column (c :: cs)
  have hread := plain?_colon (words_of_allowsPlain hplain hne)
    (show indent + 1 ≤ column + 1 by omega) hc hmark
  obtain ⟨a, name, rfl⟩ := List.exists_cons_of_ne_nil hne
  have hstart := plainStart_of_allowsPlain hplain (':' :: c :: cs)
  refine ⟨column + (a :: name).length + 1, by omega,
    (leads_of_readToken hstart.starts hle (readToken_plain_eq hstart hmark hread) ?_).trans
      (leads_value hc hshort (by simp) h)⟩
  simpa [inText, Nat.succ_le_iff] using width_lt_append hne (':' :: c :: cs)

/-- The brackets of a collection without items. -/
inductive Brackets : Char → Char → Token → Token → Prop where
  | list : Brackets '[' ']' .flowSequenceStart .flowSequenceEnd
  | mapping : Brackets '{' '}' .flowMappingStart .flowMappingEnd

/-- A scanner right after an opening bracket. -/
def inBrackets (line column : Nat) (cs : List Char) (indent : Int) (indents : List Int)
    (key : Option KeyPlace) (ts : List Token) : Scanner :=
  ⟨glyphs line column cs, indent, indents, true, [none, key], ts, ts.length⟩

variable {o c : Char} {t t' : Token}

theorem readToken_openBracket (h : Brackets o c t t') (hcolumn : 0 < column) :
    (inText line column (o :: cs) indent indents keyAllowed none ts).readToken =
      some (inBrackets line (column + 1) cs indent indents
        (keyPlace line column (o :: cs) indent keyAllowed ts) (t :: ts)) := by
  have hmark := atDocumentMark_glyphs line column (o :: cs) hcolumn
  have hbreak : isBreak o = false := by cases h <;> rfl
  have hopen : (inText line column (o :: cs) indent indents keyAllowed none ts).readToken =
      (inText line column (o :: cs) indent indents keyAllowed none ts).openFlow t := by
    cases h <;> simp [readToken, inText, hmark, isEnd, endMark]
  rw [hopen, openFlow, markKey_inText]
  simp [inText, inBrackets, take, push, drop_glyphs_cons _ _ _ hbreak]

theorem readToken_closeBracket (h : Brackets o c t t') (hcolumn : 0 < column) :
    (inBrackets line column (c :: cs) indent indents key ts).readToken =
      some (inText line (column + 1) cs indent indents false key (t' :: ts)) := by
  have hmark := atDocumentMark_glyphs line column (c :: cs) hcolumn
  have hbreak : isBreak c = false := by cases h <;> rfl
  have hclose : (inBrackets line column (c :: cs) indent indents key ts).readToken =
      (inBrackets line column (c :: cs) indent indents key ts).closeFlow t' := by
    cases h <;> simp [readToken, inBrackets, hmark, isEnd, endMark]
  rw [hclose, closeFlow]
  simp [inText, inBrackets, inFlow, dropKey, take, push, drop_glyphs_cons _ _ _ hbreak]

theorem leads_closeBracket (h : Brackets o c t t') (hcolumn : 0 < column)
    (hfresh : (inBrackets line column (c :: cs) indent indents key ts).Fresh) :
    (inBrackets line column (c :: cs) indent indents key ts).Leads
      (inText line (column + 1) cs indent indents false key (t' :: ts)) := by
  have hstart : Starts (c :: cs) := by cases h <;> exact starts_cons (by decide) _
  refine leads_of_next (glyphs_ne_nil _ _ _) ?_ ?_
  · rw [next, settle_of_fresh rfl hstart hfresh]
    exact readToken_closeBracket h hcolumn
  · simpa [inText, inBrackets] using width_lt_append (show [c] ≠ [] by simp) cs

theorem reaches_brackets {m : Nat} {rest : List Char} (h : Brackets o c t t') (hindent : 0 ≤ indent)
    (hcolumn : indent < column) (hrest : Starts rest) :
    (inText line column (o :: c :: '\n' :: (blanks m ++ rest)) indent indents keyAllowed none ts).Reaches
      m rest indent indents (t' :: t :: ts) := by
  have hstart : Starts (o :: c :: '\n' :: (blanks m ++ rest)) := by
    cases h <;> exact starts_cons (by decide) _
  have hshort : width [o] ≤ longestKey := by cases h <;> decide
  refine ⟨line + 1, ((leads_of_readToken hstart (by omega) (readToken_openBracket h (by omega)) ?_).trans
    (leads_closeBracket h (by omega) ?_)).trans
    (leads_line hrest m (passed_keyPlace (Int.ne_of_lt hcolumn) (Nat.lt_succ_self line)))⟩
  · simpa [inBrackets, Nat.succ_le_iff] using
      width_lt_append (show [o] ≠ [] by simp) (c :: '\n' :: (blanks m ++ rest))
  · intro key hkey
    simp only [inBrackets, List.mem_cons, List.not_mem_nil, or_false] at hkey
    rcases hkey with rfl | rfl
    · nofun
    · exact isStale_keyPlace rfl hshort

end Marks

/-- The text ends in a block at its start. -/
theorem run_end (line : Nat) (ts : List Token) :
    (inText line 0 [] 0 [-1] true none ts).run = some (.textEnd :: .blockEnd :: ts) := by
  have hnext : (inText line 0 [] 0 [-1] true none ts).next =
      some ⟨[], -1, [], false, [none], .textEnd :: .blockEnd :: ts, ts.length + 1 + 1⟩ := by
    rw [next_starts (.inl rfl) (Int.le_refl 0)]
    rfl
  rw [run, hnext]
  simp [inText, run, glyphs, Input.left]

end Scanner

end PointerTriage.Yaml
