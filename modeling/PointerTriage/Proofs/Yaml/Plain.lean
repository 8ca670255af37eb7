import PointerTriage.Proofs.Yaml.Glyphs

namespace PointerTriage.Yaml
open Glyph
open Writer (blanks)

/-- A plain scalar goes no further: white space comes, or a colon before white space. -/
def EndsPlain (cs : List Char) : Prop :=
  isSpace (first cs) = true ∨ (first cs = ':' ∧ isSpace (first (cs.drop 1)) = true)

/-- A word of a plain scalar: a colon is never its last character, and it starts no comment. -/
structure IsWord (w : List Char) : Prop where
  ne_nil : w ≠ []
  spaceless : ∀ c ∈ w, isSpace c = false
  last : w.getLast? ≠ some ':'
  head : w.head? ≠ some '#'

theorem plainWord?_word {w rest : List Char} (hspaceless : ∀ c ∈ w, isSpace c = false)
    (hlast : w.getLast? ≠ some ':') (hrest : EndsPlain rest) (line column : Nat) :
    plainWord? false (glyphs line column (w ++ rest)) =
      some (w, glyphs line (column + w.length) rest) := by
  induction w generalizing column with
  | nil =>
    rcases rest with _ | ⟨c, rest⟩
    · rfl
    · rcases hrest with hspace | ⟨hcolon, hspace⟩
      · rw [first_cons] at hspace
        simp [glyphs, plainWord?, hspace]
      · rw [first_cons] at hcolon
        subst hcolon
        have hnext : isSpace (first rest) = true := hspace
        have hbreak : isBreak ':' = false := rfl
        simp [glyphs, plainWord?, hbreak, hnext]
  | cons c w ih =>
    obtain ⟨hc, hw⟩ := List.forall_mem_cons.mp hspaceless
    have hbreak : isBreak c = false := (isSpace_eq_false_iff.mp hc).2.1
    -- a colon in the middle of a word is followed by the word
    have hcolon : (c = ':' && isSpace (first (w ++ rest))) = false := by
      cases w with
      | nil =>
        have hne : c ≠ ':' := fun h => hlast (by rw [h]; rfl)
        simp [hne]
      | cons d w => simp [hw d List.mem_cons_self]
    have hlast' : w.getLast? ≠ some ':' := by
      cases w with
      | nil => simp
      | cons d w => rwa [List.getLast?_cons_cons] at hlast
    rw [List.cons_append, glyphs, plainWord?]
    simp only [hc, hbreak, Bool.false_eq_true, if_false, Bool.false_and, peek_glyphs, hcolon,
      Bool.or_self, ih hw hlast', Option.map_some, List.length_cons]
    rw [Nat.add_right_comm, Nat.add_assoc]

/-- Words with blanks between them. -/
inductive Words : List Char → Prop where
  | last {w : List Char} (hw : IsWord w) : Words w
  | more {w cs : List Char} {n : Nat} (hw : IsWord w) (hcs : Words cs) :
      Words (w ++ (blanks (n + 1) ++ cs))

theorem IsWord.exists_cons {w : List Char} (h : IsWord w) :
    ∃ c rest, w = c :: rest ∧ isSpace c = false ∧ c ≠ '#' := by
  obtain ⟨c, w, rfl⟩ := List.exists_cons_of_ne_nil h.ne_nil
  exact ⟨c, w, rfl, h.spaceless c List.mem_cons_self, fun hc => h.head (by rw [hc]; rfl)⟩

theorem Words.exists_cons {cs : List Char} (h : Words cs) :
    ∃ c rest, cs = c :: rest ∧ isSpace c = false ∧ c ≠ '#' := by
  cases h with
  | last hw => exact hw.exists_cons
  | more hw hcs =>
    obtain ⟨c, w, rfl, hc⟩ := hw.exists_cons
    exact ⟨c, _, rfl, hc⟩

theorem Words.stops {cs : List Char} (h : Words cs) (rest : List Char) : Stops (cs ++ rest) := by
  obtain ⟨c, cs, rfl, hspace, -⟩ := h.exists_cons
  obtain ⟨hblank, hbreak, -⟩ := isSpace_eq_false_iff.mp hspace
  exact ⟨hblank, hbreak⟩

section Word

variable {w : List Char} (hw : IsWord w) {line column : Nat} (indent : Int) (pending : Gap)
include hw

/-- One word, then a look at what follows it. -/
theorem plainFrom_word {rest : List Char} (hrest : EndsPlain rest)
    (hmark : (glyphs line column (w ++ rest)).atDocumentMark = false) :
    plainFrom false indent pending (glyphs line column (w ++ rest)) =
      if isBlank (first rest) || isBreak (first rest) then do
        let (gap, after) ← gap? indent false (glyphs line (column + w.length) rest)
        if after.column < indent then some (pending.fold ++ w, gap.crossesLine, after)
        else if after.left < width (w ++ rest) + 1 then do
          let (more, crossed, rest) ← plainFrom false indent gap after
          return (pending.fold ++ w ++ more, crossed, rest)
        else none
      else some (pending.fold ++ w, false, glyphs line (column + w.length) rest) := by
  obtain ⟨c, w', hcons, -, hcomment⟩ := hw.exists_cons
  have hpeek : (glyphs line column (w ++ rest)).peek = c := by rw [hcons]; rfl
  have hempty : w.isEmpty = false := by rw [hcons]; rfl
  rw [plainFrom]
  simp only [hmark, hpeek, hcomment, plainWord?_word hw.spaceless hw.last hrest, hempty, peek_glyphs,
    left_glyphs, decide_false, Bool.or_self, Bool.false_eq_true, if_false, Bool.not_false,
    Bool.true_and, decide_eq_true_eq, Option.bind_eq_bind, Option.bind_some]
  rfl

theorem plainFrom_word_colon {c : Char} {rest : List Char} (hc : isSpace c = true)
    (hmark : (glyphs line column (w ++ ':' :: c :: rest)).atDocumentMark = false) :
    plainFrom false indent pending (glyphs line column (w ++ ':' :: c :: rest)) =
      some (pending.fold ++ w, false, glyphs line (column + w.length) (':' :: c :: rest)) :=
  plainFrom_word hw indent pending (.inr ⟨rfl, hc⟩) hmark

theorem plainFrom_word_line {n : Nat} {rest : List Char} (hn : (n : Int) < indent)
    (hrest : Stops rest)
    (hmark : (glyphs line column (w ++ '\n' :: (blanks n ++ rest))).atDocumentMark = false) :
    plainFrom false indent pending (glyphs line column (w ++ '\n' :: (blanks n ++ rest))) =
      some (pending.fold ++ w, true, glyphs (line + 1) n rest) := by
  have hgap : gap? indent false (glyphs line (column + w.length) ('\n' :: (blanks n ++ rest))) =
      some (⟨[], ['\n']⟩, glyphs (line + 1) n rest) :=
    gap?_breaks hrest indent false n (show ∀ b ∈ ['\n'], isBreak b = true by simp [isBreak])
      (by simp) line _
  rw [plainFrom_word hw indent pending (.inl rfl) hmark]
  simp [hgap, hn, Gap.crossesLine, isBreak]

theorem plainFrom_word_blanks {n : Nat} {rest : List Char} (hrest : Stops rest)
    (hcolumn : indent ≤ column + 1)
    (hmark : (glyphs line column (w ++ (blanks (n + 1) ++ rest))).atDocumentMark = false) :
    plainFrom false indent pending (glyphs line column (w ++ (blanks (n + 1) ++ rest))) = do
      let (more, crossed, out) ← plainFrom false indent ⟨blanks (n + 1), []⟩
        (glyphs line (column + w.length + (n + 1)) rest)
      return (pending.fold ++ w ++ more, crossed, out) := by
  have hgap := gap?_blanks hrest indent false (n + 1) line (column + w.length)
  have hinside : ¬((column + w.length + (n + 1) : Nat) : Int) < indent := by omega
  have hleft : width rest < width (w ++ (blanks (n + 1) ++ rest)) := by
    have hw := width_pos hw.ne_nil
    rw [width_append, width_append]
    omega
  have hblank : isBlank (first (blanks (n + 1) ++ rest)) = true := rfl
  rw [plainFrom_word hw indent pending (.inl rfl) hmark, hblank, Bool.true_or, if_pos rfl, hgap]
  simp only [Option.bind_eq_bind, Option.bind_some, column_glyphs, left_glyphs, hinside, if_false,
    Nat.add_lt_add_right hleft 1, if_true, Bool.false_eq_true]

end Word

/-- Words are read up to where the last one ends. -/
theorem plainFrom_words {indent : Int} {line : Nat} {rest : List Char} (crossed : Bool)
    (out : Nat → Input)
    (hend : ∀ (w : List Char) (pending : Gap) (column : Nat), IsWord w →
      (glyphs line column (w ++ rest)).atDocumentMark = false →
        plainFrom false indent pending (glyphs line column (w ++ rest)) =
          some (pending.fold ++ w, crossed, out (column + w.length)))
    {cs : List Char} (hcs : Words cs) (pending : Gap) {column : Nat} (hcolumn : indent ≤ column + 1)
    (hmark : (glyphs line column (cs ++ rest)).atDocumentMark = false) :
    plainFrom false indent pending (glyphs line column (cs ++ rest)) =
      some (pending.fold ++ cs, crossed, out (column + cs.length)) := by
  induction hcs generalizing pending column with
  | last hw => exact hend _ pending column hw hmark
  | @more w cs n hw hcs ih =>
    rw [List.append_assoc, List.append_assoc] at hmark ⊢
    rw [plainFrom_word_blanks hw indent pending (hcs.stops rest) hcolumn hmark,
      ih ⟨blanks (n + 1), []⟩ (by push_cast; omega) (atDocumentMark_glyphs _ _ _ (by omega))]
    have hlength : column + (w ++ (blanks (n + 1) ++ cs)).length =
        column + w.length + (n + 1) + cs.length := by
      simp only [List.length_append, blanks, List.length_replicate]
      omega
    rw [hlength]
    simp [Gap.fold]

section Scalar

variable {cs : List Char} (hcs : Words cs) {indent : Int} {line column : Nat}
  (hcolumn : indent ≤ column + 1)
include hcs hcolumn

theorem plain?_line {n : Nat} {rest : List Char} (hn : (n : Int) < indent) (hrest : Stops rest)
    (hmark : (glyphs line column (cs ++ '\n' :: (blanks n ++ rest))).atDocumentMark = false) :
    plain? false indent (glyphs line column (cs ++ '\n' :: (blanks n ++ rest))) =
      some (String.ofList cs, true, glyphs (line + 1) n rest) := by
  have hread := plainFrom_words true (fun _ => glyphs (line + 1) n rest)
    (fun w pending _ hw hmark => plainFrom_word_line hw indent pending hn hrest hmark)
    hcs ⟨[], []⟩ hcolumn hmark
  rw [plain?, hread]
  rfl

theorem plain?_colon {c : Char} {rest : List Char} (hc : isSpace c = true)
    (hmark : (glyphs line column (cs ++ ':' :: c :: rest)).atDocumentMark = false) :
    plain? false indent (glyphs line column (cs ++ ':' :: c :: rest)) =
      some (String.ofList cs, false, glyphs line (column + cs.length) (':' :: c :: rest)) := by
  have hread := plainFrom_words false (fun column => glyphs line column (':' :: c :: rest))
    (fun w pending _ hw hmark => plainFrom_word_colon hw indent pending hc hmark)
    hcs ⟨[], []⟩ hcolumn hmark
  rw [plain?, hread]
  rfl

end Scalar

theorem endsEarly_append {before : Char} {xs ys : List Char}
    (h : Writer.endsEarly before (xs ++ ys) = false) :
    Writer.endsEarly ((before :: xs).getLast (by simp)) ys = false := by
  induction xs generalizing before with
  | nil => exact h
  | cons c xs ih =>
    rw [List.cons_append, Writer.endsEarly, Bool.or_eq_false_iff] at h
    exact ih h.2

theorem getLast?_ne_colon {before : Char} {w rest : List Char}
    (h : Writer.endsEarly before (w ++ rest) = false) (hrest : Writer.isGap rest.head? = true) :
    w.getLast? ≠ some ':' := by
  intro hlast
  obtain ⟨w', rfl⟩ := List.getLast?_eq_some_iff.mp hlast
  rw [List.append_assoc] at h
  have hcolon := endsEarly_append h
  simp [Writer.endsEarly, hrest] at hcolon

theorem head?_ne_comment {before : Char} {cs : List Char}
    (h : Writer.endsEarly before cs = false) (hgap : Writer.isGap (some before) = true) :
    cs.head? ≠ some '#' := by
  intro hhead
  obtain ⟨rest, rfl⟩ := List.head?_eq_some_iff.mp hhead
  simp [Writer.endsEarly, hgap] at h

/-- Characters that a plain scalar may hold. -/
def isPlainChar (c : Char) : Bool := Writer.isPrintable c && !Writer.isLineBreak c

theorem isSpace_of_isPlainChar {c : Char} (h : isPlainChar c = true) (hne : c ≠ ' ') :
    isSpace c = false := by
  obtain ⟨hprint, hline⟩ := Bool.and_eq_true_iff.mp h
  rw [isLineBreak_of_isPrintable hprint, Bool.not_eq_true'] at hline
  exact isSpace_of_isPrintable hprint hne hline

theorem getLast?_append_blanks (cs : List Char) (n : Nat) :
    (cs ++ blanks (n + 1)).getLast? = some ' ' := by
  rw [blanks, List.replicate_succ', ← List.append_assoc, List.getLast?_concat]

theorem words_of_endsEarly (before : Char) {cs : List Char} (hne : cs ≠ [])
    (hearly : Writer.endsEarly before cs = false) (hchars : ∀ c ∈ cs, isPlainChar c = true)
    (hfirst : cs.head? ≠ some ' ') (hcomment : cs.head? ≠ some '#')
    (hlast : cs.getLast? ≠ some ' ') : Words cs := by
  induction hlength : cs.length using Nat.strongRecOn generalizing before cs with
  | ind k ih =>
    -- the first word goes up to the first blank
    obtain ⟨w, rest, rfl, hw, hrest⟩ := exists_run (· != ' ') cs
    have hwne : w ≠ [] := by
      rintro rfl
      obtain ⟨c, rest, rfl⟩ := List.exists_cons_of_ne_nil hne
      exact hfirst (by simpa using hrest)
    have hspaceless : ∀ c ∈ w, isSpace c = false := fun c hc =>
      isSpace_of_isPlainChar (hchars c (List.mem_append_left rest hc)) (by simpa using hw c hc)
    have hhead : (w ++ rest).head? = w.head? := by
      obtain ⟨c, w, rfl⟩ := List.exists_cons_of_ne_nil hwne
      rfl
    rw [hhead] at hcomment
    have hword (hgap : Writer.isGap rest.head? = true) : IsWord w :=
      ⟨hwne, hspaceless, getLast?_ne_colon hearly hgap, hcomment⟩
    cases rest with
    | nil =>
      rw [List.append_nil]
      exact .last (hword rfl)
    | cons c rest =>
      obtain rfl : c = ' ' := by simpa using hrest
      obtain ⟨n, cs, rfl, hcs⟩ := exists_blanks rest
      have hjoin : ' ' :: (blanks n ++ cs) = blanks (n + 1) ++ cs := rfl
      rw [hjoin] at hearly hchars hlast hlength ⊢
      have hcsne : cs ≠ [] := by
        rintro rfl
        rw [List.append_nil, getLast?_append_blanks] at hlast
        exact hlast rfl
      -- what follows the blanks is again such a text, after a blank
      rw [← List.append_assoc] at hearly
      have hearly' := endsEarly_append hearly
      have hbefore : (before :: (w ++ blanks (n + 1))).getLast (by simp) = ' ' := by
        rw [List.getLast_cons (by simp [hwne])]
        exact Option.some.inj ((List.getLast?_eq_some_getLast _).symm.trans
          (getLast?_append_blanks w n))
      rw [hbefore] at hearly'
      refine .more (hword rfl) (ih cs.length ?_ ' ' hcsne hearly' ?_ hcs
        (head?_ne_comment hearly' rfl) ?_ rfl)
      · rw [← hlength]
        simp [blanks]
        omega
      · exact fun c hc => hchars c (List.mem_append_right w (List.mem_append_right _ hc))
      · intro hblank
        apply hlast
        rw [← List.append_assoc, List.getLast?_append, hblank]
        rfl

theorem words_of_allowsPlain {cs : List Char} (h : Writer.allowsPlain cs = true) (hne : cs ≠ []) :
    Words cs := by
  obtain ⟨c, cs, rfl⟩ := List.exists_cons_of_ne_nil hne
  simp only [Writer.allowsPlain, Bool.and_eq_true, Bool.not_eq_true', List.all_eq_true,
    decide_eq_true_eq] at h
  obtain ⟨⟨⟨⟨⟨-, hstarts⟩, hearly⟩, hchars⟩, hfirst⟩, hlast⟩ := h
  simp only [Writer.startsOther, Bool.or_eq_false_iff, Bool.and_eq_false_iff, decide_eq_false_iff_not]
    at hstarts
  obtain ⟨hother, hmark⟩ := hstarts
  have hcomment : c ≠ '#' := fun h => hother (by simp [h])
  have hcolon : (c = ':' && Writer.isGap cs.head?) = false := by
    by_cases hc : c = ':'
    · rcases hmark with hmark | hmark
      · exact absurd (by simp [hc]) hmark
      · simp [hmark]
    · simp [hc]
  refine words_of_endsEarly 'a' hne ?_ ?_ (by simpa using hfirst) (by simpa using hcomment) hlast
  · simp [Writer.endsEarly, hcolon, hcomment, hearly]
  · intro d hd
    simpa [isPlainChar] using hchars d hd

/-- A key at the start of a line is no mark between documents. -/
theorem atDocumentMark_of_allowsPlain {cs : List Char} (h : Writer.allowsPlain cs = true)
    (line column : Nat) (rest : List Char) :
    (glyphs line column (cs ++ ':' :: rest)).atDocumentMark = false := by
  have hmark : Writer.isDocumentMark cs = false := by
    cases cs with
    | nil => rfl
    | cons c cs =>
      simp only [Writer.allowsPlain, Bool.and_eq_true, Bool.not_eq_true'] at h
      exact h.1.1.1.1.1
  rw [Bool.eq_false_iff]
  intro hall
  simp only [Input.atDocumentMark, Input.peek, charAt_glyphs, Bool.and_eq_true, Bool.or_eq_true,
    decide_eq_true_eq] at hall
  obtain ⟨⟨⟨⟨-, hfirst⟩, hsecond⟩, hthird⟩, -⟩ := hall
  match cs, hmark with
  | [], _ => simp at hfirst
  | [a], _ =>
    obtain rfl : ':' = a := hsecond
    simp at hfirst
  | [a, b], _ =>
    obtain rfl : ':' = a := hthird
    simp at hfirst
  | a :: b :: c :: cs, hmark =>
    obtain rfl : b = a := hsecond
    obtain rfl : c = b := hthird
    obtain rfl | rfl : c = '-' ∨ c = '.' := hfirst <;> simp [Writer.isDocumentMark] at hmark

end PointerTriage.Yaml
