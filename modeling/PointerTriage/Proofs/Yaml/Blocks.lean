import PointerTriage.Proofs.Yaml.Glyphs

namespace PointerTriage.Yaml
open Glyph
open Writer (blanks)

theorem emptyLines?_stop {indent seen column : Nat} {cs : List Char} (line : Nat)
    (hbreak : isBreak (first cs) = false)
    (hblank : (indent = 0 ∨ column < indent) → isBlank (first cs) = false) :
    emptyLines? indent seen (glyphs line column cs) =
      some ([], max seen column, glyphs line column cs) := by
  cases cs with
  | nil => simp [glyphs, emptyLines?, endMark, isBreak, isSeparator]
  | cons c cs =>
    rw [first_cons] at hbreak hblank
    by_cases hinside : indent = 0 ∨ column < indent
    · have hc := hblank hinside
      simp only [isBlank, Bool.or_eq_false_iff, decide_eq_false_iff_not] at hc
      simp [glyphs, emptyLines?, hbreak, hc]
    · have hoff : (indent = 0 || column < indent) = false := by simpa using hinside
      simp [glyphs, emptyLines?, hbreak, hoff]

theorem emptyLines?_blanks {indent : Nat} (n line : Nat) {column : Nat} (seen : Nat) (cs : List Char)
    (h : indent = 0 ∨ column + n ≤ indent) :
    emptyLines? indent seen (glyphs line column (blanks n ++ cs)) =
      emptyLines? indent (if n = 0 then seen else max seen (column + n))
        (glyphs line (column + n) cs) := by
  induction n generalizing column seen with
  | zero => rfl
  | succ n ih =>
    have hinside : (indent = 0 || column < indent) = true := by
      simp only [Bool.or_eq_true, decide_eq_true_eq]
      omega
    have hbreak : isBreak ' ' = false := rfl
    rw [blanks, List.replicate_succ, List.cons_append, ← blanks, glyphs, emptyLines?]
    simp only [hinside, Bool.true_and, decide_true, if_true, hbreak, Bool.false_eq_true, if_false]
    rw [ih (max seen (column + 1)) (by omega)]
    have hcolumn : column + 1 + n = column + (n + 1) := by omega
    rw [hcolumn]
    congr 1
    rw [if_neg n.succ_ne_zero]
    split
    · rename_i hzero
      rw [hzero]
    · omega

/-- Empty lines, then the indentation of the next line. -/
theorem emptyLines?_breaks {indent n : Nat} (hn : n ≤ indent) {cs bs : List Char}
    (hbs : ∀ b ∈ bs, isBreak b = true) (hbreak : isBreak (first cs) = false)
    (hblank : n < indent → isBlank (first cs) = false) (hindent : 0 < indent) (line seen : Nat) :
    ∃ seen', emptyLines? indent seen (glyphs line 0 (bs ++ (blanks n ++ cs))) =
      some (bs, seen', glyphs (line + bs.length) n cs) := by
  induction bs generalizing line seen with
  | nil =>
    rw [List.nil_append, emptyLines?_blanks n line seen cs (.inr (by omega)), Nat.zero_add,
      emptyLines?_stop line hbreak (fun h => hblank (by omega))]
    exact ⟨_, rfl⟩
  | cons b bs ih =>
    obtain ⟨hb, hbs⟩ := List.forall_mem_cons.mp hbs
    have hb' := isBlank_of_isBreak hb
    simp only [isBlank, Bool.or_eq_false_iff, decide_eq_false_iff_not] at hb'
    obtain ⟨seen', hread⟩ := ih hbs (line + 1) (max seen 0)
    refine ⟨seen', ?_⟩
    rw [List.cons_append, glyphs, emptyLines?]
    simp only [hb'.1, hb'.2, hb, hread, decide_false, Bool.and_false, Bool.false_eq_true, if_false,
      if_true, Option.map_some, List.length_cons]
    rw [Nat.add_assoc, Nat.add_comm 1]

/-- A line that is not empty, without its end. -/
structure IsLine (w : List Char) : Prop where
  ne_nil : w ≠ []
  inside : ∀ c ∈ w, Writer.isLineBreak c = false ∧ isEnd c = false

theorem isBreak_of_isLineBreak {c : Char} (h : Writer.isLineBreak c = false) : isBreak c = false := by
  simp only [Writer.isLineBreak, Bool.or_eq_false_iff] at h
  exact h.1.1

theorem isLineBreak_of_isBreak {c : Char} (h : isBreak c = true) : Writer.isLineBreak c = true := by
  simp [Writer.isLineBreak, h]

/-- Lines of which the first is not empty, each with its end and some empty lines after it. The last line
ends in `b`, and `empty` follows. -/
inductive Lines : (cs body : List Char) → (b : Char) → (empty : List Char) → Prop where
  | last {w : List Char} {b : Char} {empty : List Char} (hw : IsLine w) (hb : isBreak b = true)
      (hempty : ∀ c ∈ empty, isBreak c = true) : Lines (w ++ b :: empty) w b empty
  | more {w bs cs body empty : List Char} {b b' : Char} (hw : IsLine w) (hb : isBreak b' = true)
      (hbs : ∀ c ∈ bs, isBreak c = true) (hcs : Lines cs body b empty) :
      Lines (w ++ b' :: (bs ++ cs)) (w ++ b' :: (bs ++ body)) b empty

section Reading

variable {indent : Nat} (hindent : 0 < indent) (line : Nat) (afterBlank : Bool)
  (last empty : List Char)
include hindent

/-- One line, its end and the empty lines after it. -/
theorem blockLines?_line {w : List Char} (hw : IsLine w) {b : Char} (hb : isBreak b = true)
    {bs : List Char} (hbs : ∀ c ∈ bs, isBreak c = true) {n : Nat} (hn : n ≤ indent) {cs : List Char}
    (hbreak : isBreak (first cs) = false) (hblank : n < indent → isBlank (first cs) = false) :
    ∃ startsBlank, blockLines? true indent afterBlank last empty
        (glyphs line indent (w ++ b :: (bs ++ (blanks n ++ cs)))) =
      (blockLines? true indent startsBlank [b] bs (glyphs (line + 1 + bs.length) n cs)).map
        fun (text, last', tail, rest) => (last ++ empty ++ w ++ text, last', tail, rest) := by
  obtain ⟨seen, hempty⟩ := emptyLines?_breaks hn hbs hbreak hblank hindent (line + 1) 0
  obtain ⟨c, w', hcons⟩ := List.exists_cons_of_ne_nil hw.ne_nil
  have hfirst : first (w ++ b :: (bs ++ (blanks n ++ cs))) = c := by rw [hcons]; rfl
  have hend : isEnd c = false := (hw.inside c (by rw [hcons]; exact List.mem_cons_self)).2
  have hspan : (glyphs line indent (w ++ b :: (bs ++ (blanks n ++ cs)))).span (!isBreakOrEnd ·) =
      (w, glyphs line (indent + w.length) (b :: (bs ++ (blanks n ++ cs)))) := by
    refine span_glyphs _ _ _ (fun c hc => ?_) (by simp [isBreakOrEnd, hb])
    obtain ⟨hline, hend⟩ := hw.inside c hc
    have hbreak := isBreak_of_isLineBreak hline
    exact ⟨by simp [isBreakOrEnd, hbreak, hend], hbreak⟩
  have hleft : width cs + 1 < width (w ++ b :: (bs ++ (blanks n ++ cs))) + 1 := by
    have hw := width_pos hw.ne_nil
    rw [← List.singleton_append, width_append, width_append, width_append, width_append]
    omega
  refine ⟨isBlank c, ?_⟩
  rw [blockLines?]
  simp only [column_glyphs, peek_glyphs, hfirst, hend, hspan, first_cons, hb, if_true,
    List.length_singleton, drop_glyphs_break _ _ _ hb, hempty, left_glyphs, hleft, decide_true,
    Bool.not_false, Bool.and_self, Bool.not_true, Bool.false_and, Bool.false_eq_true, if_false,
    Option.bind_eq_bind, Option.bind_some]
  cases blockLines? true indent (isBlank c) [b] bs (glyphs (line + 1 + bs.length) n cs) <;> rfl

end Reading

theorem lines_line {w : List Char} (hw : ∀ c ∈ w, Writer.isLineBreak c = false) (indent : Nat)
    (cs : List Char) : Writer.lines indent false (w ++ cs) = w ++ Writer.lines indent false cs := by
  induction w with
  | nil => rfl
  | cons c w ih =>
    obtain ⟨hc, hw⟩ := List.forall_mem_cons.mp hw
    simp [Writer.lines, hc, ih hw]

theorem lines_breaks {bs : List Char} (hne : bs ≠ []) (hbs : ∀ b ∈ bs, isBreak b = true)
    (indent : Nat) (fresh : Bool) (cs : List Char) :
    Writer.lines indent fresh (bs ++ cs) = bs ++ Writer.lines indent true cs := by
  induction bs generalizing fresh with
  | nil => exact absurd rfl hne
  | cons b bs ih =>
    obtain ⟨hb, hbs⟩ := List.forall_mem_cons.mp hbs
    rw [List.cons_append, Writer.lines, if_pos (isLineBreak_of_isBreak hb)]
    cases bs with
    | nil => rfl
    | cons b' bs => rw [ih (by simp) hbs true]; rfl

theorem lines_fresh {c : Char} (hc : Writer.isLineBreak c = false) (indent : Nat) (cs : List Char) :
    Writer.lines indent true (c :: cs) = blanks indent ++ Writer.lines indent false (c :: cs) := by
  simp [Writer.lines, hc]

theorem lines_append_break (indent : Nat) (fresh : Bool) (cs : List Char) :
    Writer.lines indent fresh (cs ++ ['\n']) = Writer.lines indent fresh cs ++ ['\n'] := by
  induction cs generalizing fresh with
  | nil => rfl
  | cons c cs ih =>
    cases hc : Writer.isLineBreak c <;> simp [Writer.lines, hc, ih]

theorem Lines.exists_cons {cs body empty : List Char} {b : Char} (h : Lines cs body b empty) :
    ∃ c rest, cs = c :: rest ∧ Writer.isLineBreak c = false ∧ isEnd c = false := by
  cases h with
  | last hw | more hw =>
    obtain ⟨c, w, rfl⟩ := List.exists_cons_of_ne_nil hw.ne_nil
    exact ⟨c, _, rfl, hw.inside c List.mem_cons_self⟩

theorem Lines.exists_concat {cs body empty : List Char} {b : Char} (h : Lines cs body b empty) :
    ∃ before c, body = before ++ [c] ∧ Writer.isLineBreak c = false := by
  induction h with
  | @last w b empty hw hb hempty =>
    exact ⟨w.dropLast, w.getLast hw.ne_nil, (List.dropLast_concat_getLast hw.ne_nil).symm,
      (hw.inside _ (List.getLast_mem hw.ne_nil)).1⟩
  | @more w bs cs body empty b b' hw hb hbs hcs ih =>
    obtain ⟨before, c, rfl, hc⟩ := ih
    exact ⟨w ++ b' :: (bs ++ before), c, by simp, hc⟩

theorem Lines.isBreak {cs body empty : List Char} {b : Char} (h : Lines cs body b empty) :
    ∀ c ∈ b :: empty, isBreak c = true := by
  induction h with
  | last _ hb hempty => exact List.forall_mem_cons.mpr ⟨hb, hempty⟩
  | more _ _ _ _ ih => exact ih

theorem Lines.eq {cs body empty : List Char} {b : Char} (h : Lines cs body b empty) :
    cs = body ++ b :: empty := by
  induction h with
  | last => rfl
  | more _ _ _ _ ih => simp [ih]

/-- Lines are read as they are written, up to a line that is indented less. -/
theorem blockLines?_lines {indent m : Nat} (hm : m < indent) {rest : List Char} (hrest : Stops rest)
    {cs body empty : List Char} {b : Char} (h : Lines cs body b empty) (line : Nat)
    (afterBlank : Bool) (last before : List Char) :
    ∃ line', line < line' ∧ blockLines? true indent afterBlank last before
        (glyphs line indent (Writer.lines indent false cs ++ (blanks m ++ rest))) =
      some (last ++ before ++ body, [b], empty, glyphs line' m rest) := by
  induction h generalizing line afterBlank last before with
  | @last w b empty hw hb hempty =>
    have hbs : ∀ c ∈ b :: empty, isBreak c = true := List.forall_mem_cons.mpr ⟨hb, hempty⟩
    have htext : Writer.lines indent false (w ++ b :: empty) = w ++ b :: empty := by
      have hbreaks := lines_breaks (by simp) hbs indent false []
      rw [List.append_nil] at hbreaks
      rw [lines_line (fun c hc => (hw.inside c hc).1), hbreaks]
      simp [Writer.lines]
    obtain ⟨startsBlank, hread⟩ := blockLines?_line (Nat.zero_lt_of_lt hm) line afterBlank last before hw
      hb hempty (Nat.le_of_lt hm) hrest.2 (fun _ => hrest.1)
    refine ⟨line + 1 + empty.length, by omega, ?_⟩
    rw [htext, List.append_assoc, List.cons_append, hread, blockLines?]
    have hcolumn : m ≠ indent := by omega
    simp [hcolumn]
  | @more w bs cs body empty b b' hw hb hbs hcs ih =>
    have hbs' : ∀ c ∈ b' :: bs, isBreak c = true := List.forall_mem_cons.mpr ⟨hb, hbs⟩
    obtain ⟨c, cs', hcons, hline, hend⟩ := hcs.exists_cons
    have htext : Writer.lines indent false (w ++ b' :: (bs ++ cs)) =
        w ++ b' :: (bs ++ (blanks indent ++ Writer.lines indent false cs)) := by
      have hbreaks := lines_breaks (by simp) hbs' indent false cs
      rw [hcons] at hbreaks ⊢
      rw [lines_fresh hline] at hbreaks
      rw [lines_line (fun c hc => (hw.inside c hc).1), ← List.cons_append, hbreaks]
      rfl
    have hfirst : first (Writer.lines indent false cs ++ (blanks m ++ rest)) = c := by
      rw [hcons]
      simp [Writer.lines, hline]
    obtain ⟨startsBlank, hread⟩ := blockLines?_line (Nat.zero_lt_of_lt hm) line afterBlank last before hw
      hb hbs (Nat.le_refl indent) (by rw [hfirst]; exact isBreak_of_isLineBreak hline)
      (fun h => absurd h (Nat.lt_irrefl indent))
    obtain ⟨line', hline', hmore⟩ := ih (line + 1 + bs.length) startsBlank [b'] bs
    refine ⟨line', by omega, ?_⟩
    simp only [htext, List.append_assoc, List.cons_append]
    rw [hread, hmore]
    simp

theorem isEnd_of_isPrintable {c : Char} (h : Writer.isPrintable c = true) : isEnd c = false := by
  have hend : c ≠ endMark := by rintro rfl; exact absurd h (by decide)
  simp [isEnd, hend]

/-- A text that starts with a line that is not empty and ends with the end of a line. -/
theorem exists_lines {cs : List Char} (hcs : ∀ c ∈ cs, Writer.isPrintable c = true)
    (hne : cs ≠ []) (hfirst : ∀ c ∈ cs.head?, isBreak c = false)
    (hlast : ∀ c ∈ cs.getLast?, isBreak c = true) : ∃ body b empty, Lines cs body b empty := by
  induction hlength : cs.length using Nat.strongRecOn generalizing cs with
  | ind k ih =>
    subst hlength
    obtain ⟨w, rest, rfl, hw, hrest⟩ := exists_run (fun c => !isBreak c) cs
    have hwne : w ≠ [] := by
      rintro rfl
      obtain ⟨c, rest, rfl⟩ := List.exists_cons_of_ne_nil hne
      have hc := hfirst c rfl
      have hc' := hrest c rfl
      simp [hc] at hc'
    have hline : IsLine w := by
      refine ⟨hwne, fun c hc => ?_⟩
      have hprint := hcs c (List.mem_append_left rest hc)
      exact ⟨by rw [isLineBreak_of_isPrintable hprint]; simpa using hw c hc,
        isEnd_of_isPrintable hprint⟩
    cases rest with
    | nil =>
      -- the text would end inside a line
      obtain ⟨w', c, rfl⟩ : ∃ w' c, w = w' ++ [c] :=
        ⟨w.dropLast, w.getLast hwne, (List.dropLast_concat_getLast hwne).symm⟩
      have hc := hw c (by simp)
      have hc' := hlast c (by simp)
      simp [hc'] at hc
    | cons b rest =>
      have hb : isBreak b = true := by simpa using hrest b rfl
      obtain ⟨bs, cs, rfl, hbs, hstart⟩ := exists_run isBreak rest
      by_cases hcs' : cs = []
      · rw [hcs', List.append_nil]
        exact ⟨w, b, bs, .last hline hb hbs⟩
      · have hlast' : ∀ c ∈ cs.getLast?, isBreak c = true := by
          intro c hc
          refine hlast c ?_
          rw [← List.cons_append, ← List.append_assoc, List.getLast?_append, hc]
          rfl
        obtain ⟨body, b', empty, hmore⟩ := ih cs.length (by simp; omega)
          (fun c hc => hcs c (by simp [hc])) hcs' hstart hlast' rfl
        exact ⟨_, b', empty, .more hline hb hbs hmore⟩

/-- Text with the end of its last line. -/
def ended (cs : List Char) : List Char :=
  if cs.getLast?.any Writer.isLineBreak then cs else cs ++ ['\n']

theorem lines_ended (indent : Nat) (fresh : Bool) (cs : List Char) :
    Writer.lines indent fresh cs ++ (if cs.getLast?.any Writer.isLineBreak then [] else ['\n']) =
      Writer.lines indent fresh (ended cs) := by
  unfold ended
  split
  · exact List.append_nil _
  · exact (lines_append_break indent fresh cs).symm

/-- The header asks for the line breaks that the text ends with. -/
theorem chompHint_cases {cs before empty : List Char} {c b : Char}
    (hc : Writer.isLineBreak c = false) (hbreaks : ∀ x ∈ b :: empty, Writer.isLineBreak x = true)
    (h : ended cs = before ++ [c] ++ b :: empty) :
    (Writer.chompHint cs = ['-'] ∧ cs = before ++ [c]) ∨
      (Writer.chompHint cs = [] ∧ cs = before ++ [c] ++ [b]) ∨
      (Writer.chompHint cs = ['+'] ∧ cs = before ++ [c] ++ b :: empty) := by
  obtain ⟨hb, hempty⟩ := List.forall_mem_cons.mp hbreaks
  -- seen from the end
  obtain ⟨ends, rfl⟩ : ∃ ends, empty = ends.reverse := ⟨empty.reverse, by simp⟩
  unfold ended at h
  split at h <;> rename_i hended
  · subst h
    cases ends with
    | nil => exact .inr (.inl ⟨by simp [Writer.chompHint, hb, hc], by simp⟩)
    | cons x ends =>
      have hx := hempty x (by simp)
      refine .inr (.inr ⟨?_, rfl⟩)
      cases ends with
      | nil => simp [Writer.chompHint, hx, hb]
      | cons y ends =>
        have hy := hempty y (by simp)
        simp [Writer.chompHint, hx, hy]
  · cases ends with
    | nil =>
      obtain ⟨rfl, -⟩ := List.append_inj' h rfl
      have hreverse : (before ++ [c]).reverse = c :: before.reverse := by simp
      refine .inl ⟨?_, rfl⟩
      rw [Writer.chompHint, hreverse]
      cases before.reverse <;> simp [hc]
    | cons x ends =>
      -- then the text without the added end still ends in a line break
      rw [List.reverse_cons, ← List.cons_append, ← List.append_assoc] at h
      obtain ⟨rfl, -⟩ := List.append_inj' h rfl
      cases ends with
      | nil => simp [hb] at hended
      | cons y ends =>
        have hlast : (before ++ [c] ++ b :: (y :: ends).reverse).getLast? = some y := by
          rw [List.reverse_cons, ← List.cons_append, ← List.append_assoc, List.getLast?_concat]
        rw [hlast, Option.any_some] at hended
        exact absurd (hempty y (by simp)) hended

theorem blockHeader?_hints {hint marks : List Char} {increment : Nat} {chomp : Chomp}
    (hhint : (hint = [] ∧ increment = 0) ∨ (hint = ['2'] ∧ increment = 2))
    (hmarks : (marks = ['-'] ∧ chomp = .strip) ∨ (marks = [] ∧ chomp = .clip) ∨
      (marks = ['+'] ∧ chomp = .keep)) (line column : Nat) (cs : List Char) :
    ∃ column', blockHeader? (glyphs line column (hint ++ marks ++ '\n' :: cs)) =
      some (chomp, increment, glyphs line column' ('\n' :: cs)) := by
  rcases hhint with ⟨rfl, rfl⟩ | ⟨rfl, rfl⟩ <;>
    rcases hmarks with ⟨rfl, rfl⟩ | ⟨rfl, rfl⟩ | ⟨rfl, rfl⟩ <;> exact ⟨_, rfl⟩

/-- What becomes of the line breaks at the end. -/
def Chomp.ending (last tail : List Char) : Chomp → List Char
  | .strip => []
  | .clip => last
  | .keep => last ++ tail

theorem block?_of_lines (outer : Nat) {gs after rest : Input} {chomp : Chomp} {increment : Nat}
    {line column : Nat} {cs empty text last tail : List Char} {seen indent : Nat}
    (hheader : blockHeader? gs = some (chomp, increment, glyphs line column ('\n' :: cs)))
    (hempty : emptyLines? (if increment = 0 then 0 else increment + outer) 0
      (glyphs (line + 1) 0 cs) = some (empty, seen, after))
    (hindent : indent = if increment = 0 then max seen (outer + 1) else increment + outer)
    (hlines : blockLines? true indent false [] empty after = some (text, last, tail, rest)) :
    block? true outer gs = some (String.ofList (text ++ chomp.ending last tail), rest) := by
  have hskip : (glyphs line column ('\n' :: cs)).skip isBlank = glyphs line column ('\n' :: cs) :=
    skip_glyphs _ _ _ rfl
  have hbreak : isBreak '\n' = true := rfl
  have hends : isBreakOrEnd '\n' = true := rfl
  have hcomment : '\n' ≠ '#' := by decide
  have hindent' : (if (if increment = 0 then 0 else increment + outer) = 0 then
      max seen (max ((outer : Int) + 1).toNat 1) else if increment = 0 then 0 else increment + outer) =
      indent := by
    rw [hindent]
    by_cases hzero : increment = 0
    · simp only [hzero, if_true]
      omega
    · simp [hzero]
  rw [block?, hheader]
  simp only [Option.bind_eq_bind, Option.bind_some, hskip, peek_glyphs, first_cons, hcomment,
    hends, hbreak, if_false, if_true, Bool.not_true, Bool.false_eq_true,
    drop_glyphs_break _ _ _ hbreak, Int.toNat_natCast, hempty, hindent', hlines]
  rfl

theorem isPrintable_of_mem_ended {cs : List Char} (h : ∀ c ∈ cs, Writer.isPrintable c = true) :
    ∀ c ∈ ended cs, Writer.isPrintable c = true := by
  intro c hc
  unfold ended at hc
  split at hc
  · exact h c hc
  · rcases List.mem_append.mp hc with hc | hc
    · exact h c hc
    · rw [List.mem_singleton.mp hc]
      rfl

theorem getLast?_ended (cs : List Char) : ∀ c ∈ (ended cs).getLast?, Writer.isLineBreak c = true := by
  intro c hc
  unfold ended at hc
  split at hc
  · rename_i hended
    rwa [hc, Option.any_some] at hended
  · rw [List.getLast?_concat] at hc
    cases hc
    rfl

theorem head?_ended {cs : List Char} (h : cs ≠ []) : (ended cs).head? = cs.head? := by
  unfold ended
  split
  · rfl
  · obtain ⟨c, cs, rfl⟩ := List.exists_cons_of_ne_nil h
    rfl

theorem blockLines?_stop {indent column : Nat} (h : column ≠ indent) (afterBlank : Bool)
    (last empty : List Char) (line : Nat) (cs : List Char) :
    blockLines? true indent afterBlank last empty (glyphs line column cs) =
      some ([], last, empty, glyphs line column cs) := by
  rw [blockLines?]
  simp [h]

section Literal

variable {outer m : Nat} (hm : m ≤ outer) {rest : List Char} (hrest : Stops rest) (line column : Nat)
include hm hrest

/-- Only line breaks: all of them are kept. -/
theorem block?_breaks {cs : List Char} (hall : ∀ c ∈ cs, isBreak c = true) (hne : cs ≠ []) :
    ∃ line', line < line' ∧ block? true outer (glyphs line column
        (Writer.indentHint cs ++ Writer.chompHint cs ++
          '\n' :: (Writer.lines (outer + 2) true cs ++ (blanks m ++ rest)))) =
      some (String.ofList cs, glyphs line' m rest) := by
  have hline : ∀ c ∈ cs, Writer.isLineBreak c = true := fun c hc => isLineBreak_of_isBreak (hall c hc)
  have hhint : Writer.indentHint cs = ['2'] := by
    obtain ⟨c, cs, rfl⟩ := List.exists_cons_of_ne_nil hne
    simp [Writer.indentHint, hline c List.mem_cons_self]
  have hchomp : Writer.chompHint cs = ['+'] := by
    have hmem (c : Char) (h : c ∈ cs.reverse) := hline c (List.mem_reverse.mp h)
    unfold Writer.chompHint
    split <;> rename_i hreverse <;> rw [hreverse] at hmem
    · exact absurd (List.reverse_eq_nil_iff.mp hreverse) hne
    · simp [hmem]
    · simp [hmem]
  have htext : Writer.lines (outer + 2) true cs = cs := by
    have hbreaks := lines_breaks hne hall (outer + 2) true []
    simpa [Writer.lines] using hbreaks
  obtain ⟨column', hheader⟩ := blockHeader?_hints (.inr ⟨hhint, rfl⟩) (.inr (.inr ⟨hchomp, rfl⟩)) line
    column (Writer.lines (outer + 2) true cs ++ (blanks m ++ rest))
  obtain ⟨seen, hempty⟩ := emptyLines?_breaks (show m ≤ 2 + outer by omega) hall hrest.2
    (fun _ => hrest.1) (by omega) (line + 1) 0
  rw [htext] at hheader ⊢
  refine ⟨line + 1 + cs.length, by omega, ?_⟩
  exact block?_of_lines outer hheader hempty rfl
    (blockLines?_stop (show m ≠ 2 + outer by omega) false [] cs _ rest)

/-- A line that is not empty comes, after some that are. -/
theorem block?_lines {cs bs more body empty : List Char} {b : Char} (hne : cs ≠ [])
    (hprint : ∀ c ∈ cs, Writer.isPrintable c = true)
    (hsplit : ended cs = bs ++ more) (hbs : ∀ c ∈ bs, isBreak c = true)
    (hlines : Lines more body b empty) :
    ∃ line', line < line' ∧ block? true outer (glyphs line column
        (Writer.indentHint cs ++ Writer.chompHint cs ++
          '\n' :: (Writer.lines (outer + 2) true (ended cs) ++ (blanks m ++ rest)))) =
      some (String.ofList cs, glyphs line' m rest) := by
  obtain ⟨c, more', hcons, hline, hend⟩ := hlines.exists_cons
  obtain ⟨before, c', hbody, hc'⟩ := hlines.exists_concat
  -- the header
  have hwhole : ended cs = bs ++ before ++ [c'] ++ b :: empty := by
    rw [hsplit, hlines.eq, hbody]
    simp
  obtain ⟨chomp, hchomp, hresult⟩ : ∃ chomp,
      ((Writer.chompHint cs = ['-'] ∧ chomp = Chomp.strip) ∨
        (Writer.chompHint cs = [] ∧ chomp = .clip) ∨ (Writer.chompHint cs = ['+'] ∧ chomp = .keep)) ∧
      bs ++ body ++ chomp.ending [b] empty = cs := by
    rcases chompHint_cases hc' (fun x hx => isLineBreak_of_isBreak (hlines.isBreak x hx)) hwhole with
      ⟨hhint, hcs⟩ | ⟨hhint, hcs⟩ | ⟨hhint, hcs⟩
    · exact ⟨.strip, .inl ⟨hhint, rfl⟩, by rw [hcs, hbody]; simp [Chomp.ending]⟩
    · exact ⟨.clip, .inr (.inl ⟨hhint, rfl⟩), by rw [hcs, hbody]; simp [Chomp.ending]⟩
    · exact ⟨.keep, .inr (.inr ⟨hhint, rfl⟩), by rw [hcs, hbody]; simp [Chomp.ending]⟩
  -- the text
  have htext : Writer.lines (outer + 2) true (ended cs) =
      bs ++ (blanks (outer + 2) ++ Writer.lines (outer + 2) false more) := by
    rw [hsplit, hcons, ← lines_fresh hline]
    by_cases hnone : bs = []
    · rw [hnone]
      rfl
    · exact lines_breaks hnone hbs (outer + 2) true _
  have hfirst : first (Writer.lines (outer + 2) false more ++ (blanks m ++ rest)) = c := by
    rw [hcons]
    simp [Writer.lines, hline]
  have hbreak : isBreak (first (Writer.lines (outer + 2) false more ++ (blanks m ++ rest))) = false := by
    rw [hfirst]
    exact isBreak_of_isLineBreak hline
  obtain ⟨line', hline', hread⟩ := blockLines?_lines (show m < outer + 2 by omega) hrest hlines
    (line + 1 + bs.length) false [] bs
  refine ⟨line', by omega, ?_⟩
  rw [htext, List.append_assoc bs, List.append_assoc (blanks (outer + 2))]
  have hhead : cs.head? = (bs ++ more).head? := by rw [← hsplit, head?_ended hne]
  cases hshown : cs.head?.any (fun c => c = ' ' || Writer.isLineBreak c) with
  | true =>
    have hhint : Writer.indentHint cs = ['2'] := by simp [Writer.indentHint, hshown]
    obtain ⟨column', hheader⟩ := blockHeader?_hints (.inr ⟨hhint, rfl⟩) hchomp line column
      (bs ++ (blanks (outer + 2) ++ (Writer.lines (outer + 2) false more ++ (blanks m ++ rest))))
    obtain ⟨seen, hempty⟩ := emptyLines?_breaks (show outer + 2 ≤ 2 + outer by omega) hbs hbreak
      (by omega) (by omega) (line + 1) 0
    have hblock := block?_of_lines outer hheader hempty (show outer + 2 = 2 + outer by omega) hread
    rwa [List.nil_append, hresult] at hblock
  | false =>
    -- the first line shows the indentation
    have hhint : Writer.indentHint cs = [] := by simp [Writer.indentHint, hshown]
    obtain rfl : bs = [] := by
      cases bs with
      | nil => rfl
      | cons b' bs =>
        have hb' := isLineBreak_of_isBreak (hbs b' List.mem_cons_self)
        simp [hhead, hb'] at hshown
    have hblank : isBlank c = false := by
      have hfirst : c ≠ ' ' := by
        rintro rfl
        simp [hhead, hcons] at hshown
      have htab : c ≠ '\t' := by
        rintro rfl
        exact absurd (hprint '\t' (List.mem_of_mem_head? (by rw [hhead, hcons]; rfl))) (by decide)
      simp [isBlank, hfirst, htab]
    obtain ⟨column', hheader⟩ := blockHeader?_hints (.inl ⟨hhint, rfl⟩) hchomp line column
      (blanks (outer + 2) ++ (Writer.lines (outer + 2) false more ++ (blanks m ++ rest)))
    have hempty : emptyLines? 0 0 (glyphs (line + 1) 0
        (blanks (outer + 2) ++ (Writer.lines (outer + 2) false more ++ (blanks m ++ rest)))) =
        some ([], outer + 2, glyphs (line + 1) (outer + 2)
          (Writer.lines (outer + 2) false more ++ (blanks m ++ rest))) := by
      rw [emptyLines?_blanks (outer + 2) (line + 1) 0 _ (.inl rfl), Nat.zero_add,
        emptyLines?_stop (line + 1) hbreak (fun _ => by rw [hfirst]; exact hblank)]
      simp
    have hblock := block?_of_lines outer hheader hempty
      (show outer + 2 = max (outer + 2) (outer + 1) by omega) hread
    rwa [List.nil_append, hresult] at hblock

end Literal

/-- A text of several lines reads back from a block inside one of indentation `outer`, up to a line that
is indented no further than that. -/
theorem block?_literal {cs : List Char} (hcs : Writer.allowsBlock cs = true) (hmore : '\n' ∈ cs)
    {outer m : Nat} (hm : m ≤ outer) {rest : List Char} (hrest : Stops rest) (line column : Nat) :
    ∃ line', line < line' ∧ block? true outer (glyphs line column
        (Writer.indentHint cs ++ Writer.chompHint cs ++
          '\n' :: (Writer.lines (outer + 2) true (ended cs) ++ (blanks m ++ rest)))) =
      some (String.ofList cs, glyphs line' m rest) := by
  have hprint : ∀ c ∈ cs, Writer.isPrintable c = true := by
    simp only [Writer.allowsBlock, Bool.and_eq_true, List.all_eq_true] at hcs
    exact hcs.1.1
  have hne : cs ≠ [] := List.ne_nil_of_mem hmore
  -- empty lines come first, and are all there is or are followed by one that is not empty
  obtain ⟨bs, more, hsplit, hbs, hfirst⟩ := exists_run isBreak (ended cs)
  by_cases hempty : more = []
  · have hcs' : ended cs = cs := by
      rw [hempty, List.append_nil] at hsplit
      unfold ended at hsplit ⊢
      split at hsplit <;> rename_i hended
      · exact if_pos hended
      · obtain ⟨c, hc⟩ : ∃ c, cs.getLast? = some c := ⟨_, List.getLast?_eq_some_getLast hne⟩
        have hbreak := hbs c (hsplit ▸ List.mem_append_left _ (List.mem_of_mem_getLast? hc))
        rw [hc, Option.any_some] at hended
        exact absurd (isLineBreak_of_isBreak hbreak) hended
    rw [hempty, List.append_nil, hcs'] at hsplit
    rw [hcs']
    exact block?_breaks hm hrest line column (hsplit ▸ hbs) hne
  · have hprint' := isPrintable_of_mem_ended hprint
    obtain ⟨body, b, empty, hlines⟩ := exists_lines
      (fun c hc => hprint' c (hsplit ▸ List.mem_append_right bs hc)) hempty hfirst (by
        intro c hc
        rw [← isLineBreak_of_isPrintable]
        · refine getLast?_ended cs c ?_
          rw [hsplit, List.getLast?_append, hc]
          rfl
        · exact hprint' c (hsplit ▸ List.mem_append_right bs (List.mem_of_mem_getLast? hc)))
    exact block?_lines hm hrest line column hne hprint hsplit hbs hlines

end PointerTriage.Yaml
