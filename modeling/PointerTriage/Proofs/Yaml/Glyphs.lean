import Mathlib
import PointerTriage.Yaml.Scalar
import PointerTriage.Yaml.Writer

namespace PointerTriage.Yaml
open Glyph

/-- The bytes of some characters. -/
def width (cs : List Char) : Nat := (cs.map Char.utf8Size).sum

/-- The characters up to the end of the text, with their positions from this one on. -/
def glyphs (line column : Nat) : List Char → Input
  | [] => [⟨endMark, line, column, 1⟩]
  | c :: cs =>
    ⟨c, line, column, width (c :: cs) + 1⟩ ::
      if isBreak c then glyphs (line + 1) 0 cs else glyphs line (column + 1) cs

theorem isAllowed_of_isPrintable {c : Char} (h : Writer.isPrintable c = true) :
    isAllowed c = true := by
  simp only [Writer.isPrintable, isAllowed, Bool.or_eq_true, Bool.and_eq_true, decide_eq_true_eq]
    at h ⊢
  omega

theorem ofChars_of_isPrintable {cs : List Char} (h : ∀ c ∈ cs, Writer.isPrintable c = true)
    (line column : Nat) : ofChars line column (width cs + 1) cs = glyphs line column cs := by
  induction cs generalizing line column with
  | nil => rfl
  | cons c cs ih =>
    obtain ⟨hc, hcs⟩ := List.forall_mem_cons.mp h
    have hreturn : c ≠ '\r' := by rintro rfl; exact absurd hc (by decide)
    have hnext : c ≠ '\u0085' := by rintro rfl; exact absurd hc (by decide)
    have hleft : width (c :: cs) + 1 - c.utf8Size = width cs + 1 := by
      simp only [width, List.map_cons, List.sum_cons]
      omega
    rw [ofChars, hleft, ih hcs, ih hcs, glyphs]
    · by_cases hline : c = '\n'
      · simp [hline, isBreak]
      · simp [hline, hreturn, hnext, isBreak]
        split <;> rfl
    · simp [hreturn]

theorem utf8ByteSize_ofList (cs : List Char) : (String.ofList cs).utf8ByteSize = width cs := by
  induction cs with
  | nil => rfl
  | cons c cs ih =>
    have hsplit : String.ofList (c :: cs) = String.singleton c ++ String.ofList cs := by
      rw [String.singleton_eq_ofList, ← String.ofList_append]
      rfl
    rw [hsplit, String.utf8ByteSize_append, String.utf8ByteSize_singleton, ih]
    rfl

/-- A text of printable characters is allowed, and is its glyphs. -/
theorem ofText?_of_isPrintable {cs : List Char} (h : ∀ c ∈ cs, Writer.isPrintable c = true) :
    ofText? (String.ofList cs) = some (glyphs 0 0 cs) := by
  have hall : cs.all isAllowed = true :=
    List.all_eq_true.mpr fun c hc => isAllowed_of_isPrintable (h c hc)
  rw [ofText?, String.toList_ofList, if_pos hall, utf8ByteSize_ofList, ofChars_of_isPrintable h]

/-- The first character, or the mark for the end. -/
def first (cs : List Char) : Char := cs.head?.getD endMark

@[simp] theorem first_cons (c : Char) (cs : List Char) : first (c :: cs) = c := rfl

section Glyphs

variable (line column : Nat) (cs : List Char)

theorem glyphs_ne_nil : glyphs line column cs ≠ [] := by
  cases cs <;> simp [glyphs]

@[simp] theorem column_glyphs : (glyphs line column cs).column = column := by
  cases cs <;> rfl

@[simp] theorem line_glyphs : (glyphs line column cs).line = line := by
  cases cs <;> rfl

@[simp] theorem left_glyphs : (glyphs line column cs).left = width cs + 1 := by
  cases cs <;> rfl

@[simp] theorem peek_glyphs : (glyphs line column cs).peek = first cs := by
  cases cs <;> rfl

theorem drop_glyphs_cons {c : Char} (h : isBreak c = false) :
    (glyphs line column (c :: cs)).drop 1 = glyphs line (column + 1) cs := by
  simp [Input.drop, glyphs, h]

theorem drop_glyphs_break {c : Char} (h : isBreak c = true) :
    (glyphs line column (c :: cs)).drop 1 = glyphs (line + 1) 0 cs := by
  simp [Input.drop, glyphs, h]

theorem skip_glyphs {p : Char → Bool} (h : p (first cs) = false) :
    (glyphs line column cs).skip p = glyphs line column cs := by
  cases cs <;> simp_all [glyphs, Input.skip, first]

theorem take_glyphs {w : List Char} (hw : ∀ c ∈ w, isBreak c = false) :
    ((glyphs line column (w ++ cs)).take w.length).map Glyph.char = w := by
  induction w generalizing column with
  | nil => simp
  | cons c w ih =>
    obtain ⟨hc, hw⟩ := List.forall_mem_cons.mp hw
    simp [glyphs, hc, ih _ hw]

theorem drop_glyphs {w : List Char} (hw : ∀ c ∈ w, isBreak c = false) :
    (glyphs line column (w ++ cs)).drop w.length = glyphs line (column + w.length) cs := by
  induction w generalizing column with
  | nil => rfl
  | cons c w ih =>
    obtain ⟨hc, hw⟩ := List.forall_mem_cons.mp hw
    have hread := ih (column + 1) hw
    rw [Nat.add_right_comm, Nat.add_assoc] at hread
    simpa [glyphs, hc, Input.drop] using hread

theorem span_glyphs {p : Char → Bool} {w : List Char} (hw : ∀ c ∈ w, p c = true ∧ isBreak c = false)
    (hp : p (first cs) = false) :
    (glyphs line column (w ++ cs)).span p = (w, glyphs line (column + w.length) cs) := by
  induction w generalizing column with
  | nil => cases cs <;> simp_all [glyphs, Input.span, first]
  | cons c w ih =>
    obtain ⟨⟨hc, hbreak⟩, hw⟩ := List.forall_mem_cons.mp hw
    have hread := ih (column + 1) hw
    simp only [Input.span, Prod.mk.injEq] at hread ⊢
    simp only [List.cons_append, glyphs, hbreak, Bool.false_eq_true, if_false, List.takeWhile_cons,
      List.dropWhile_cons, hc, if_true, List.map_cons, hread.1, hread.2, List.length_cons, true_and]
    rw [Nat.add_assoc, Nat.add_comm 1]

omit cs in
theorem charAt_glyphs (cs : List Char) (n : Nat) :
    (glyphs line column cs).charAt n = (cs[n]?).getD endMark := by
  induction n generalizing line column cs with
  | zero => cases cs <;> rfl
  | succ n ih =>
    cases cs with
    | nil => simp [glyphs, Input.charAt]
    | cons c cs =>
      have hrest : (glyphs line column (c :: cs)).charAt (n + 1) =
          (if isBreak c then glyphs (line + 1) 0 cs else glyphs line (column + 1) cs).charAt n := by
        simp [Input.charAt, glyphs]
      rw [hrest, List.getElem?_cons_succ]
      split <;> exact ih _ _ cs

theorem charAt_glyphs_one (c : Char) : (glyphs line column (c :: cs)).charAt 1 = first cs := by
  rw [charAt_glyphs]
  cases cs <;> rfl

theorem atDocumentMark_glyphs (h : 0 < column) : (glyphs line column cs).atDocumentMark = false := by
  simp [Input.atDocumentMark, Nat.pos_iff_ne_zero.mp h]

end Glyphs

theorem width_append (cs ds : List Char) : width (cs ++ ds) = width cs + width ds := by
  simp [width]

theorem width_pos {cs : List Char} (h : cs ≠ []) : 0 < width cs := by
  obtain ⟨c, cs, rfl⟩ := List.exists_cons_of_ne_nil h
  have hc := c.utf8Size_pos
  simp only [width, List.map_cons, List.sum_cons]
  omega

theorem width_lt_append {cs : List Char} (h : cs ≠ []) (rest : List Char) :
    width rest < width (cs ++ rest) := by
  have hpos := width_pos h
  rw [width_append]
  omega

/-- A run of characters of a class comes off the front. -/
theorem exists_run (p : Char → Bool) (cs : List Char) :
    ∃ w rest, cs = w ++ rest ∧ (∀ c ∈ w, p c = true) ∧ ∀ c ∈ rest.head?, p c = false := by
  induction cs with
  | nil => exact ⟨[], [], rfl, nofun, nofun⟩
  | cons c cs ih =>
    cases hc : p c with
    | true =>
      obtain ⟨w, rest, rfl, hw, hrest⟩ := ih
      exact ⟨c :: w, rest, rfl, List.forall_mem_cons.mpr ⟨hc, hw⟩, hrest⟩
    | false => exact ⟨[], c :: cs, rfl, nofun, by simpa using hc⟩

open Writer (blanks)

theorem exists_blanks (cs : List Char) :
    ∃ n rest, cs = blanks n ++ rest ∧ rest.head? ≠ some ' ' := by
  obtain ⟨w, rest, rfl, hw, hrest⟩ := exists_run (· == ' ') cs
  refine ⟨w.length, rest, ?_, fun h => by simpa using hrest ' ' h⟩
  rw [blanks, ← List.eq_replicate_of_mem fun c hc => by simpa using hw c hc]

theorem isBlank_of_isBreak {c : Char} (h : isBreak c = true) : isBlank c = false := by
  simp only [isBreak, isSeparator, Bool.or_eq_true, decide_eq_true_eq] at h
  rcases h with rfl | rfl | rfl <;> rfl

theorem isEnd_of_isBreak {c : Char} (h : isBreak c = true) : isEnd c = false := by
  simp only [isBreak, isSeparator, Bool.or_eq_true, decide_eq_true_eq] at h
  rcases h with rfl | rfl | rfl <;> rfl

theorem isSpace_of_isBreak {c : Char} (h : isBreak c = true) : isSpace c = true := by
  simp [isSpace, isBreakOrEnd, h]

theorem isSpace_eq_false_iff {c : Char} :
    isSpace c = false ↔ isBlank c = false ∧ isBreak c = false ∧ isEnd c = false := by
  simp [isSpace, isBreakOrEnd]

theorem isSpace_of_isPrintable {c : Char} (h : Writer.isPrintable c = true) (hblank : c ≠ ' ')
    (hbreak : isBreak c = false) : isSpace c = false := by
  have htab : c ≠ '\t' := by rintro rfl; exact absurd h (by decide)
  have hend : c ≠ endMark := by rintro rfl; exact absurd h (by decide)
  exact isSpace_eq_false_iff.mpr ⟨by simp [isBlank, hblank, htab], hbreak, by simp [isEnd, hend]⟩

/-- The other line breaks are not written as they are. -/
theorem isLineBreak_of_isPrintable {c : Char} (h : Writer.isPrintable c = true) :
    Writer.isLineBreak c = isBreak c := by
  have hreturn : c ≠ '\r' := by rintro rfl; exact absurd h (by decide)
  have hnext : c ≠ '\u0085' := by rintro rfl; exact absurd h (by decide)
  simp [Writer.isLineBreak, hreturn, hnext]

/-- Text from its end on: characters one by one, but blanks and line breaks in runs. -/
@[elab_as_elim]
theorem run_induction {motive : List Char → Prop} (nil : motive [])
    (char : ∀ c cs, c ≠ ' ' → isBreak c = false → motive cs → motive (c :: cs))
    (run : ∀ n cs, cs.head? ≠ some ' ' → motive cs → motive (blanks (n + 1) ++ cs))
    (lines : ∀ bs cs, bs ≠ [] → (∀ b ∈ bs, isBreak b = true) → (∀ c ∈ cs.head?, isBreak c = false) →
      motive cs → motive (bs ++ cs))
    (cs : List Char) : motive cs := by
  induction hlength : cs.length using Nat.strongRecOn generalizing cs with
  | ind k ih =>
    subst hlength
    cases cs with
    | nil => exact nil
    | cons c cs =>
      by_cases hblank : c = ' '
      · obtain ⟨n, rest, rfl, hrest⟩ := exists_blanks cs
        have hlt : rest.length < (c :: (blanks n ++ rest)).length := by
          simp only [List.length_cons, List.length_append]
          omega
        rw [hblank]
        exact run n rest hrest (ih rest.length hlt rest rfl)
      · cases hbreak : isBreak c with
        | false => exact char c cs hblank hbreak (ih cs.length (by simp) cs rfl)
        | true =>
          obtain ⟨bs, rest, rfl, hbs, hrest⟩ := exists_run isBreak cs
          have hlt : rest.length < (c :: (bs ++ rest)).length := by
            simp only [List.length_cons, List.length_append]
            omega
          exact lines (c :: bs) rest (by simp) (List.forall_mem_cons.mpr ⟨hbreak, hbs⟩) hrest
            (ih rest.length hlt rest rfl)

/-- Neither a blank nor a line break comes first. -/
def Stops (cs : List Char) : Prop := isBlank (first cs) = false ∧ isBreak (first cs) = false

theorem gap?_of_stops {cs : List Char} (h : Stops cs) (indent : Int) (crossed : Bool)
    (line column : Nat) :
    gap? indent crossed (glyphs line column cs) = some (⟨[], []⟩, glyphs line column cs) := by
  cases cs with
  | nil => rfl
  | cons c cs =>
    obtain ⟨hblank, hbreak⟩ := h
    rw [first_cons] at hblank hbreak
    simp [glyphs, gap?, hblank, hbreak]

theorem gap?_blanks {cs : List Char} (h : Stops cs) (indent : Int) (crossed : Bool) (n line : Nat)
    (column : Nat) :
    gap? indent crossed (glyphs line column (blanks n ++ cs)) =
      some (⟨if crossed then [] else blanks n, []⟩, glyphs line (column + n) cs) := by
  induction n generalizing column with
  | zero => cases crossed <;> exact gap?_of_stops h indent _ line column
  | succ n ih =>
    have hblank : isBlank ' ' = true := rfl
    have hbreak : isBreak ' ' = false := rfl
    rw [blanks, List.replicate_succ, List.cons_append, ← blanks, glyphs, gap?]
    simp only [hblank, hbreak, if_true, Bool.false_eq_true, if_false, ih]
    have hcolumn : column + 1 + n = column + (n + 1) := by omega
    cases crossed <;> simp [hcolumn]

theorem gap?_breaks {cs : List Char} (h : Stops cs) (indent : Int) (crossed : Bool) (n : Nat)
    {bs : List Char} (hbs : ∀ b ∈ bs, isBreak b = true) (hne : bs ≠ []) (line column : Nat) :
    gap? indent crossed (glyphs line column (bs ++ (blanks n ++ cs))) =
      some (⟨[], bs⟩, glyphs (line + bs.length) n cs) := by
  induction bs generalizing crossed line column with
  | nil => exact absurd rfl hne
  | cons b bs ih =>
    obtain ⟨hb, hbs⟩ := List.forall_mem_cons.mp hbs
    have hblank := isBlank_of_isBreak hb
    rw [List.cons_append, glyphs, gap?]
    simp only [hblank, hb, if_true, Bool.false_eq_true, if_false]
    cases bs with
    | nil => simp [gap?_blanks h]
    | cons b' bs =>
      have hlength : line + (b :: b' :: bs).length = line + 1 + (b' :: bs).length := by
        simp only [List.length_cons]
        omega
      rw [ih true hbs (by simp), hlength]
      rfl

end PointerTriage.Yaml
