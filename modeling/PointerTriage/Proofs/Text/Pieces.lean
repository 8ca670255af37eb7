import Mathlib.Data.List.DropRight
import Mathlib.Data.List.Forall2
import PointerTriage.Text.Blank

namespace PointerTriage.Text

theorem pieces_eq_splitOnP (sep : Char → Bool) (cs : List Char) : pieces sep cs = cs.splitOnP sep := by
  induction cs with
  | nil => rfl
  | cons c cs ih =>
    rw [pieces, List.splitOnP_cons_eq_if_modifyHead, ih]
    split
    · rfl
    · cases hcs : cs.splitOnP sep with
      | nil => exact absurd (ih.trans hcs) (pieces_ne_nil sep cs)
      | cons p ps => rfl

theorem pieces_append_cons {sep : Char → Bool} {c : Char} (hc : sep c = true) (cs ds : List Char) :
    pieces sep (cs ++ c :: ds) = pieces sep cs ++ pieces sep ds := by
  simp only [pieces_eq_splitOnP, List.splitOnP_append_cons cs ds hc]

theorem pieces_of_none {sep : Char → Bool} {cs : List Char} (h : ∀ c ∈ cs, sep c = false) :
    pieces sep cs = [cs] := by
  rw [pieces_eq_splitOnP, List.splitOnP_eq_singleton h]

def IsGap (cs : List Char) : Prop := ∀ c ∈ cs, isBlank c = true

structure IsWord (w : List Char) : Prop where
  nonempty : w ≠ []
  solid : ∀ c ∈ w, isBlank c = false

/-- Words with gaps between them, and none around them. -/
inductive Spaced : List Char → List (List Char) → Prop where
  | last {w : List Char} (hw : IsWord w) : Spaced w [w]
  | more {w gap cs : List Char} {ws : List (List Char)} (hw : IsWord w) (hgap : IsGap gap)
      (hne : gap ≠ []) (h : Spaced cs ws) : Spaced (w ++ gap ++ cs) (w :: ws)

theorem words_append_cons {c : Char} (hc : isBlank c = true) (cs ds : List Char) :
    words (cs ++ c :: ds) = words cs ++ words ds := by
  simp only [words, pieces_append_cons hc, List.filter_append]

theorem IsWord.words {w : List Char} (h : IsWord w) : words w = [w] := by
  rw [Text.words, pieces_of_none h.solid]
  simp [h.nonempty]

theorem words_gap_append {gap : List Char} (h : IsGap gap) (cs : List Char) :
    words (gap ++ cs) = words cs := by
  induction gap with
  | nil => rfl
  | cons c gap ih =>
    obtain ⟨hc, hgap⟩ := List.forall_mem_cons.mp h
    rw [← ih hgap]
    exact words_append_cons hc [] (gap ++ cs)

/-- A gap separates words. -/
theorem words_append_gap {gap : List Char} (h : IsGap gap) (hne : gap ≠ []) (cs ds : List Char) :
    words (cs ++ gap ++ ds) = words cs ++ words ds := by
  obtain ⟨c, gap, rfl⟩ := List.exists_cons_of_ne_nil hne
  obtain ⟨hc, hgap⟩ := List.forall_mem_cons.mp h
  rw [List.append_assoc, List.cons_append, words_append_cons hc, words_gap_append hgap]

theorem Spaced.words {cs : List Char} {ws : List (List Char)} (h : Spaced cs ws) :
    words cs = ws := by
  induction h with
  | last hw => exact hw.words
  | more hw hgap hne _ ih => rw [words_append_gap hgap hne, hw.words, ih, List.singleton_append]

/-- Neither end is blank. -/
structure IsTrimmed (cs : List Char) : Prop where
  left : ∀ c ∈ cs.head?, isBlank c = false
  right : ∀ c ∈ cs.getLast?, isBlank c = false

theorem head?_dropWhile {p : Char → Bool} {cs : List Char} {c : Char}
    (h : c ∈ (cs.dropWhile p).head?) : p c = false := by
  have hnot := List.head?_dropWhile_not p cs
  rw [Option.mem_def.mp h] at hnot
  simpa using hnot

/-- A text is trimmed by taking gaps from its ends. -/
theorem exists_gaps_stripBlank (cs : List Char) :
    IsTrimmed (stripBlank cs) ∧
      ∃ before after, IsGap before ∧ IsGap after ∧ cs = before ++ stripBlank cs ++ after := by
  have hstrip : stripBlank cs = (cs.dropWhile isBlank).rdropWhile isBlank := rfl
  have hafter := List.rdropWhile_append_rtakeWhile (p := isBlank) (l := cs.dropWhile isBlank)
  refine ⟨⟨?_, ?_⟩, cs.takeWhile isBlank, (cs.dropWhile isBlank).rtakeWhile isBlank, ?_, ?_, ?_⟩
  · intro c hc
    rw [hstrip] at hc
    -- What is left starts where the text starts behind its first gap.
    have hhead : (cs.dropWhile isBlank).head? = some c := by
      rw [← hafter, List.head?_append, Option.mem_def.mp hc, Option.some_or]
    exact head?_dropWhile hhead
  · intro c hc
    rw [hstrip] at hc
    obtain ⟨hne, rfl⟩ := List.mem_getLast?_eq_getLast hc
    simpa using List.rdropWhile_last_not isBlank _ hne
  · exact fun c hc => List.mem_takeWhile_imp hc
  · exact fun c hc => List.mem_rtakeWhile_imp hc
  · rw [hstrip, List.append_assoc, hafter, List.takeWhile_append_dropWhile]

theorem stripBlank_eq_nil_iff_isGap {cs : List Char} : stripBlank cs = [] ↔ IsGap cs := by
  obtain ⟨htrimmed, before, after, hbefore, hafter, hcs⟩ := exists_gaps_stripBlank cs
  constructor
  · intro hnil
    rw [hnil, List.append_nil] at hcs
    rw [hcs]
    exact List.forall_mem_append.mpr ⟨hbefore, hafter⟩
  · intro hgap
    cases hstrip : stripBlank cs with
    | nil => rfl
    | cons c rest =>
      rw [hstrip] at htrimmed hcs
      have hblank := hgap c (by simp [hcs])
      rw [htrimmed.left c rfl] at hblank
      cases hblank

theorem words_stripBlank (cs : List Char) : words (stripBlank cs) = words cs := by
  obtain ⟨-, before, after, hbefore, hafter, hcs⟩ := exists_gaps_stripBlank cs
  have hright : words (stripBlank cs ++ after) = words (stripBlank cs) := by
    by_cases hne : after = []
    · rw [hne, List.append_nil]
    · have hend := words_append_gap hafter hne (stripBlank cs) []
      have hnone : words [] = [] := rfl
      rwa [hnone, List.append_nil, List.append_nil] at hend
  rw [← hright, ← words_gap_append hbefore, ← List.append_assoc, ← hcs]

/-- A trimmed text is a word, or a word and a gap before a trimmed text. -/
theorem IsTrimmed.word_or_more {cs : List Char} (h : IsTrimmed cs) (hne : cs ≠ []) :
    IsWord cs ∨ ∃ w gap rest, cs = w ++ gap ++ rest ∧ IsWord w ∧ IsGap gap ∧ gap ≠ [] ∧
      IsTrimmed rest ∧ rest ≠ [] := by
  have hcs := List.takeWhile_append_dropWhile (p := (!isBlank ·)) (l := cs)
  have hw : IsWord (cs.takeWhile (!isBlank ·)) := by
    constructor
    · obtain ⟨c, cs, rfl⟩ := List.exists_cons_of_ne_nil hne
      simp [h.left c rfl]
    · exact fun c hc => by simpa using List.mem_takeWhile_imp hc
  cases hrest : cs.dropWhile (!isBlank ·) with
  | nil =>
    rw [hrest, List.append_nil] at hcs
    exact .inl (hcs ▸ hw)
  | cons c rest =>
    have hc : isBlank c = true := by
      have hstart : c ∈ (cs.dropWhile (!isBlank ·)).head? := by simp [hrest]
      simpa using head?_dropWhile hstart
    have hgap : IsGap ((c :: rest).takeWhile isBlank) := fun b hb => List.mem_takeWhile_imp hb
    have hsplit := List.takeWhile_append_dropWhile (p := isBlank) (l := c :: rest)
    have hlast : cs.getLast? = (c :: rest).getLast? := by
      rw [← hcs, hrest, List.getLast?_append_of_ne_nil _ (List.cons_ne_nil c rest)]
    -- The text does not end in a gap, so the gap is not all that is left.
    have hmore : (c :: rest).dropWhile isBlank ≠ [] := by
      intro hnil
      rw [hnil, List.append_nil] at hsplit
      obtain ⟨b, hb⟩ : ∃ b, (c :: rest).getLast? = some b := by simp [List.getLast?_cons]
      have hblank := hgap b (hsplit.symm ▸ List.mem_of_getLast? hb)
      rw [h.right b (hlast.trans hb)] at hblank
      cases hblank
    refine .inr ⟨_, _, (c :: rest).dropWhile isBlank, ?_, hw, hgap, by simp [hc], ?_, hmore⟩
    · rw [List.append_assoc, hsplit, ← hrest, hcs]
    · refine ⟨fun b hb => head?_dropWhile hb, fun b hb => h.right b ?_⟩
      rw [hlast, ← hsplit, List.getLast?_append_of_ne_nil _ hmore]
      exact hb

/-- A trimmed text spells its words with gaps between them. -/
theorem IsTrimmed.spaced_words {cs : List Char} (h : IsTrimmed cs) (hne : cs ≠ []) :
    Spaced cs (words cs) := by
  induction hlength : cs.length using Nat.strongRecOn generalizing cs with
  | ind n ih =>
    rcases h.word_or_more hne with hw | ⟨w, gap, rest, rfl, hw, hgap, hgapne, hrest, hrestne⟩
    · rw [hw.words]
      exact .last hw
    · have hshorter : rest.length < n := by
        have hpos := List.length_pos_of_ne_nil hgapne
        simp only [← hlength, List.length_append]
        omega
      rw [words_append_gap hgap hgapne, hw.words, List.singleton_append]
      exact .more hw hgap hgapne (ih _ hshorter hrest hrestne rfl)

theorem Spaced.words_ne_nil {cs : List Char} {ws : List (List Char)} (h : Spaced cs ws) : ws ≠ [] := by
  cases h <;> simp

/-- Words with gaps between them are the words of the text, wherever blanks surround it. -/
theorem spaced_stripBlank_iff {cs : List Char} {ws : List (List Char)} (hws : ws ≠ []) :
    Spaced (stripBlank cs) ws ↔ words cs = ws := by
  rw [← words_stripBlank]
  refine ⟨Spaced.words, ?_⟩
  rintro rfl
  refine (exists_gaps_stripBlank cs).1.spaced_words ?_
  intro hnil
  rw [hnil] at hws
  exact hws rfl

theorem stripBlank_eq_nil_iff {cs : List Char} : stripBlank cs = [] ↔ words cs = [] := by
  rw [← words_stripBlank]
  constructor
  · intro hnil
    rw [hnil]
    rfl
  · intro hwords
    by_contra hne
    exact ((exists_gaps_stripBlank cs).1.spaced_words hne).words_ne_nil hwords

/-- A line without the carriage return at its end. -/
def withoutReturn (l : List Char) : List Char := if l.getLast? = some '\r' then l.dropLast else l

/-- A text and its lines. A line ends at a line feed, and a carriage return before that belongs to the
end; the text after the last line feed is a line unless it is empty. -/
inductive HasLines : List Char → List (List Char) → Prop where
  | none : HasLines [] []
  | last {l : List Char} (hl : '\n' ∉ l) (hne : l ≠ []) : HasLines l [l]
  | line {l rest : List Char} {ls : List (List Char)} (hl : '\n' ∉ l) (h : HasLines rest ls) :
      HasLines (l ++ '\n' :: rest) (withoutReturn l :: ls)

theorem split_at_feed (cs : List Char) :
    '\n' ∉ cs ∨ ∃ l rest, cs = l ++ '\n' :: rest ∧ '\n' ∉ l := by
  by_cases hfeed : '\n' ∈ cs
  · exact .inr (List.eq_append_cons_of_mem hfeed)
  · exact .inl hfeed

theorem exists_hasLines (cs : List Char) : ∃ ls, HasLines cs ls := by
  induction hlength : cs.length using Nat.strongRecOn generalizing cs with
  | ind n ih =>
    rcases split_at_feed cs with hfeed | ⟨l, rest, rfl, hl⟩
    · by_cases hne : cs = []
      · exact ⟨[], hne ▸ .none⟩
      · exact ⟨[cs], .last hfeed hne⟩
    · have hshorter : rest.length < n := by
        simp only [← hlength, List.length_append, List.length_cons]
        omega
      obtain ⟨ls, hls⟩ := ih _ hshorter rest rfl
      exact ⟨_, .line hl hls⟩

theorem pieces_of_no_feed {l : List Char} (hl : '\n' ∉ l) : pieces (· == '\n') l = [l] := by
  refine pieces_of_none fun c hc => beq_false_of_ne ?_
  rintro rfl
  exact hl hc

theorem feed_inj {l l' rest rest' : List Char} (hl : '\n' ∉ l) (hl' : '\n' ∉ l')
    (h : l ++ '\n' :: rest = l' ++ '\n' :: rest') : l = l' ∧ rest = rest' := by
  have hpieces := congrArg (pieces (· == '\n')) h
  rw [pieces_append_cons rfl, pieces_append_cons rfl, pieces_of_no_feed hl, pieces_of_no_feed hl']
    at hpieces
  obtain rfl := (List.cons.inj hpieces).1
  exact ⟨rfl, (List.cons.inj (List.append_cancel_left h)).2⟩

theorem HasLines.unique {cs : List Char} {ls ms : List (List Char)} (h : HasLines cs ls)
    (h' : HasLines cs ms) : ls = ms := by
  induction h generalizing ms with
  | none =>
    generalize hcs : [] = cs at h'
    cases h' with
    | none => rfl
    | last hl hne => exact absurd hcs.symm hne
    | line hl h' => simp at hcs
  | @last l hl hne =>
    generalize hcs : l = cs at h'
    cases h' with
    | none => exact absurd hcs hne
    | last => rfl
    | line hl' h' => exact absurd (hcs ▸ by simp) hl
  | @line l rest ls hl h ih =>
    generalize hcs : l ++ '\n' :: rest = cs at h'
    cases h' with
    | none => simp at hcs
    | last hl' hne => exact absurd (hcs ▸ by simp) hl'
    | line hl' h' =>
      obtain ⟨rfl, rfl⟩ := feed_inj hl hl' hcs
      rw [ih h']

/-- A line feed ends a line. -/
theorem lines_append_feed (cs ds : List Char) :
    lines (cs ++ '\n' :: ds) = pieces (· == '\n') cs ++ lines ds := by
  have hne := pieces_ne_nil (· == '\n') ds
  have hpieces : pieces (· == '\n') (cs ++ '\n' :: ds) =
      pieces (· == '\n') cs ++ pieces (· == '\n') ds := pieces_append_cons rfl cs ds
  simp only [lines, hpieces]
  rw [List.getLast?_append_of_ne_nil _ hne, List.dropLast_append_of_ne_nil hne]
  split <;> rfl

/-- The lines of a text that ends a line and of what comes after it. -/
theorem lines_append {cs : List Char} (h : ∀ c ∈ cs.getLast?, c = '\n') (ds : List Char) :
    lines (cs ++ ds) = lines cs ++ lines ds := by
  rcases List.eq_nil_or_concat' cs with rfl | ⟨cs, c, rfl⟩
  · rfl
  · obtain rfl := h c (by simp)
    have hend := lines_append_feed cs []
    rw [List.append_assoc, List.singleton_append, lines_append_feed, hend]
    have hnone : lines [] = [] := rfl
    rw [hnone, List.append_nil]

/-- The lines are read up to carriage returns at their ends. -/
theorem HasLines.forall₂_lines {cs : List Char} {ls : List (List Char)} (h : HasLines cs ls) :
    List.Forall₂ (fun l m => l = m ∨ l = withoutReturn m) ls (lines cs) := by
  induction h with
  | none => exact .nil
  | @last l hl hne =>
    have hlines : lines l = [l] := by simp [lines, pieces_of_no_feed hl, hne]
    rw [hlines]
    exact .cons (.inl rfl) .nil
  | line hl _ ih =>
    rw [lines_append_feed, pieces_of_no_feed hl, List.singleton_append]
    exact .cons (.inr rfl) ih

end PointerTriage.Text
