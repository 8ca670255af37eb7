import PointerTriage.Proofs.Decimal.Digits
import PointerTriage.Proofs.Ir.Sound
import PointerTriage.Proofs.Text.Pieces
import PointerTriage.Settings.Yaml

namespace PointerTriage.Settings.Functions
open Text Decimal

/-- An optional plus sign, and the digits of the number behind any zeros. -/
def IsNumeral (k : List Char) (n : Nat) : Prop :=
  ∃ sign zeros, (sign = [] ∨ sign = ['+']) ∧
    k = sign ++ (List.replicate zeros '0' ++ Nat.toDigits 10 n)

/-- What a line means, trimmed and without its comment. -/
inductive Means : List Char → Functions → Prop where
  | nothing : Means [] empty
  | input {cs name : List Char} (h : Spaced cs ["IF".toList, name]) :
    Means cs ⟨[⟨String.ofList name, 0, false⟩], []⟩
  | inputFrom {cs name k : List Char} {n : Nat} (h : Spaced cs ["IF".toList, name, k])
    (hk : IsNumeral k n) (hn : n < sizeLimit) : Means cs ⟨[⟨String.ofList name, n, false⟩], []⟩
  | vulnerable {cs name : List Char} (h : Spaced cs ["VULN".toList, name]) :
    Means cs ⟨[], [String.ofList name]⟩

/-- What stands on a line before its comment. -/
def content (l : List Char) : List Char := stripBlank (l.takeWhile (· != '#'))

def IsWellFormed (l : List Char) : Prop := ∃ fs, Means (content l) fs

/-- The entries of some parts, one part after the other. -/
def joined (parts : List Functions) : Functions :=
  ⟨parts.flatMap Functions.inputs, parts.flatMap Functions.vulnerable⟩

theorem argument?_eq_some_iff {k : List Char} {n : Nat} :
    argument? k = some n ↔ IsNumeral k n ∧ n < sizeLimit := by
  have hdigit : ∀ zeros, ∀ c ∈ List.replicate zeros '0' ++ Nat.toDigits 10 n, c.isDigit = true := by
    intro zeros c hc
    rcases List.mem_append.mp hc with hc | hc
    · rw [List.eq_of_mem_replicate hc]
      rfl
    · exact isDigit_of_mem_toDigits hc
  unfold argument?
  rw [Option.filter_eq_some_iff]
  refine and_congr ?_ decide_eq_true_iff
  rw [natural?_eq_some_iff]
  split
  · rename_i ds
    constructor
    · rintro ⟨zeros, rfl⟩
      exact ⟨['+'], zeros, .inr rfl, rfl⟩
    · rintro ⟨sign, zeros, rfl | rfl, hk⟩
      · rw [List.nil_append] at hk
        have hplus : '+'.isDigit = true := hdigit zeros '+' (hk ▸ List.mem_cons_self)
        exact absurd hplus (by decide)
      · exact ⟨zeros, (List.cons.inj hk).2⟩
  · rename_i hplus
    constructor
    · rintro ⟨zeros, rfl⟩
      exact ⟨[], zeros, .inl rfl, rfl⟩
    · rintro ⟨sign, zeros, rfl | rfl, hk⟩
      · exact ⟨zeros, hk⟩
      · exact absurd hk (hplus _)

theorem finish_ok_iff {fs gs : Functions} {rest : List (List Char)} :
    finish fs rest = .ok gs ↔ rest = [] ∧ gs = fs := by
  cases rest <;> simp [finish, eq_comm]

/-- The entry of a line tells how the line goes on. -/
theorem means_of_entry {cs tag name : List Char} {rest : List (List Char)} {fs : Functions}
    (hcs : Spaced cs (tag :: name :: rest))
    (h : entry (String.ofList tag) (String.ofList name) rest = .ok fs) : Means cs fs := by
  unfold entry at h
  split at h
  · rename_i htag
    obtain rfl := String.ofList_eq.mp htag
    cases rest with
    | nil =>
      cases h
      exact .input hcs
    | cons k rest =>
      simp only at h
      split at h
      · cases h
      · rename_i n hn
        obtain ⟨rfl, rfl⟩ := finish_ok_iff.mp h
        obtain ⟨hk, hlimit⟩ := argument?_eq_some_iff.mp hn
        exact .inputFrom hcs hk hlimit
  · rename_i htag
    obtain rfl := String.ofList_eq.mp htag
    obtain ⟨rfl, rfl⟩ := finish_ok_iff.mp h
    exact .vulnerable hcs
  · cases h

/-- A line is read exactly if it follows the grammar. -/
theorem readLine_ok_iff {l : List Char} {fs : Functions} :
    readLine l = .ok fs ↔ Means (content l) fs := by
  constructor
  · intro h
    unfold readLine at h
    split at h
    · rename_i hwords
      cases h
      have hnone : content l = [] := stripBlank_eq_nil_iff.mpr hwords
      exact hnone ▸ .nothing
    · cases h
    · rename_i hwords
      exact means_of_entry ((spaced_stripBlank_iff (List.cons_ne_nil _ _)).mpr hwords) h
  · intro h
    have hwords : words (l.takeWhile (· != '#')) = words (content l) := (words_stripBlank _).symm
    rw [readLine, hwords]
    generalize content l = cs at h
    cases h with
    | nothing => rfl
    | input h => rw [h.words]; rfl
    | inputFrom h hk hn =>
      have hargument := argument?_eq_some_iff.mpr ⟨hk, hn⟩
      rw [h.words]
      simp [entry, hargument, finish]
    | vulnerable h => rw [h.words]; rfl

theorem isWellFormed_iff {l : List Char} : IsWellFormed l ↔ ∃ fs, readLine l = .ok fs := by
  simp only [IsWellFormed, readLine_ok_iff]

theorem not_isWellFormed_of_error {l : List Char} {fault : LineFault} (h : readLine l = .error fault) :
    ¬IsWellFormed l := by
  rw [isWellFormed_iff, h]
  rintro ⟨fs, ⟨⟩⟩

/-- A carriage return at the end of a line is blank or in the comment. -/
theorem readLine_withoutReturn (l : List Char) : readLine (withoutReturn l) = readLine l := by
  unfold withoutReturn
  split
  · rename_i hlast
    obtain ⟨l, rfl⟩ := List.getLast?_eq_some_iff.mp hlast
    rw [List.dropLast_concat]
    have hwords : words (l.takeWhile (· != '#')) = words ((l ++ ['\r']).takeWhile (· != '#')) := by
      rw [List.takeWhile_append]
      split
      · rename_i hall
        have hl : l.takeWhile (· != '#') = l :=
          List.IsPrefix.eq_of_length (List.takeWhile_prefix _) hall
        have hreturn : ['\r'].takeWhile (· != '#') = ['\r'] := rfl
        rw [hl, hreturn, words_append_cons (show isBlank '\r' = true by decide)]
        exact (List.append_nil _).symm
      · rfl
    rw [readLine, readLine, hwords]
  · rfl

theorem append_joined (fs : Functions) (parts : List Functions) :
    fs.append (joined parts) = joined (fs :: parts) := rfl

theorem append_assoc (fs gs hs : Functions) :
    (fs.append gs).append hs = fs.append (gs.append hs) := by
  simp [append]

theorem readFrom_cons_of_ok {line : Nat} {l : List Char} {ls : List (List Char)} {fs : Functions}
    (h : readLine l = .ok fs) :
    readFrom line (l :: ls) = (readFrom (line + 1) ls).map fs.append := by
  rw [readFrom, h]
  cases readFrom (line + 1) ls <;> rfl

theorem readFrom_cons_of_error {line : Nat} {l : List Char} {ls : List (List Char)}
    {fault : LineFault} (h : readLine l = .error fault) :
    readFrom line (l :: ls) = .error (.badLine line fault) := by
  rw [readFrom, h]

theorem readFrom_ok_iff {line : Nat} {ls : List (List Char)} {fs : Functions} :
    readFrom line ls = .ok fs ↔
      ∃ parts, List.Forall₂ (fun l p => Means (content l) p) ls parts ∧ fs = joined parts := by
  induction ls generalizing line fs with
  | nil =>
    constructor
    · intro h
      cases h
      exact ⟨[], .nil, rfl⟩
    · intro hex
      obtain ⟨parts, hparts, rfl⟩ := hex
      cases hparts
      rfl
  | cons l ls ih =>
    cases hl : readLine l with
    | error fault =>
      rw [readFrom_cons_of_error hl]
      refine iff_of_false nofun ?_
      intro hex
      obtain ⟨parts, hparts, -⟩ := hex
      cases hparts with
      | cons hmeans _ => exact not_isWellFormed_of_error hl ⟨_, hmeans⟩
    | ok p =>
      rw [readFrom_cons_of_ok hl]
      constructor
      · intro h
        cases hrest : readFrom (line + 1) ls with
        | error e => simp [hrest, Except.map] at h
        | ok gs =>
          obtain ⟨parts, hparts, rfl⟩ := ih.mp hrest
          rw [hrest] at h
          cases h
          exact ⟨p :: parts, .cons (readLine_ok_iff.mp hl) hparts, append_joined p parts⟩
      · intro hex
        obtain ⟨parts, hparts, rfl⟩ := hex
        cases hparts with
        | @cons _ p' _ parts hmeans hparts =>
          obtain rfl : p' = p := Except.ok.inj ((readLine_ok_iff.mpr hmeans).symm.trans hl)
          rw [ih.mpr ⟨parts, hparts, rfl⟩]
          rfl

theorem readFrom_error_iff {line : Nat} {ls : List (List Char)} {e : Error} :
    readFrom line ls = .error e ↔
      ∃ before l after fault, ls = before ++ l :: after ∧ (∀ m ∈ before, IsWellFormed m) ∧
        readLine l = .error fault ∧ e = .badLine (line + before.length) fault := by
  induction ls generalizing line e with
  | nil =>
    refine iff_of_false nofun ?_
    intro hex
    obtain ⟨before, l, after, fault, hls, -⟩ := hex
    simp at hls
  | cons m ms ih =>
    cases hm : readLine m with
    | error fault =>
      rw [readFrom_cons_of_error hm]
      constructor
      · intro h
        cases h
        exact ⟨[], m, ms, fault, rfl, by simp, hm, rfl⟩
      · intro hex
        obtain ⟨before, l, after, fault', hls, hbefore, hl, rfl⟩ := hex
        cases before with
        | nil =>
          obtain ⟨rfl, -⟩ := List.cons.inj hls
          obtain rfl := Except.error.inj (hm.symm.trans hl)
          rfl
        | cons b before =>
          obtain ⟨rfl, -⟩ := List.cons.inj hls
          exact absurd (hbefore m List.mem_cons_self) (not_isWellFormed_of_error hm)
    | ok p =>
      have hwell : IsWellFormed m := ⟨p, readLine_ok_iff.mp hm⟩
      have hrest : readFrom line (m :: ms) = .error e ↔ readFrom (line + 1) ms = .error e := by
        rw [readFrom_cons_of_ok hm]
        cases readFrom (line + 1) ms <;> simp [Except.map]
      rw [hrest, ih]
      constructor
      · intro hex
        obtain ⟨before, l, after, fault, rfl, hbefore, hl, rfl⟩ := hex
        refine ⟨m :: before, l, after, fault, rfl, List.forall_mem_cons.mpr ⟨hwell, hbefore⟩, hl, ?_⟩
        rw [List.length_cons, Nat.add_right_comm, Nat.add_assoc]
      · intro hex
        obtain ⟨before, l, after, fault, hls, hbefore, hl, rfl⟩ := hex
        cases before with
        | nil =>
          obtain ⟨rfl, -⟩ := List.cons.inj hls
          exact absurd hwell (not_isWellFormed_of_error hl)
        | cons b before =>
          obtain ⟨rfl, rfl⟩ := List.cons.inj hls
          obtain ⟨-, hbefore⟩ := List.forall_mem_cons.mp hbefore
          refine ⟨before, l, after, fault, rfl, hbefore, hl, ?_⟩
          rw [List.length_cons, Nat.add_right_comm, Nat.add_assoc]

/-- An error for a text that comes after so many lines. -/
def shifted (count : Nat) : Error → Error
  | .badLine line fault => .badLine (count + line) fault
  | e => e

theorem readFrom_shifted (count line : Nat) (ls : List (List Char)) :
    readFrom (count + line) ls = (readFrom line ls).mapError (shifted count) := by
  induction ls generalizing line with
  | nil => rfl
  | cons l ls ih =>
    cases hl : readLine l with
    | error fault =>
      rw [readFrom_cons_of_error hl, readFrom_cons_of_error hl]
      rfl
    | ok fs =>
      rw [readFrom_cons_of_ok hl, readFrom_cons_of_ok hl, Nat.add_assoc, ih]
      cases readFrom (line + 1) ls <;> rfl

theorem readFrom_append (line : Nat) (ls ms : List (List Char)) :
    readFrom line (ls ++ ms) = do
      let fs ← readFrom line ls
      let gs ← readFrom (line + ls.length) ms
      return fs.append gs := by
  induction ls generalizing line with
  | nil => cases hms : readFrom line ms <;> simp [readFrom, hms, empty, append] <;> rfl
  | cons l ls ih =>
    rw [List.cons_append]
    cases hl : readLine l with
    | error fault =>
      rw [readFrom_cons_of_error hl, readFrom_cons_of_error hl]
      rfl
    | ok fs =>
      rw [readFrom_cons_of_ok hl, readFrom_cons_of_ok hl, ih, List.length_cons,
        Nat.add_comm ls.length, ← Nat.add_assoc]
      cases readFrom (line + 1) ls with
      | error e => rfl
      | ok gs =>
        cases readFrom (line + 1 + ls.length) ms with
        | error e => rfl
        | ok hs => exact congrArg Except.ok (append_assoc fs gs hs).symm

/-- Carriage returns at the ends of lines do not matter. -/
theorem readFrom_congr {ls ms : List (List Char)}
    (h : List.Forall₂ (fun l m => l = m ∨ l = withoutReturn m) ls ms) (line : Nat) :
    readFrom line ms = readFrom line ls := by
  induction h generalizing line with
  | nil => rfl
  | @cons l m ls ms hline _ ih =>
    have hread : readLine l = readLine m := by
      rcases hline with rfl | rfl
      · rfl
      · exact readLine_withoutReturn m
    rw [readFrom, readFrom, hread, ih]

theorem parse_eq_readFrom {s : String} {ls : List (List Char)} (h : HasLines s.toList ls) :
    parse s = readFrom 1 ls :=
  readFrom_congr h.forall₂_lines 1

theorem parse_append {s : String} (h : ∀ c ∈ s.toList.getLast?, c = '\n')
    {ls : List (List Char)} (hls : HasLines s.toList ls) (t : String) :
    parse (s ++ t) = do
      let fs ← parse s
      let gs ← (parse t).mapError (shifted ls.length)
      return fs.append gs := by
  have hcount : ls.length = (lines s.toList).length := hls.forall₂_lines.length_eq
  rw [parse, String.toList_append, lines_append h, readFrom_append, Nat.add_comm 1, readFrom_shifted,
    hcount]
  rfl

/-- A text has one list of lines. It is read exactly if each of them follows the grammar, and then
gives their entries in order; otherwise the error names the first that does not. What follows a text
that ends a line is read on its own, its lines being counted on. -/
theorem parse_follows_grammar (s : String) :
    ∃ ls, (∀ ms, HasLines s.toList ms ↔ ms = ls) ∧
      ((∃ fs, parse s = .ok fs) ↔ ∀ l ∈ ls, IsWellFormed l) ∧
      (∀ fs, parse s = .ok fs ↔
        ∃ parts, List.Forall₂ (fun l p => Means (content l) p) ls parts ∧ fs = joined parts) ∧
      (∀ e, parse s = .error e ↔
        ∃ before l after fault, ls = before ++ l :: after ∧ (∀ m ∈ before, IsWellFormed m) ∧
          ¬IsWellFormed l ∧ readLine l = .error fault ∧ e = .badLine (before.length + 1) fault) ∧
      ((∀ c ∈ s.toList.getLast?, c = '\n') → ∀ t, parse (s ++ t) = do
        let fs ← parse s
        let gs ← (parse t).mapError (shifted ls.length)
        return fs.append gs) := by
  obtain ⟨ls, hls⟩ := exists_hasLines s.toList
  have hparse : parse s = readFrom 1 ls := parse_eq_readFrom hls
  have hok : ∀ fs, parse s = .ok fs ↔
      ∃ parts, List.Forall₂ (fun l p => Means (content l) p) ls parts ∧ fs = joined parts := by
    intro fs
    rw [hparse, readFrom_ok_iff]
  refine ⟨ls, ?_, ?_, hok, ?_, fun h t => parse_append h hls t⟩
  · intro ms
    constructor
    · intro hms
      exact hms.unique hls
    · intro he
      exact he ▸ hls
  · constructor
    · intro hex
      obtain ⟨fs, hfs⟩ := hex
      obtain ⟨parts, hparts, -⟩ := (hok fs).mp hfs
      exact ((List.forall₂_and_left ls parts).mp (hparts.imp fun l p hp => ⟨⟨p, hp⟩, hp⟩)).1
    · intro hall
      cases hread : parse s with
      | ok fs => exact ⟨fs, rfl⟩
      | error e =>
        rw [hparse] at hread
        obtain ⟨before, l, after, fault, hcut, -, hl, -⟩ := readFrom_error_iff.mp hread
        exact absurd (hall l (by simp [hcut])) (not_isWellFormed_of_error hl)
  · intro e
    rw [hparse, readFrom_error_iff]
    constructor
    · intro hex
      obtain ⟨before, l, after, fault, hcut, hbefore, hl, rfl⟩ := hex
      exact ⟨before, l, after, fault, hcut, hbefore, not_isWellFormed_of_error hl, hl,
        by rw [Nat.add_comm]⟩
    · intro hex
      obtain ⟨before, l, after, fault, hcut, hbefore, -, hl, rfl⟩ := hex
      exact ⟨before, l, after, fault, hcut, hbefore, hl, by rw [Nat.add_comm]⟩

/-- Two lines, a comment on the first and nothing on the second. -/
def oneInput : String := "IF recv +01 # size\r\n\r\n"

/-- The third line of a text is the fifth if two lines come before. -/
theorem parse_after_oneInput :
    HasLines oneInput.toList ["IF recv +01 # size".toList, []] ∧
      (∀ c ∈ oneInput.toList.getLast?, c = '\n') ∧ parse oneInput = .ok ⟨[⟨"recv", 1, false⟩], []⟩ ∧
      parse (oneInput ++ "\tVULN gets\n#\nVULN #strcpy\n") = .error (.badLine 5 .missingName) := by
  have hlines : HasLines oneInput.toList ["IF recv +01 # size".toList, []] :=
    .line (l := "IF recv +01 # size\r".toList) (by decide) (.line (l := ['\r']) (by decide) .none)
  have hends : ∀ c ∈ oneInput.toList.getLast?, c = '\n' := by
    have hlast : oneInput.toList.getLast? = some '\n' := by decide
    rw [hlast]
    rintro c ⟨⟩
    rfl
  have hfirst : parse oneInput = .ok ⟨[⟨"recv", 1, false⟩], []⟩ := by decide
  have hsecond : parse "\tVULN gets\n#\nVULN #strcpy\n" = .error (.badLine 3 .missingName) := by decide
  obtain ⟨ls, hls, -, -, -, happend⟩ := parse_follows_grammar oneInput
  obtain rfl := (hls _).mp hlines
  refine ⟨hlines, hends, hfirst, ?_⟩
  rw [happend hends, hfirst, hsecond]
  rfl

end PointerTriage.Settings.Functions
