import PointerTriage.Proofs.Yaml.Scanning

namespace PointerTriage.Yaml
open Glyph
open Writer (blanks)

namespace Node

mutual

/-- The tokens of a node. A list that is a value is not indented, and has no tokens around it. -/
def tokens (asValue : Bool) : Node → List Token
  | .scalar style _ s => [.scalar style s]
  | .alias _ => []
  | .list [] => [.flowSequenceStart, .flowSequenceEnd]
  | .list (n :: ns) =>
    if asValue then itemTokens (n :: ns) else .blockSequenceStart :: itemTokens (n :: ns) ++ [.blockEnd]
  | .mapping [] => [.flowMappingStart, .flowMappingEnd]
  | .mapping (e :: es) => .blockMappingStart :: entryTokens (e :: es) ++ [.blockEnd]

def itemTokens : List Node → List Token
  | [] => []
  | n :: ns => .blockEntry :: n.tokens false ++ itemTokens ns

def entryTokens : List (Node × Node) → List Token
  | [] => []
  | (k, n) :: es => .key :: k.tokens false ++ .value :: n.tokens true ++ entryTokens es

end

/-- A key that is written as it is. -/
def IsKey (k : Node) : Prop := ∃ name, k = .plain (String.ofList name) ∧ Scanner.IsKey name

/-- Nodes that are written as they are: without tags and aliases, with scalars in suitable styles and
plain keys. -/
inductive Legible : Node → Prop where
  | scalar {style : Style} {s : String} (h : Scanner.Suits style s.toList) :
    Legible (.scalar style none s)
  | list {ns : List Node} (h : ∀ n ∈ ns, Legible n) : Legible (.list ns)
  | mapping {es : List (Node × Node)}
    (hkeys : ∀ e ∈ es, e.1.IsKey) (h : ∀ e ∈ es, Legible e.2) : Legible (.mapping es)

end Node

namespace Scanner
open Node

/-- The first character of what is written for a node starts a token. -/
theorem starts_scalar {style : Style} {s : String} (h : Suits style s.toList) (indent : Nat)
    (rest : List Char) : Starts (Writer.scalar indent style s ++ rest) := by
  cases style with
  | plain =>
    obtain ⟨c, cs, hcs⟩ := List.exists_cons_of_ne_nil h.2
    rw [hcs] at h
    simpa [Writer.scalar, hcs] using (plainStart_of_allowsPlain h.1 ('\n' :: rest)).starts
  | single => exact starts_cons (by decide) _
  | double => exact starts_cons (by decide) _
  | literal => exact starts_cons (by decide) _
  | folded => exact h.elim

theorem items_true (indent : Nat) (n : Node) (ns : List Node) (rest : List Char) :
    Writer.items indent true (n :: ns) ++ rest =
      '-' :: ' ' :: (Writer.inner (indent + 2) n ++ (Writer.items indent false ns ++ rest)) := by
  simp [Writer.items]

theorem items_false (indent : Nat) (n : Node) (ns : List Node) (rest : List Char) :
    Writer.items indent false (n :: ns) ++ rest =
      blanks indent ++ (Writer.items indent true (n :: ns) ++ rest) := by
  simp [Writer.items]

theorem starts_items (indent : Nat) (n : Node) (ns : List Node) (rest : List Char) :
    Starts (Writer.items indent true (n :: ns) ++ rest) := by
  rw [items_true]
  exact starts_cons (by decide) _

theorem entries_true (indent : Nat) (name : List Char) (n : Node) (es : List (Node × Node))
    (rest : List Char) :
    Writer.entries indent true ((.plain (String.ofList name), n) :: es) ++ rest =
      name ++ ':' :: (Writer.value indent n ++ (Writer.entries indent false es ++ rest)) := by
  simp [Writer.entries, Writer.simpleKey?, Writer.tagged, Node.plain]

theorem entries_false (indent : Nat) (e : Node × Node) (es : List (Node × Node)) (rest : List Char) :
    Writer.entries indent false (e :: es) ++ rest =
      blanks indent ++ (Writer.entries indent true (e :: es) ++ rest) := by
  simp [Writer.entries]

theorem value_cons (indent : Nat) (n : Node) :
    ∃ c cs, isSpace c = true ∧ Writer.value indent n = c :: cs := by
  cases n with
  | scalar style tag s => exact ⟨' ', _, rfl, by rw [Writer.value]⟩
  | «alias» a => exact ⟨' ', _, rfl, by rw [Writer.value]; rfl⟩
  | list ns => cases ns with
    | nil => exact ⟨' ', _, rfl, by rw [Writer.value]⟩
    | cons n ns => exact ⟨'\n', _, rfl, by rw [Writer.value]⟩
  | mapping es => cases es with
    | nil => exact ⟨' ', _, rfl, by rw [Writer.value]⟩
    | cons e es => exact ⟨'\n', _, rfl, by rw [Writer.value]⟩

theorem starts_entries {e : Node × Node} (he : e.1.IsKey) (indent : Nat)
    (es : List (Node × Node)) (rest : List Char) :
    Starts (Writer.entries indent true (e :: es) ++ rest) := by
  obtain ⟨k, n⟩ := e
  obtain ⟨name, rfl, hname⟩ := he
  rw [entries_true]
  obtain ⟨c, name, rfl⟩ := List.exists_cons_of_ne_nil hname.suits.2
  exact (plainStart_of_allowsPlain hname.suits.1 _).starts

/-- A node is scanned as its tokens, in a block that goes on after it. -/
structure Scans (n : Node) : Prop where
  starts (indent : Nat) (rest : List Char) : Starts (Writer.inner indent n ++ rest)
  item {line indent m : Nat} {rest : List Char} {indents : List Int} {ts : List Token}
    (hm : m ≤ indent) (hrest : Starts rest) :
    (inText line (indent + 2) (Writer.inner (indent + 2) n ++ (blanks m ++ rest)) indent indents true
      none ts).Reaches m rest indent indents ((n.tokens false).reverse ++ ts)
  value {line column indent m : Nat} {rest : List Char} {indents : List Int} {ts : List Token}
    (hcolumn : indent < column) (hm : m ≤ indent) (hrest : Starts rest) :
    (inText line column (Writer.value indent n ++ (blanks m ++ rest)) indent indents false none
      ts).Reaches m rest indent indents ((n.tokens true).reverse ++ ts)

section Collections

variable {line column m : Nat} {rest : List Char} (hm : m ≤ column) (hrest : Starts rest)
  {indent : Int} {indents indents' : List Int} {ts ts' : List Token}
include hm hrest

theorem reaches_item {n : Node} (hn : Scans n)
    (ho : Opens .blockSequenceStart column indent indents ts indents' ts') :
    (inText line column ('-' :: ' ' :: (Writer.inner (column + 2) n ++ (blanks m ++ rest))) indent
      indents true none ts).Reaches m rest column indents'
        ((n.tokens false).reverse ++ .blockEntry :: ts') :=
  ((leads_entry rfl ho).trans (leads_blank (hn.starts _ _))).reaches (hn.item hm hrest)

/-- The first item may open a block; the others go on in it. -/
theorem reaches_items {ns : List Node} (hns : ∀ n ∈ ns, Scans n) (hne : ns ≠ [])
    (ho : Opens .blockSequenceStart column indent indents ts indents' ts') :
    (inText line column (Writer.items column true ns ++ (blanks m ++ rest)) indent indents true none
      ts).Reaches m rest column indents' ((itemTokens ns).reverse ++ ts') := by
  induction ns generalizing indent indents ts ts' line with
  | nil => exact absurd rfl hne
  | cons n ns ih =>
    have hn := hns n (List.mem_cons_self ..)
    rw [items_true]
    cases ns with
    | nil => simpa [Writer.items, itemTokens] using reaches_item hm hrest hn ho
    | cons n' ns =>
      have hstart := starts_items column n' ns (blanks m ++ rest)
      rw [items_false]
      simpa [itemTokens] using (reaches_item (Nat.le_refl column) hstart hn ho).trans fun line =>
        ih (fun n hn => hns n (List.mem_cons_of_mem _ hn)) (by simp) (.same indents' _)

theorem reaches_entry {name : List Char} {n : Node} (hname : Scanner.IsKey name) (hn : Scans n)
    (ho : Opens .blockMappingStart column indent indents ts indents' ts') :
    (inText line column (name ++ ':' :: (Writer.value column n ++ (blanks m ++ rest))) indent indents
      true none ts).Reaches m rest column indents'
        ((n.tokens true).reverse ++ .value :: .scalar .plain (String.ofList name) :: .key :: ts') := by
  obtain ⟨c, cs, hc, hvalue⟩ := value_cons column n
  obtain ⟨column', hcolumn, hkey⟩ := leads_key hname hc line (cs ++ (blanks m ++ rest)) ho
  rw [hvalue]
  refine hkey.reaches ?_
  rw [← List.cons_append, ← hvalue]
  exact hn.value hcolumn hm hrest

theorem reaches_entries {es : List (Node × Node)}
    (hkeys : ∀ e ∈ es, e.1.IsKey) (hes : ∀ e ∈ es, Scans e.2) (hne : es ≠ [])
    (ho : Opens .blockMappingStart column indent indents ts indents' ts') :
    (inText line column (Writer.entries column true es ++ (blanks m ++ rest)) indent indents true none
      ts).Reaches m rest column indents' ((entryTokens es).reverse ++ ts') := by
  induction es generalizing indent indents ts ts' line with
  | nil => exact absurd rfl hne
  | cons e es ih =>
    obtain ⟨k, n⟩ := e
    obtain ⟨name, rfl, hname⟩ := hkeys _ (List.mem_cons_self ..)
    have hn := hes _ (List.mem_cons_self ..)
    rw [entries_true]
    cases es with
    | nil =>
      simpa [Writer.entries, entryTokens, Node.tokens, Node.plain] using
        reaches_entry hm hrest hname hn ho
    | cons e es =>
      have hstart := starts_entries (hkeys e (by simp)) column es (blanks m ++ rest)
      rw [entries_false]
      simpa [entryTokens, Node.tokens, Node.plain] using
        (reaches_entry (Nat.le_refl column) hstart hname hn ho).trans fun line =>
          ih (fun e he => hkeys e (List.mem_cons_of_mem _ he))
            (fun e he => hes e (List.mem_cons_of_mem _ he)) (by simp) (.same indents' _)

end Collections

section Nodes

variable {line column indent m : Nat} {rest : List Char} {indents : List Int} {ts : List Token}

theorem scans_scalar {style : Style} {s : String} (h : Suits style s.toList) :
    Scans (.scalar style none s) where
  starts := starts_scalar h
  item hm hrest := reaches_scalar (by omega) hrest h hm
  value hcolumn hm hrest :=
    (leads_blank (starts_scalar h _ _)).reaches (reaches_scalar (by omega) hrest h hm)

theorem scans_nil : Scans (.list []) where
  starts _ _ := starts_cons (by decide) _
  item _ hrest := reaches_brackets .list (by omega) (by omega) hrest
  value hcolumn _ hrest :=
    (leads_blank (starts_cons (by decide) _)).reaches
      (reaches_brackets .list (by omega) (by omega) hrest)

theorem scans_empty : Scans (.mapping []) where
  starts _ _ := starts_cons (by decide) _
  item _ hrest := reaches_brackets .mapping (by omega) (by omega) hrest
  value hcolumn _ hrest :=
    (leads_blank (starts_cons (by decide) _)).reaches
      (reaches_brackets .mapping (by omega) (by omega) hrest)

theorem scans_list {n : Node} {ns : List Node} (h : ∀ n' ∈ n :: ns, Scans n') :
    Scans (.list (n :: ns)) := by
  refine ⟨fun indent rest => ?_, ?_, ?_⟩
  · rw [Writer.inner]
    exact starts_items indent n ns rest
  · intro line indent m rest indents ts hm hrest
    have hitems : (inText line (indent + 2) (Writer.items (indent + 2) true (n :: ns) ++
        (blanks m ++ rest)) indent indents true none ts).Reaches m rest _ _ _ :=
      reaches_items (by omega) hrest h (by simp) (.new (by omega))
    rw [Writer.inner]
    simpa [Node.tokens] using hitems.blockEnd hrest (by omega)
  · intro line column indent m rest indents ts hcolumn hm hrest
    rw [Writer.value, List.cons_append, items_false]
    exact (leads_line (starts_items ..) indent (passed_none _)).reaches
      (reaches_items hm hrest h (by simp) (.same indents ts))

/-- A mapping is a block of its own, in an item as under a key. -/
theorem reaches_mapping {e : Node × Node} {es : List (Node × Node)}
    (hkeys : ∀ e' ∈ e :: es, e'.1.IsKey)
    (h : ∀ e' ∈ e :: es, Scans e'.2) (hm : m ≤ indent) (hrest : Starts rest) :
    (inText line (indent + 2) (Writer.entries (indent + 2) true (e :: es) ++ (blanks m ++ rest)) indent
      indents true none ts).Reaches m rest indent indents
        (.blockEnd :: ((entryTokens (e :: es)).reverse ++ .blockMappingStart :: ts)) := by
  have hblock : (inText line (indent + 2) (Writer.entries (indent + 2) true (e :: es) ++
      (blanks m ++ rest)) indent indents true none ts).Reaches m rest _ _ _ :=
    reaches_entries (by omega) hrest hkeys h (by simp) (.new (by omega))
  exact hblock.blockEnd hrest (by omega)

theorem scans_mapping {e : Node × Node} {es : List (Node × Node)}
    (hkeys : ∀ e' ∈ e :: es, e'.1.IsKey)
    (h : ∀ e' ∈ e :: es, Scans e'.2) : Scans (.mapping (e :: es)) := by
  have hstart := starts_entries (hkeys e (List.mem_cons_self ..))
  refine ⟨fun indent rest => ?_, ?_, ?_⟩
  · rw [Writer.inner]
    exact hstart indent es rest
  · intro line indent m rest indents ts hm hrest
    rw [Writer.inner]
    simpa [Node.tokens] using reaches_mapping hkeys h hm hrest
  · intro line column indent m rest indents ts hcolumn hm hrest
    rw [Writer.value, List.cons_append, entries_false]
    refine (leads_line (hstart ..) (indent + 2) (passed_none _)).reaches ?_
    simpa [Node.tokens] using reaches_mapping hkeys h hm hrest

end Nodes

theorem scans_of_legible {n : Node} (h : n.Legible) : Scans n := by
  induction h with
  | scalar h => exact scans_scalar h
  | @list ns h ih =>
    cases ns with
    | nil => exact scans_nil
    | cons n ns => exact scans_list ih
  | @mapping es hkeys h ih =>
    cases es with
    | nil => exact scans_empty
    | cons e es => exact scans_mapping hkeys ih

end Scanner

namespace Writer

def Printable (cs : List Char) : Prop := ∀ c ∈ cs, isPrintable c = true

@[simp] theorem printable_nil : Printable [] := nofun

@[simp] theorem printable_cons {c : Char} {cs : List Char} :
    Printable (c :: cs) ↔ isPrintable c = true ∧ Printable cs := by
  simp [Printable]

@[simp] theorem printable_append {cs ds : List Char} :
    Printable (cs ++ ds) ↔ Printable cs ∧ Printable ds := by
  simp [Printable, or_imp, forall_and]

@[simp] theorem printable_blanks (n : Nat) : Printable (blanks n) := by
  intro c hc
  rw [List.eq_of_mem_replicate hc]
  rfl

theorem printable_hex (width n : Nat) : Printable (hex width n) := by
  have hdigit : ∀ d < 16, isPrintable (hexDigit d) = true := by decide
  intro c hc
  obtain ⟨d, hd, rfl⟩ := exists_of_mem_hex hc
  exact hdigit d hd

theorem printable_escape (c : Char) : Printable (escape c) := by
  have hletters : ∀ e ∈ escapes, isPrintable e.2 = true := by decide
  have hmarks : ∀ mark ∈ ['\\', 'x', 'u', 'U'], isPrintable mark = true :=
    List.all_eq_true.mp (by decide)
  unfold escape
  split
  next letter hfind =>
    have hletter := hletters _ (List.mem_of_find?_eq_some hfind)
    simp [hletter, hmarks]
  next =>
    split
    next hc => simp [hc]
    next =>
      split
      · simp [hmarks, printable_hex]
      · split <;> simp [hmarks, printable_hex]

theorem Printable.quoted {cs : List Char} (h : Printable cs) (indent : Nat) (fresh : Bool) :
    Printable (quoted indent fresh cs) := by
  induction cs generalizing fresh with
  | nil => cases fresh <;> simp [Writer.quoted]
  | cons c cs ih =>
    obtain ⟨hc, hcs⟩ := printable_cons.mp h
    have hquote : isPrintable '\'' = true := rfl
    rw [Writer.quoted]
    split <;> cases fresh <;> simp [hc, ih hcs] <;> split <;> simp [hc, hquote]

theorem Printable.lines {cs : List Char} (h : Printable cs) (indent : Nat) (fresh : Bool) :
    Printable (lines indent fresh cs) := by
  induction cs generalizing fresh with
  | nil => simp [Writer.lines]
  | cons c cs ih =>
    obtain ⟨hc, hcs⟩ := printable_cons.mp h
    rw [Writer.lines]
    split <;> cases fresh <;> simp [hc, ih hcs]

theorem printable_hints (cs : List Char) : Printable (indentHint cs ++ chompHint cs) := by
  have hmarks : isPrintable '2' = true ∧ isPrintable '-' = true ∧ isPrintable '+' = true := by decide
  refine printable_append.mpr ⟨?_, ?_⟩
  · unfold indentHint
    split <;> simp [hmarks]
  · unfold chompHint
    split <;> (try split) <;> (try split) <;> simp [hmarks]

theorem printable_of_allowsPlain {cs : List Char} (h : allowsPlain cs = true) : Printable cs := by
  cases cs with
  | nil => exact printable_nil
  | cons c cs =>
    simp only [allowsPlain, Bool.and_eq_true, List.all_eq_true] at h
    exact fun d hd => (h.1.1.2 d hd).1

theorem printable_scalar {style : Style} {s : String} (h : Scanner.Suits style s.toList)
    (indent : Nat) : Printable (scalar indent style s) := by
  have hmarks : isPrintable '\n' = true ∧ isPrintable '\'' = true ∧ isPrintable '"' = true ∧
    isPrintable '|' = true := by decide
  cases style with
  | plain =>
    simp [scalar, printable_of_allowsPlain h.1, hmarks]
  | single =>
    have hs : Printable s.toList := (single_of_allowsSingle h.1 h.2).printable
    simp [scalar, hs.quoted, hmarks]
  | double =>
    have hs : Printable (s.toList.flatMap escape) := by
      intro c hc
      obtain ⟨d, -, hd⟩ := List.mem_flatMap.mp hc
      exact printable_escape d c hd
    simp [scalar, hs, hmarks]
  | literal =>
    have hs : Printable s.toList := by
      have hall := h.1
      simp only [allowsBlock, Bool.and_eq_true, List.all_eq_true] at hall
      exact hall.1.1
    have hend : Printable (if s.toList.getLast?.any isLineBreak then [] else ['\n']) := by
      split <;> simp [hmarks]
    have hhints := printable_append.mp (printable_hints s.toList)
    simp [scalar, hs.lines, hend, hhints, hmarks]
  | folded => exact h.elim

theorem printable_items {ns : List Node} (h : ∀ n ∈ ns, ∀ indent, Printable (inner indent n))
    (indent : Nat) (started : Bool) : Printable (items indent started ns) := by
  have hmarks : isPrintable '-' = true ∧ isPrintable ' ' = true := by decide
  induction ns generalizing started with
  | nil => simp [items]
  | cons n ns ih =>
    have hmore := ih (fun n hn => h n (List.mem_cons_of_mem _ hn)) false
    cases started <;> simp [items, h n (List.mem_cons_self ..), hmore, hmarks]

theorem printable_entries {es : List (Node × Node)} (hkeys : ∀ e ∈ es, e.1.IsKey)
    (h : ∀ e ∈ es, ∀ indent, Printable (value indent e.2)) (indent : Nat) (started : Bool) :
    Printable (entries indent started es) := by
  have hmark : isPrintable ':' = true := by decide
  induction es generalizing started with
  | nil => simp [entries]
  | cons e es ih =>
    obtain ⟨k, n⟩ := e
    obtain ⟨name, rfl, hname⟩ := hkeys _ (List.mem_cons_self ..)
    have hmore := ih (fun e he => hkeys e (List.mem_cons_of_mem _ he))
      (fun e he => h e (List.mem_cons_of_mem _ he)) false
    have hn := h _ (List.mem_cons_self ..) indent
    cases started <;>
      simp [entries, Node.plain, simpleKey?, tagged, printable_of_allowsPlain hname.suits.1, hn, hmore,
        hmark]

theorem printable_written {n : Node} (h : n.Legible) (indent : Nat) :
    Printable (inner indent n) ∧ Printable (value indent n) := by
  have hmarks : ∀ c ∈ [' ', '\n', '[', ']', '{', '}'], isPrintable c = true :=
    List.all_eq_true.mp (by decide)
  induction h generalizing indent with
  | scalar h => simp [inner, value, tagged, printable_scalar h, hmarks]
  | @list ns h ih =>
    cases ns with
    | nil => simp [inner, value, hmarks]
    | cons n ns =>
      have hitems := printable_items fun n hn indent => (ih n hn indent).1
      simp [inner, value, hitems, hmarks]
  | @mapping es hkeys h ih =>
    cases es with
    | nil => simp [inner, value, hmarks]
    | cons e es =>
      have hentries := printable_entries hkeys fun e he indent => (ih e he indent).2
      simp [inner, value, hentries, hmarks]

end Writer

open Scanner in
/-- A mapping is scanned as its tokens. -/
theorem tokens?_write {e : Node × Node} {es : List (Node × Node)}
    (h : Node.Legible (.mapping (e :: es))) :
    tokens? (Node.write (.mapping (e :: es))) =
      some (Node.tokens false (.mapping (e :: es)) ++ [.textEnd]) := by
  cases h with
  | mapping hkeys hes =>
  have hchars := ofText?_of_isPrintable (Writer.printable_written (.mapping hkeys hes) 0).1
  have hblock : (inText 0 0 (Writer.entries 0 true (e :: es) ++ (blanks 0 ++ [])) (-1) [] true none
      []).Reaches 0 [] 0 [-1] ((Node.entryTokens (e :: es)).reverse ++ [.blockMappingStart]) :=
    reaches_entries (Nat.le_refl 0) (.inl rfl) hkeys (fun e he => scans_of_legible (hes e he)) (by simp)
      (.new (by decide))
  obtain ⟨line, hleads⟩ := hblock
  have hrun := hleads _ (run_end line _)
  have hstart : Scanner.start (glyphs 0 0 (Writer.inner 0 (.mapping (e :: es)))) =
      inText 0 0 (Writer.entries 0 true (e :: es) ++ (blanks 0 ++ [])) (-1) [] true none [] := by
    simp [Scanner.start, inText, Writer.inner, blanks]
  rw [← hstart] at hrun
  rw [tokens?, Node.write, hchars]
  simp [hrun, Node.tokens]

end PointerTriage.Yaml
