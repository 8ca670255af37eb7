import PointerTriage.Proofs.Yaml.Layout
import PointerTriage.Yaml.Reader

namespace PointerTriage.Yaml

namespace Reader

theorem run_used {r r' : Reader} {t : Token} (h : r.step t = some (.used r')) (ts : List Token) :
    r.run (t :: ts) = r'.run ts := by
  rw [run, h]

theorem run_again {r r' : Reader} {t : Token} (h : r.step t = some (.again r'))
    (hweight : r'.weight < r.weight) (ts : List Token) : r.run (t :: ts) = r'.run (t :: ts) := by
  rw [run, h]
  simp [hweight]

/-- A reader in the middle of a document without directives, anchors and tags. -/
def inside (stack : List Frame) : Reader := { place := .root false, stack }

/-- A collection waits for a node, and what it is when the node has come. -/
inductive Awaits : Bool → Frame → (Node → Frame) → Prop where
  | block (before : List Node) :
    Awaits false (.list .block .item none before) fun n => .list .block .next none (n :: before)
  | inline (before : List Node) :
    Awaits false (.list .inline .item none before) fun n => .list .inline .next none (n :: before)
  | value (k : Node) (before : List (Node × Node)) :
    Awaits true (.mapping .block (.value k) none before) fun n =>
      .mapping .block .next none ((k, n) :: before)

/-- Where a node is awaited, the tokens of this one put it. A list that is a value ends only before a
token that is no further item. -/
structure Reads (n : Node) : Prop where
  item {frame : Frame} {after : Node → Frame} (h : Awaits false frame after) (stack : List Frame)
    (ts : List Token) :
    (inside (frame :: stack)).run (n.tokens false ++ ts) = (inside (after n :: stack)).run ts
  value {frame : Frame} {after : Node → Frame} (h : Awaits true frame after) (stack : List Frame)
    {t : Token} (ht : t ≠ .blockEntry) (ts : List Token) :
    (inside (frame :: stack)).run (n.tokens true ++ t :: ts) =
      (inside (after n :: stack)).run (t :: ts)

theorem reads_of_run {n : Node} (htokens : n.tokens true = n.tokens false)
    (hrun : ∀ {asValue frame after}, Awaits asValue frame after → ∀ stack ts,
      (inside (frame :: stack)).run (n.tokens false ++ ts) = (inside (after n :: stack)).run ts) :
    Reads n where
  item h stack ts := hrun h stack ts
  value h stack _ _ ts := by
    rw [htokens]
    exact hrun h stack _

theorem reads_scalar (style : Style) (s : String) : Reads (.scalar style none s) := by
  refine reads_of_run (by simp [Node.tokens]) ?_
  intro asValue frame after h stack ts
  exact run_used (by cases h <;> rfl) ts

theorem reads_nil : Reads (.list []) := by
  refine reads_of_run (by simp [Node.tokens]) ?_
  intro asValue frame after h stack ts
  have hopen : (inside (frame :: stack)).step .flowSequenceStart =
      some (.used (inside (.list .flow .item none [] :: frame :: stack))) := by cases h <;> rfl
  have hclose : (inside (.list .flow .item none [] :: frame :: stack)).step .flowSequenceEnd =
      some (.used (inside (after (.list []) :: stack))) := by cases h <;> rfl
  exact (run_used hopen _).trans (run_used hclose ts)

theorem reads_empty : Reads (.mapping []) := by
  refine reads_of_run (by simp [Node.tokens]) ?_
  intro asValue frame after h stack ts
  have hopen : (inside (frame :: stack)).step .flowMappingStart =
      some (.used (inside (.mapping .flow .item none [] :: frame :: stack))) := by cases h <;> rfl
  have hclose : (inside (.mapping .flow .item none [] :: frame :: stack)).step .flowMappingEnd =
      some (.used (inside (after (.mapping []) :: stack))) := by cases h <;> rfl
  exact (run_used hopen _).trans (run_used hclose ts)

/-- Items one after the other, in a list that is indented or not. -/
theorem run_items {ns : List Node} (hns : ∀ n ∈ ns, Reads n) {kind : ListKind} (hkind : kind ≠ .flow)
    (before : List Node) (stack : List Frame) (ts : List Token) :
    (inside (.list kind .next none before :: stack)).run (Node.itemTokens ns ++ ts) =
      (inside (.list kind .next none (ns.reverse ++ before) :: stack)).run ts := by
  induction ns generalizing before with
  | nil => rfl
  | cons n ns ih =>
    have hmore := ih (fun n hn => hns n (List.mem_cons_of_mem _ hn)) (n :: before)
    have hentry : (inside (.list kind .next none before :: stack)).step .blockEntry =
        some (.used (inside (.list kind .item none before :: stack))) := by
      cases kind <;> first | rfl | exact absurd rfl hkind
    have hitem : (inside (.list kind .item none before :: stack)).run
        (n.tokens false ++ (Node.itemTokens ns ++ ts)) =
          (inside (.list kind .next none (n :: before) :: stack)).run (Node.itemTokens ns ++ ts) := by
      have hn := hns n (List.mem_cons_self ..)
      cases kind with
      | block => exact hn.item (.block before) stack _
      | inline => exact hn.item (.inline before) stack _
      | flow => exact absurd rfl hkind
    simp only [Node.itemTokens, List.cons_append, List.append_assoc, List.reverse_cons]
    rw [run_used hentry, hitem, hmore]
    rfl

theorem reads_list {n : Node} {ns : List Node} (hns : ∀ n' ∈ n :: ns, Reads n') :
    Reads (.list (n :: ns)) where
  item {frame after} h stack ts := by
    have hopen : (inside (frame :: stack)).step .blockSequenceStart =
        some (.used (inside (.list .block .next none [] :: frame :: stack))) := by cases h <;> rfl
    have hclose : ∀ before, (inside (.list .block .next none before :: frame :: stack)).step .blockEnd =
        some (.used (inside (after (.list before.reverse) :: stack))) := by
      cases h <;> exact fun _ => rfl
    have htokens : Node.tokens false (.list (n :: ns)) ++ ts =
        .blockSequenceStart :: (Node.itemTokens (n :: ns) ++ .blockEnd :: ts) := by simp [Node.tokens]
    rw [htokens, run_used hopen, run_items hns (by decide), run_used (hclose _)]
    simp
  value {frame after} h stack t ht ts := by
    have hopen : (inside (frame :: stack)).step .blockEntry =
        some (.used (inside (.list .inline .item none [] :: frame :: stack))) := by cases h; rfl
    -- a list that is not indented ends at a token that is not its own
    have hclose : ∀ before, (inside (.list .inline .next none before :: frame :: stack)).step t =
        some (.again (inside (after (.list before.reverse) :: stack))) := by
      intro before
      cases h
      simp [step, pending, stepList, inside, ht]
      rfl
    have hweight : ∀ before, (inside (after (.list before) :: stack)).weight <
        (inside (.list .inline .next none before.reverse :: frame :: stack)).weight := by
      intro before
      cases h
      simp [weight, inside, Frame.weight]
    have htokens : Node.tokens true (.list (n :: ns)) ++ t :: ts =
        .blockEntry :: (n.tokens false ++ (Node.itemTokens ns ++ t :: ts)) := by
      simp [Node.tokens, Node.itemTokens]
    rw [htokens, run_used hopen, (hns n (List.mem_cons_self ..)).item (.inline []),
      run_items (fun n hn => hns n (List.mem_cons_of_mem _ hn)) (by decide), run_again (hclose _)]
    · simp
    · simpa using hweight (n :: ns)

theorem run_entry {n : Node} (hn : Reads n) (name : String) (before : List (Node × Node))
    (stack : List Frame) {t : Token} (ht : t ≠ .blockEntry) (ts : List Token) :
    (inside (.mapping .block .next none before :: stack)).run
        (.key :: .scalar .plain name :: .value :: (n.tokens true ++ t :: ts)) =
      (inside (.mapping .block .next none ((.plain name, n) :: before) :: stack)).run (t :: ts) := by
  have hkey : (inside (.mapping .block .next none before :: stack)).step .key =
      some (.used (inside (.mapping .block .key none before :: stack))) := rfl
  have hname : (inside (.mapping .block .key none before :: stack)).step (.scalar .plain name) =
      some (.used (inside (.mapping .block (.mark (.plain name)) none before :: stack))) := rfl
  have hmark : (inside (.mapping .block (.mark (.plain name)) none before :: stack)).step .value =
      some (.used (inside (.mapping .block (.value (.plain name)) none before :: stack))) := rfl
  rw [run_used hkey, run_used hname, run_used hmark]
  exact hn.value (.value (.plain name) before) stack ht ts

/-- Entries one after the other. -/
theorem run_entries {es : List (Node × Node)} (hkeys : ∀ e ∈ es, e.1.IsKey)
    (hes : ∀ e ∈ es, Reads e.2) (before : List (Node × Node)) (stack : List Frame) {t : Token}
    (ht : t ≠ .blockEntry) (ts : List Token) :
    (inside (.mapping .block .next none before :: stack)).run (Node.entryTokens es ++ t :: ts) =
      (inside (.mapping .block .next none (es.reverse ++ before) :: stack)).run (t :: ts) := by
  induction es generalizing before with
  | nil => rfl
  | cons e es ih =>
    obtain ⟨k, n⟩ := e
    obtain ⟨name, rfl, -⟩ := hkeys _ (List.mem_cons_self ..)
    have hmore := ih (fun e he => hkeys e (List.mem_cons_of_mem _ he))
      (fun e he => hes e (List.mem_cons_of_mem _ he)) ((.plain (String.ofList name), n) :: before)
    -- the value ends before the next key, or before what follows the mapping
    obtain ⟨t', ts', ht', hrest⟩ : ∃ t' ts', t' ≠ .blockEntry ∧
        Node.entryTokens es ++ t :: ts = t' :: ts' := by
      cases es with
      | nil => exact ⟨t, ts, ht, rfl⟩
      | cons e es => exact ⟨.key, _, by decide, by rw [Node.entryTokens]; rfl⟩
    have htokens : Node.entryTokens ((.plain (String.ofList name), n) :: es) ++ t :: ts =
        .key :: .scalar .plain (String.ofList name) :: .value ::
          (n.tokens true ++ (Node.entryTokens es ++ t :: ts)) := by
      simp [Node.entryTokens, Node.tokens, Node.plain]
    rw [hrest] at hmore htokens
    rw [htokens, run_entry (hes _ (List.mem_cons_self ..)) _ before stack ht', hmore]
    simp

theorem reads_mapping {e : Node × Node} {es : List (Node × Node)} (hkeys : ∀ e' ∈ e :: es, e'.1.IsKey)
    (hes : ∀ e' ∈ e :: es, Reads e'.2) : Reads (.mapping (e :: es)) := by
  refine reads_of_run (by simp [Node.tokens]) ?_
  intro asValue frame after h stack ts
  have hopen : (inside (frame :: stack)).step .blockMappingStart =
      some (.used (inside (.mapping .block .next none [] :: frame :: stack))) := by cases h <;> rfl
  have hclose : ∀ before,
      (inside (.mapping .block .next none before :: frame :: stack)).step .blockEnd =
        some (.used (inside (after (.mapping before.reverse) :: stack))) := by
    cases h <;> exact fun _ => rfl
  have htokens : Node.tokens false (.mapping (e :: es)) ++ ts =
      .blockMappingStart :: (Node.entryTokens (e :: es) ++ .blockEnd :: ts) := by simp [Node.tokens]
  rw [htokens, run_used hopen, run_entries hkeys hes _ _ (by decide), run_used (hclose _)]
  simp

theorem reads_of_legible {n : Node} (h : n.Legible) : Reads n := by
  induction h with
  | scalar h => exact reads_scalar ..
  | @list ns h ih =>
    cases ns with
    | nil => exact reads_nil
    | cons n ns => exact reads_list ih
  | @mapping es hkeys h ih =>
    cases es with
    | nil => exact reads_empty
    | cons e es => exact reads_mapping hkeys ih

end Reader

open Reader in
theorem ofTokens?_tokens {e : Node × Node} {es : List (Node × Node)}
    (h : Node.Legible (.mapping (e :: es))) :
    Document.ofTokens? (Node.tokens false (.mapping (e :: es)) ++ [.textEnd]) =
      some (.ofNode (.mapping (e :: es))) := by
  cases h with
  | mapping hkeys hes =>
  have hopen : ({} : Reader).step .blockMappingStart =
      some (.used (inside [.mapping .block .next none []])) := rfl
  have hclose : ∀ before, (inside [.mapping .block .next none before]).step .blockEnd =
      some (.used { place := .done (.mapping before.reverse) }) := fun _ => rfl
  have hend : ∀ n, Reader.run { place := .done n } [.textEnd] = some { place := .done n } := by
    intro n
    rw [run_used rfl, run]
  have htokens : Node.tokens false (.mapping (e :: es)) ++ [.textEnd] =
      .blockMappingStart :: (Node.entryTokens (e :: es) ++ [.blockEnd, .textEnd]) := by
    simp [Node.tokens]
  have hrun : Reader.run {} (Node.tokens false (.mapping (e :: es)) ++ [.textEnd]) =
      some { place := .done (.mapping (e :: es)) } := by
    rw [htokens, run_used hopen,
      run_entries hkeys (fun e he => reads_of_legible (hes e he)) _ _ (by decide),
      run_used (hclose _), hend]
    simp
  rw [Document.ofTokens?, hrun]
  rfl

/-- What is written for a mapping reads back as that mapping. -/
theorem parse?_write {e : Node × Node} {es : List (Node × Node)}
    (h : Node.Legible (.mapping (e :: es))) :
    Document.parse? (Node.write (.mapping (e :: es))) = some (.ofNode (.mapping (e :: es))) := by
  rw [Document.parse?, tokens?_write h]
  exact ofTokens?_tokens h

end PointerTriage.Yaml
