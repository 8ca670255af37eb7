import PointerTriage.Proofs.ControlFlow.Edges
import PointerTriage.Proofs.Ir.Layout

namespace PointerTriage.ControlFlow

inductive Point where
  | globals
  | entry (f : FunctionId)
  | exit (f : FunctionId)
  | start (v : ValueId)
  | finish (v : ValueId)
  deriving DecidableEq

/-- The node that stands for a point: calls start and end at nodes of their own. -/
def Point.node? (ir : Ir) : Point → Option Node
  | .globals => some globalNode
  | .entry f => some ⟨.funEntry, some f, none⟩
  | .exit f => some ⟨.funExit, some f, none⟩
  | .start v =>
    (ir.ownerOf? v).map (⟨if ir.isCall v then .call else .intraBlock, some ·, some v⟩)
  | .finish v =>
    (ir.ownerOf? v).map (⟨if ir.isCall v then .return else .intraBlock, some ·, some v⟩)

def locate? (g : ControlFlow) : Point → Option LocationId
  | .globals => some globalBlock
  | .entry f => g.entry? f
  | .exit f => g.exit? f
  | .start v => g.startOf? v
  | .finish v => g.endOf? v

theorem mem_nodesOf_of_node? {ir : Ir} {g : ControlFlow} (hg : g.nodes = (nodesOf ir).toArray)
    {l : LocationId} {n : Node} (hn : g.node? l = some n) : n ∈ nodesOf ir := by
  have hm := Array.mem_of_getElem? hn
  rwa [hg, List.mem_toArray] at hm

theorem locate?_congr {g g' : ControlFlow} (h : g.nodes = g'.nodes) (p : Point) :
    g.locate? p = g'.locate? p := by
  cases p <;> simp [locate?, entry?, exit?, startOf?, endOf?, h]

/-- A node stands for one point only, unless an instruction that is no call starts and ends there. -/
theorem Point.eq_of_node? {ir : Ir} {p q : Point} {n : Node} (hp : p.node? ir = some n)
    (hq : q.node? ir = some n) :
    p = q ∨ ∃ v, ir.isCall v = false ∧
      ((p = .start v ∧ q = .finish v) ∨ (p = .finish v ∧ q = .start v)) := by
  cases p <;> cases q <;>
    simp only [Point.node?, globalNode, Option.map_eq_some_iff, Option.some.injEq] at hp hq <;>
    grind

section

variable {ir : Ir}

theorem mem_instructionNodes {f : FunctionId} {v : ValueId} {n : Node} :
    n ∈ instructionNodes ir f v ↔ n.function = some f ∧ n.value = some v ∧
      if ir.isCall v then n.kind = .call ∨ n.kind = .return else n.kind = .intraBlock := by
  obtain ⟨kind, function, value⟩ := n
  unfold instructionNodes
  split
  · simp only [List.mem_cons, List.not_mem_nil, or_false, Node.mk.injEq]
    grind
  · simp only [List.mem_singleton, Node.mk.injEq]
    grind

theorem functionNodes_eq (f : Function) : functionNodes ir f =
    ⟨.funEntry, some f.id, none⟩ :: ⟨.funExit, some f.id, none⟩ ::
      ((ir.body f).flatMap Block.instructions).flatMap (instructionNodes ir f.id) := by
  rw [functionNodes, List.flatMap_assoc]

theorem function_of_mem_functionNodes {f : Function} {n : Node} (hn : n ∈ functionNodes ir f) :
    n.function = some f.id := by
  rw [functionNodes_eq] at hn
  rcases List.mem_cons.mp hn with rfl | hn
  · rfl
  · rcases List.mem_cons.mp hn with rfl | hn
    · rfl
    · obtain ⟨v, _, hn⟩ := List.mem_flatMap.mp hn
      exact (mem_instructionNodes.mp hn).1

variable (hs : ir.tables.Sound) (hh : ir.tables.Housed)
include hs hh

/-- The nodes of a program: its globals, the ends of its functions and its instructions. -/
theorem mem_nodesOf {n : Node} :
    n ∈ nodesOf ir ↔ n = globalNode ∨
      (∃ f ∈ ir.defined, n = ⟨.funEntry, some f.id, none⟩ ∨ n = ⟨.funExit, some f.id, none⟩) ∨
      ∃ f v, ir.ownerOf? v = some f ∧ n ∈ instructionNodes ir f v := by
  simp only [nodesOf, List.mem_cons, List.mem_flatMap, functionNodes_eq]
  refine or_congr_right ?_
  constructor
  · intro hex
    obtain ⟨f, hf, rfl | rfl | ⟨v, ⟨b, hb, hv⟩, hn⟩⟩ := hex
    · exact .inl ⟨f, hf, .inl rfl⟩
    · exact .inl ⟨f, hf, .inr rfl⟩
    · obtain ⟨_, _, howner⟩ := Ir.instruction_of_mem hs hh ((Ir.mem_body hs).mp hb).1 hv
      rw [Ir.function_of_mem_body hs hh hf hb] at howner
      exact .inr ⟨f.id, v, howner, hn⟩
  · intro hor
    rcases hor with ⟨f, hf, rfl | rfl⟩ | ⟨owner, v, howner, hn⟩
    · exact ⟨f, hf, .inl rfl⟩
    · exact ⟨f, hf, .inr (.inl rfl)⟩
    · have hinstruction := Ir.isInstruction_of_ownerOf? howner
      obtain ⟨b, hb, hv⟩ := Ir.block_of_instruction hs hh hinstruction
      obtain ⟨f, hf, hbody⟩ := (Ir.mem_blocks_iff hs hh).mp hb
      obtain ⟨_, _, howner'⟩ := Ir.instruction_of_mem hs hh hb hv
      rw [Ir.function_of_mem_body hs hh hf hbody, howner] at howner'
      cases howner'
      exact ⟨f, hf, .inr (.inr ⟨v, ⟨b, hbody, hv⟩, hn⟩)⟩

theorem nodup_functionNodes {f : Function} (hf : f ∈ ir.defined) : (functionNodes ir f).Nodup := by
  rw [functionNodes_eq]
  have hvalue : ∀ n ∈ ((ir.body f).flatMap Block.instructions).flatMap (instructionNodes ir f.id),
      n.value ≠ none := by
    intro n hn
    obtain ⟨v, _, hn⟩ := List.mem_flatMap.mp hn
    simp [(mem_instructionNodes.mp hn).2.1]
  refine List.nodup_cons.mpr ⟨?_, List.nodup_cons.mpr ⟨fun hn => hvalue _ hn rfl, ?_⟩⟩
  · intro hn
    rcases List.mem_cons.mp hn with he | hn
    · cases he
    · exact hvalue _ hn rfl
  · refine List.nodup_flatMap.mpr ⟨?_, (Ir.nodup_instructions hs hh hf).imp ?_⟩
    · intro v _
      unfold instructionNodes
      split <;> simp
    · intro v w hvw n hv hw
      have hv := (mem_instructionNodes.mp hv).2.1
      rw [(mem_instructionNodes.mp hw).2.1] at hv
      exact hvw (Option.some.inj hv).symm

omit hh in
theorem defined_ids : ir.defined.Pairwise fun f g => f.id ≠ g.id := by
  refine List.Pairwise.filter _ (List.pairwise_iff_getElem.mpr ?_)
  intro i j hi hj hij
  have hid : ∀ k (hk : k < ir.functions.length), (ir.functions[k]).id = k := by
    intro k hk
    refine hs.function k _ ?_
    simp [Ir.functions]
  rw [hid i hi, hid j hj]
  exact Nat.ne_of_lt hij

/-- No node is there twice. -/
theorem nodup_nodesOf : (nodesOf ir).Nodup := by
  refine List.nodup_cons.mpr ⟨?_, List.nodup_flatMap.mpr ⟨?_, (defined_ids hs).imp ?_⟩⟩
  · intro hn
    obtain ⟨f, _, hn⟩ := List.mem_flatMap.mp hn
    cases function_of_mem_functionNodes hn
  · exact fun f hf => nodup_functionNodes hs hh hf
  · intro f f' hne n hn hn'
    have hf := function_of_mem_functionNodes hn
    rw [function_of_mem_functionNodes hn'] at hf
    exact hne (Option.some.inj hf).symm

/-- The node of an instruction, by its opcode. -/
theorem node_of_value {n : Node} (hn : n ∈ nodesOf ir) {v : ValueId} (hv : n.value = some v) :
    ∃ f, ir.ownerOf? v = some f ∧ n ∈ instructionNodes ir f v := by
  rcases (mem_nodesOf hs hh).mp hn with rfl | ⟨f, _, rfl | rfl⟩ | ⟨f, w, howner, hn⟩
  · cases hv
  · cases hv
  · cases hv
  · cases (mem_instructionNodes.mp hn).2.1.symm.trans hv
    exact ⟨f, howner, hn⟩

/-- The nodes where an instruction starts, or those where it ends, are the one of the kind that its
opcode decides. -/
theorem side_iff {side : NodeKind} (hside : side = .call ∨ side = .return) {n : Node}
    (hn : n ∈ nodesOf ir) {v : ValueId} :
    ((n.kind = .intraBlock ∨ n.kind = side) ∧ n.value = some v) ↔
      ∃ f, ir.ownerOf? v = some f ∧ ⟨if ir.isCall v then side else .intraBlock, some f, some v⟩ = n := by
  constructor
  · intro h
    obtain ⟨f, howner, hn⟩ := node_of_value hs hh hn h.2
    refine ⟨f, howner, ?_⟩
    obtain ⟨kind, _, _⟩ := n
    rw [mem_instructionNodes] at hn
    rcases hside with rfl | rfl <;> grind
  · intro hex
    obtain ⟨f, _, rfl⟩ := hex
    grind

/-- Functions are entered and left at one node each. -/
theorem door_iff {door : NodeKind} (hdoor : door = .funEntry ∨ door = .funExit) {n : Node}
    (hn : n ∈ nodesOf ir) {f : FunctionId} :
    (n.kind = door ∧ n.function = some f) ↔ ⟨door, some f, none⟩ = n := by
  constructor
  · intro h
    rcases (mem_nodesOf hs hh).mp hn with rfl | ⟨_, _, rfl | rfl⟩ | ⟨_, v, _, hn⟩
    · cases h.2
    · grind
    · grind
    · rw [mem_instructionNodes] at hn
      grind
  · rintro rfl
    exact ⟨rfl, rfl⟩

/-- The test by which a point is located finds its node. -/
theorem isAt_iff {n : Node} (hn : n ∈ nodesOf ir) :
    (∀ f, (n.kind == .funEntry && n.function == some f) = true ↔
      (Point.entry f).node? ir = some n) ∧
    (∀ f, (n.kind == .funExit && n.function == some f) = true ↔
      (Point.exit f).node? ir = some n) ∧
    (∀ v, n.isStart v = true ↔ (Point.start v).node? ir = some n) ∧
    ∀ v, n.isEnd v = true ↔ (Point.finish v).node? ir = some n := by
  simp only [Node.isStart, Node.isEnd, Point.node?, Bool.and_eq_true, Bool.or_eq_true, beq_iff_eq,
    Option.map_eq_some_iff, Option.some.injEq]
  exact ⟨fun _ => door_iff hs hh (.inl rfl) hn, fun _ => door_iff hs hh (.inr rfl) hn,
    fun _ => side_iff hs hh (.inl rfl) hn, fun _ => side_iff hs hh (.inr rfl) hn⟩

end

/-- A test that one item at most passes finds the index of that item. -/
theorem findIdx?_of_nodup {α : Type} {items : List α} (hnodup : items.Nodup) {test : α → Bool}
    {item : Option α} (htest : ∀ a ∈ items, test a = true ↔ item = some a) {i : Nat} :
    items.toArray.findIdx? test = some i ↔ ∃ a, item = some a ∧ items[i]? = some a := by
  rw [Array.findIdx?_eq_some_iff_getElem]
  constructor
  · intro hex
    obtain ⟨hi, ha, _⟩ := hex
    exact ⟨_, (htest _ (List.getElem_mem _)).mp ha, List.getElem?_eq_getElem hi⟩
  · intro hex
    obtain ⟨a, ha, hi⟩ := hex
    obtain ⟨hlt, rfl⟩ := List.getElem?_eq_some_iff.mp hi
    refine ⟨hlt, (htest _ (List.getElem_mem _)).mpr ha, ?_⟩
    intro j hj htrue
    have hsame := ha.symm.trans ((htest _ (List.getElem_mem _)).mp htrue)
    have hij := (List.Nodup.getElem_inj_iff hnodup).mp (Option.some.inj hsame)
    omega

section

variable {ir : Ir} (hs : ir.tables.Sound) (hh : ir.tables.Housed) {g : ControlFlow}
  (hg : g.nodes = (nodesOf ir).toArray)
include hs hh hg

/-- A point is located where its node is. -/
theorem locate?_eq_some_iff {p : Point} {l : LocationId} :
    g.locate? p = some l ↔ ∃ n, p.node? ir = some n ∧ g.node? l = some n := by
  have hnodup := nodup_nodesOf hs hh
  simp only [node?, hg, List.getElem?_toArray]
  cases p with
  | globals =>
    simp only [locate?, Point.node?, Option.some.injEq, exists_eq_left']
    constructor
    · rintro rfl
      rfl
    · intro hl
      have hfirst : (nodesOf ir)[globalBlock]? = some globalNode := rfl
      obtain ⟨hlt, he⟩ := List.getElem?_eq_some_iff.mp hl
      obtain ⟨hlt', he'⟩ := List.getElem?_eq_some_iff.mp hfirst
      exact (List.Nodup.getElem_inj_iff hnodup).mp (he'.trans he.symm)
  | entry f =>
    rw [locate?, entry?, hg]
    exact findIdx?_of_nodup hnodup fun n hn => (isAt_iff hs hh hn).1 f
  | exit f =>
    rw [locate?, exit?, hg]
    exact findIdx?_of_nodup hnodup fun n hn => (isAt_iff hs hh hn).2.1 f
  | start v =>
    rw [locate?, startOf?, hg]
    exact findIdx?_of_nodup hnodup fun n hn => (isAt_iff hs hh hn).2.2.1 v
  | finish v =>
    rw [locate?, endOf?, hg]
    exact findIdx?_of_nodup hnodup fun n hn => (isAt_iff hs hh hn).2.2.2 v

/-- Points at one location are one point, unless an instruction that is no call starts and ends there. -/
theorem eq_of_locate? {p q : Point} {l : LocationId} (hp : g.locate? p = some l)
    (hq : g.locate? q = some l) :
    p = q ∨ ∃ v, ir.isCall v = false ∧
      ((p = .start v ∧ q = .finish v) ∨ (p = .finish v ∧ q = .start v)) := by
  obtain ⟨n, hpn, hn⟩ := (locate?_eq_some_iff hs hh hg).mp hp
  obtain ⟨m, hqm, hm⟩ := (locate?_eq_some_iff hs hh hg).mp hq
  cases hn.symm.trans hm
  exact Point.eq_of_node? hpn hqm

theorem exists_locate? {p : Point} {n : Node} (hp : p.node? ir = some n) (hn : n ∈ nodesOf ir) :
    ∃ l, g.locate? p = some l ∧ g.node? l = some n := by
  obtain ⟨l, hl⟩ := List.mem_iff_getElem?.mp hn
  have hnode : g.node? l = some n := by simpa [node?, hg] using hl
  exact ⟨l, (locate?_eq_some_iff hs hh hg).mpr ⟨n, hp, hnode⟩, hnode⟩

/-- A function with a body has an entry and an exit. -/
theorem doors_of_defined {f : Function} (hf : f ∈ ir.defined) :
    (∃ l, g.entry? f.id = some l ∧ g.node? l = some ⟨.funEntry, some f.id, none⟩) ∧
      ∃ l, g.exit? f.id = some l ∧ g.node? l = some ⟨.funExit, some f.id, none⟩ := by
  refine ⟨exists_locate? hs hh hg (p := .entry f.id) rfl ?_,
    exists_locate? hs hh hg (p := .exit f.id) rfl ?_⟩
  · exact (mem_nodesOf hs hh).mpr (.inr (.inl ⟨f, hf, .inl rfl⟩))
  · exact (mem_nodesOf hs hh).mpr (.inr (.inl ⟨f, hf, .inr rfl⟩))

/-- Only functions with a body have an entry and an exit. -/
theorem hasBody_of_door {p : Point} {f : FunctionId} (hp : p = .entry f ∨ p = .exit f)
    {l : LocationId} (hl : g.locate? p = some l) : ir.HasBody f := by
  obtain ⟨n, hpn, hn⟩ := (locate?_eq_some_iff hs hh hg).mp hl
  have hm := mem_nodesOf_of_node? hg hn
  have hdoor : n.function = some f ∧ n.value = none := by
    rcases hp with rfl | rfl <;> cases hpn <;> exact ⟨rfl, rfl⟩
  rw [Ir.hasBody_iff hs]
  rcases (mem_nodesOf hs hh).mp hm with rfl | ⟨function, hf, rfl | rfl⟩ | ⟨_, v, _, hm⟩
  · cases hdoor.1
  · exact ⟨function, hf, Option.some.inj hdoor.1⟩
  · exact ⟨function, hf, Option.some.inj hdoor.1⟩
  · cases hdoor.2.symm.trans (mem_instructionNodes.mp hm).2.1

/-- An instruction starts and ends somewhere, a call at two nodes of its own. -/
theorem sides_of_instruction {v : ValueId} (hv : ir.IsInstruction v) :
    ∃ f, ir.ownerOf? v = some f ∧
      (∃ l, g.startOf? v = some l ∧
        g.node? l = some ⟨if ir.isCall v then .call else .intraBlock, some f, some v⟩) ∧
      ∃ l, g.endOf? v = some l ∧
        g.node? l = some ⟨if ir.isCall v then .return else .intraBlock, some f, some v⟩ := by
  obtain ⟨f, hf⟩ := Ir.owner_of_instruction hs hh hv
  have hnode : ∀ n ∈ instructionNodes ir f v, n ∈ nodesOf ir := fun n hn =>
    (mem_nodesOf hs hh).mpr (.inr (.inr ⟨f, v, hf, hn⟩))
  refine ⟨f, hf, exists_locate? hs hh hg (p := .start v) ?_ (hnode _ ?_),
    exists_locate? hs hh hg (p := .finish v) ?_ (hnode _ ?_)⟩
  · simp [Point.node?, hf]
  · rw [mem_instructionNodes]
    grind
  · simp [Point.node?, hf]
  · rw [mem_instructionNodes]
    grind

/-- An instruction that is no call ends where it starts. -/
theorem endOf?_eq_startOf? {v : ValueId} (hv : ir.isCall v = false) : g.endOf? v = g.startOf? v := by
  have hnode : (Point.finish v).node? ir = (Point.start v).node? ir := by simp [Point.node?, hv]
  ext l
  change g.locate? (.finish v) = some l ↔ g.locate? (.start v) = some l
  rw [locate?_eq_some_iff hs hh hg, locate?_eq_some_iff hs hh hg, hnode]

end

end PointerTriage.ControlFlow
