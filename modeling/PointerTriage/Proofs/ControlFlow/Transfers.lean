import PointerTriage.Proofs.ControlFlow.Points
import PointerTriage.Proofs.Graph.Walks

namespace PointerTriage

/-- The second instruction comes right after the first in a block, or it is the first of a block that
follows the one of which the first is the last. -/
def Ir.Next (ir : Ir) : ValueId → ValueId → Prop :=
  Graph.Step (· ∈ ir.blocks) Block.instructions fun b b' => b'.id ∈ b.successors

theorem Ir.Next.instructions {ir : Ir} (hs : ir.tables.Sound) (hh : ir.tables.Housed)
    {i j : ValueId} (h : ir.Next i j) : ir.IsInstruction i ∧ ir.IsInstruction j := by
  cases h with
  | @within b _ _ hb hin =>
    have hi : i ∈ b.instructions := hin.subset (by simp)
    have hj : j ∈ b.instructions := hin.subset (by simp)
    exact ⟨(instruction_of_mem hs hh hb hi).1, (instruction_of_mem hs hh hb hj).1⟩
  | across hb hb' _ hi hj =>
    exact ⟨(instruction_of_mem hs hh hb (List.mem_of_getLast? hi)).1,
      (instruction_of_mem hs hh hb' (List.mem_of_head? hj)).1⟩

namespace ControlFlow

inductive Transfer (ir : Ir) (calls : CallGraph) : EdgeKind → Point → Point → Prop where
  | next {i j : ValueId} (h : ir.Next i j) : Transfer ir calls .intra (.finish i) (.start j)
  | enter {f : Function} {b : Block} {i : ValueId} (hf : f ∈ ir.defined)
      (hb : (ir.body f).head? = some b) (hi : b.instructions.head? = some i) :
      Transfer ir calls .intra (.entry f.id) (.start i)
  | through {v : ValueId} (hv : ir.isCall v = true) :
      Transfer ir calls .intra (.start v) (.finish v)
  | call {v : ValueId} {f : FunctionId} (hv : ir.isCall v = true) (hf : f ∈ calls.callees v) :
      Transfer ir calls .call (.start v) (.entry f)
  | return {v : ValueId} {f : FunctionId} (hv : ir.isCall v = true) (hf : f ∈ calls.callees v) :
      Transfer ir calls .return (.exit f) (.finish v)
  | leave {v : ValueId} {f : FunctionId} (hv : ir.opcode? v = some .ret)
      (hf : ir.ownerOf? v = some f) : Transfer ir calls .intra (.finish v) (.exit f)
  | root {f : Function} (hf : f ∈ ir.defined) (hc : isCalled ir calls f.id = false) :
      Transfer ir calls .intra .globals (.entry f.id)

/-- The edge between the locations of two points. -/
def connect (g : ControlFlow) (kind : EdgeKind) (p q : Point) : List Edge :=
  join kind (g.locate? p) (g.locate? q)

/-- The graph before it has edges. -/
def unlinked (ir : Ir) : ControlFlow := ⟨(nodesOf ir).toArray, [], []⟩

/-- The edges that a program asks for. -/
def requested (ir : Ir) (calls : CallGraph) : List Edge :=
  let g := unlinked ir
  ir.defined.flatMap (g.functionEdges ir) ++ ir.blocks.flatMap (g.successorEdges ir) ++
    ir.placed.flatMap (g.transferEdges ir calls) ++ g.rootEdges ir calls

theorem ofIr_ok {ir : Ir} {calls : CallGraph} {flow : ValueFlow} {g : ControlFlow}
    (h : ofIr ir calls flow = .ok g) :
    emptyBlock? ir = none ∧ g =
      { unlinked ir with
        edges := Graph.addEdges (unlinked ir).nodes.size [] (requested ir calls)
        places := (unlinked ir).placesOf ir flow } := by
  unfold ofIr at h
  split at h
  · cases h
  · rename_i hempty
    cases h
    exact ⟨hempty, rfl⟩

theorem nodes_of_ofIr {ir : Ir} {calls : CallGraph} {flow : ValueFlow} {g : ControlFlow}
    (h : ofIr ir calls flow = .ok g) : g.nodes = (nodesOf ir).toArray := by
  obtain ⟨_, rfl⟩ := ofIr_ok h
  rfl

/-- Adjacent members of a list. -/
theorem mem_zip_tail_iff {vs : List ValueId} {i j : ValueId} :
    (i, j) ∈ vs.zip vs.tail ↔ [i, j] <:+: vs := by
  induction vs with
  | nil => simp
  | cons v vs ih =>
    rw [List.infix_cons_iff]
    cases vs with
    | nil => simp
    | cons w vs =>
      rw [List.tail_cons, List.zip_cons_cons, List.mem_cons, Prod.mk.injEq, ← ih, List.tail_cons]
      simp

section

variable {ir : Ir} {calls : CallGraph} {g : ControlFlow} {e : Edge}

theorem mem_blockEdges {b : Block} :
    e ∈ g.blockEdges b ↔
      ∃ i j, [i, j] <:+: b.instructions ∧ e ∈ g.connect .intra (.finish i) (.start j) := by
  simp only [blockEdges, List.mem_flatMap, Prod.exists, mem_zip_tail_iff]
  rfl

theorem mem_entryEdge {f : Function} :
    e ∈ join .intra (g.entry? f.id) ((ir.body f).head?.bind g.firstOf?) ↔
      ∃ b i, (ir.body f).head? = some b ∧ b.instructions.head? = some i ∧
        e ∈ g.connect .intra (.entry f.id) (.start i) := by
  simp only [connect, mem_join, firstOf?, Option.bind_eq_some_iff, locate?]
  grind

theorem mem_successorEdges (hs : ir.tables.Sound) {b : Block} :
    e ∈ g.successorEdges ir b ↔
      ∃ b' ∈ ir.blocks, b'.id ∈ b.successors ∧ ∃ i j, b.instructions.getLast? = some i ∧
        b'.instructions.head? = some j ∧ e ∈ g.connect .intra (.finish i) (.start j) := by
  simp only [successorEdges, List.mem_flatMap, connect, mem_join, firstOf?, lastOf?,
    Option.bind_eq_some_iff, locate?]
  constructor
  · intro hex
    obtain ⟨s, hs', ⟨i, hi, hsource⟩, ⟨b', hb', j, hj, htarget⟩, hkind⟩ := hex
    have hid : b'.id = s := hs.block s b' hb'
    exact ⟨b', Ir.mem_blocks.mpr (Array.mem_of_getElem? hb'), hid ▸ hs', i, j, hi, hj, hsource,
      htarget, hkind⟩
  · intro hex
    obtain ⟨b', hb', hs', i, j, hi, hj, hsource, htarget, hkind⟩ := hex
    have hblock : ir.block? b'.id = some b' := getElem?_id_of_mem hs.block (Ir.mem_blocks.mp hb')
    exact ⟨b'.id, hs', ⟨i, hi, hsource⟩, ⟨b', hblock, j, hj, htarget⟩, hkind⟩

theorem mem_transferEdges {v : ValueId} :
    e ∈ g.transferEdges ir calls v ↔
      (ir.isCall v = true ∧ (e ∈ g.connect .intra (.start v) (.finish v) ∨
        ∃ f ∈ calls.callees v, e ∈ g.connect .call (.start v) (.entry f) ∨
          e ∈ g.connect .return (.exit f) (.finish v))) ∨
      ir.opcode? v = some .ret ∧ ∃ f, ir.ownerOf? v = some f ∧
        e ∈ g.connect .intra (.finish v) (.exit f) := by
  unfold transferEdges
  split
  · rename_i callee ho
    simp only [Ir.isCall, ho, Option.any_some, Opcode.isCall, true_and, List.mem_append,
      List.mem_flatMap, calleeEdges]
    simp [connect, locate?]
  · rename_i ho
    simp only [Ir.isCall, ho, Option.any_some, Opcode.isCall, Bool.false_eq_true, false_and,
      false_or, true_and, connect, mem_join, Option.bind_eq_some_iff, locate?]
    grind
  · rename_i hcall hret
    cases ho : ir.opcode? v with
    | none => simp [Ir.isCall, ho]
    | some opcode =>
      cases opcode <;> simp_all [Ir.isCall, Opcode.isCall]

theorem mem_rootEdges :
    e ∈ g.rootEdges ir calls ↔
      ∃ f ∈ ir.defined, isCalled ir calls f.id = false ∧
        e ∈ g.connect .intra .globals (.entry f.id) := by
  simp only [rootEdges, List.mem_flatMap, List.mem_filter, Bool.not_eq_true', and_assoc]
  rfl

variable (hs : ir.tables.Sound) (hh : ir.tables.Housed)
include hs hh

/-- The edges that are asked for connect the ends of transfers. -/
theorem mem_requested :
    e ∈ requested ir calls ↔
      ∃ kind p q, Transfer ir calls kind p q ∧ e ∈ (unlinked ir).connect kind p q := by
  simp only [requested, functionEdges, List.mem_append, List.mem_flatMap, mem_blockEdges,
    mem_entryEdge, mem_successorEdges hs, Ir.mem_placed hs hh, mem_transferEdges, mem_rootEdges]
  constructor
  · intro hor
    rcases hor with
      ((⟨f, hf, ⟨b, hb, i, j, hij, he⟩ | ⟨b, i, hb, hi, he⟩⟩ |
        ⟨b, hb, b', hb', hs', i, j, hi, hj, he⟩) |
      ⟨v, _, ⟨hcall, he | ⟨f, hf, he | he⟩⟩ | ⟨ho, f, hf, he⟩⟩) | ⟨f, hf, hc, he⟩
    · exact ⟨_, _, _, .next (.within ((Ir.mem_body hs).mp hb).1 hij), he⟩
    · exact ⟨_, _, _, .enter hf hb hi, he⟩
    · exact ⟨_, _, _, .next (.across hb hb' hs' hi hj), he⟩
    · exact ⟨_, _, _, .through hcall, he⟩
    · exact ⟨_, _, _, .call hcall hf, he⟩
    · exact ⟨_, _, _, .return hcall hf, he⟩
    · exact ⟨_, _, _, .leave ho hf, he⟩
    · exact ⟨_, _, _, .root hf hc, he⟩
  · intro hex
    obtain ⟨_, _, _, htransfer, he⟩ := hex
    cases htransfer with
    | next hnext =>
      cases hnext with
      | @within b _ _ hb hij =>
        obtain ⟨f, hf, hbody⟩ := (Ir.mem_blocks_iff hs hh).mp hb
        exact .inl (.inl (.inl ⟨f, hf, .inl ⟨b, hbody, _, _, hij, he⟩⟩))
      | @across b b' _ _ hb hb' hs' hi hj =>
        exact .inl (.inl (.inr ⟨b, hb, b', hb', hs', _, _, hi, hj, he⟩))
    | @enter f b i hf hb hi => exact .inl (.inl (.inl ⟨f, hf, .inr ⟨b, i, hb, hi, he⟩⟩))
    | @through v hv => exact .inl (.inr ⟨v, Ir.isInstruction_of_isCall hv, .inl ⟨hv, .inl he⟩⟩)
    | @call v f hv hf =>
      exact .inl (.inr ⟨v, Ir.isInstruction_of_isCall hv, .inl ⟨hv, .inr ⟨f, hf, .inl he⟩⟩⟩)
    | @«return» v f hv hf =>
      exact .inl (.inr ⟨v, Ir.isInstruction_of_isCall hv, .inl ⟨hv, .inr ⟨f, hf, .inr he⟩⟩⟩)
    | @leave v f hv hf => exact .inl (.inr ⟨v, ⟨_, hv⟩, .inr ⟨hv, f, hf, he⟩⟩)
    | @root f hf hc => exact .inr ⟨f, hf, hc, he⟩

/-- The edges of a program lead from point to point along its transfers of control. -/
theorem mem_edges {flow : ValueFlow} (h : ofIr ir calls flow = .ok g) :
    e ∈ g.edges ↔ ∃ p q, Transfer ir calls e.kind p q ∧ g.locate? p = some e.source ∧
      g.locate? q = some e.target := by
  -- Points are located by nodes, which the graph without edges has too.
  have hlocate : ∀ p, g.locate? p = (unlinked ir).locate? p := locate?_congr (nodes_of_ofIr h)
  simp only [hlocate]
  obtain ⟨_, rfl⟩ := ofIr_ok h
  constructor
  · intro he
    obtain ⟨he, _⟩ := (Graph.mem_addEdges.mp he).resolve_left List.not_mem_nil
    obtain ⟨kind, p, q, htransfer, he⟩ := (mem_requested hs hh).mp he
    obtain ⟨hp, hq, rfl⟩ := mem_join.mp he
    exact ⟨p, q, htransfer, hp, hq⟩
  · intro hex
    obtain ⟨p, q, htransfer, hp, hq⟩ := hex
    have hin : ∀ p l, (unlinked ir).locate? p = some l → l < (unlinked ir).nodes.size := by
      intro p l hl
      obtain ⟨n, _, hn⟩ := (locate?_eq_some_iff hs hh rfl).mp hl
      exact (Array.getElem?_eq_some_iff.mp hn).1
    refine Graph.mem_addEdges.mpr (.inr ⟨?_, hin p _ hp, hin q _ hq⟩)
    exact (mem_requested hs hh).mpr ⟨e.kind, p, q, htransfer, mem_join.mpr ⟨hp, hq, rfl⟩⟩

end

end ControlFlow

end PointerTriage
