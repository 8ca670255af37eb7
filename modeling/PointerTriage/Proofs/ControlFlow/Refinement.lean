import PointerTriage.Proofs.ControlFlow.Transfers
import PointerTriage.Proofs.Outcome.Order
import PointerTriage.Proofs.Snapshot.Layout

namespace PointerTriage

/-- A path through blocks, each of which is a successor of the one before. -/
def Ir.BlockPath (ir : Ir) : List Block → Prop :=
  Graph.Walk (· ∈ ir.blocks) fun b b' => b'.id ∈ b.successors

namespace ControlFlow

def Intra (g : ControlFlow) (l m : LocationId) : Prop := ⟨l, m, .intra⟩ ∈ g.edges

/-- The node belongs to an instruction. -/
def IsInstructionAt (g : ControlFlow) : LocationId → Prop := g.IsAt [.intraBlock, .call, .return]

/-- The locations that control passes at an instruction. -/
def passage (g : ControlFlow) (ir : Ir) (v : ValueId) : List LocationId :=
  (g.startOf? v).toList ++ if ir.isCall v then (g.endOf? v).toList else []

section

variable {ir : Ir} (hs : ir.tables.Sound) (hh : ir.tables.Housed) {g : ControlFlow}
  (hg : g.nodes = (nodesOf ir).toArray)
include hs hh hg

/-- An instruction is passed from its start to its end. -/
theorem ends_of_passage {v : ValueId} (hv : ir.IsInstruction v) :
    (g.passage ir v).head? = g.startOf? v ∧ (g.passage ir v).getLast? = g.endOf? v := by
  obtain ⟨_, _, ⟨l, hl, _⟩, ⟨m, hm, _⟩⟩ := sides_of_instruction hs hh hg hv
  cases hc : ir.isCall v with
  | true => simp [passage, hl, hm, hc]
  | false =>
    rw [endOf?_eq_startOf? hs hh hg hc]
    simp [passage, hl, hc]

theorem mem_passage {v : ValueId} {l : LocationId} :
    l ∈ g.passage ir v ↔ g.locate? (.start v) = some l ∨ g.locate? (.finish v) = some l := by
  cases hc : ir.isCall v with
  | true => simp [passage, hc, locate?]
  | false => simp [passage, hc, locate?, endOf?_eq_startOf? hs hh hg hc]

/-- The nodes of instructions are those that control passes at them. -/
theorem isInstructionAt_iff {l : LocationId} :
    g.IsInstructionAt l ↔ ∃ v, ir.IsInstruction v ∧ l ∈ g.passage ir v := by
  simp only [mem_passage hs hh hg]
  constructor
  · intro hex
    obtain ⟨n, hn, hkind⟩ := hex
    have hm := mem_nodesOf_of_node? hg hn
    rcases (mem_nodesOf hs hh).mp hm with rfl | ⟨f, _, rfl | rfl⟩ | ⟨f, v, howner, hm⟩
    · simp [globalNode] at hkind
    · simp at hkind
    · simp at hkind
    · refine ⟨v, Ir.isInstruction_of_ownerOf? howner, ?_⟩
      simp only [locate?_eq_some_iff hs hh hg, Point.node?, howner, Option.map_some,
        Option.some.injEq, exists_eq_left']
      obtain ⟨kind, _, _⟩ := n
      rw [mem_instructionNodes] at hm
      grind
  · intro hex
    obtain ⟨v, _, hl | hl⟩ := hex
    · obtain ⟨n, hn, hkind⟩ := isAt_start hl
      exact ⟨n, hn, by grind⟩
    · obtain ⟨n, hn, hkind⟩ := isAt_end hl
      exact ⟨n, hn, by grind⟩

/-- No location is passed at two instructions, or twice at one. -/
theorem apart_passages : Graph.Apart ir.IsInstruction (g.passage ir) where
  nodup := by
    intro v hv
    obtain ⟨_, _, ⟨l, hl, hnode⟩, ⟨m, hm, hnode'⟩⟩ := sides_of_instruction hs hh hg hv
    cases hc : ir.isCall v with
    | true =>
      have hne : l ≠ m := by
        rintro rfl
        simp [hnode, hc] at hnode'
      simpa [passage, hc, hl, hm] using hne
    | false => simp [passage, hc, hl]
  unique := by
    intro v w l _ _ hv hw
    rw [mem_passage hs hh hg] at hv hw
    rcases hv with hv | hv <;> rcases hw with hw | hw <;>
      have heq := eq_of_locate? hs hh hg hv hw <;> grind

end

section

variable {ir : Ir} (hs : ir.tables.Sound) (hh : ir.tables.Housed) {calls : CallGraph}
  {flow : ValueFlow} {g : ControlFlow} (h : ofIr ir calls flow = .ok g)
include hs hh h

theorem intra_iff {l m : LocationId} :
    g.Intra l m ↔ ∃ p q, Transfer ir calls .intra p q ∧ g.locate? p = some l ∧
      g.locate? q = some m :=
  mem_edges hs hh h

/-- Inside a function control goes from the end of an instruction to the start of the next. -/
theorem intra_iff_next {i j : ValueId} {l m : LocationId} (hl : g.endOf? i = some l)
    (hm : g.startOf? j = some m) : g.Intra l m ↔ ir.Next i j := by
  have hg := nodes_of_ofIr h
  rw [intra_iff hs hh h]
  constructor
  · intro hex
    obtain ⟨p, q, htransfer, hp, hq⟩ := hex
    have hpi := eq_of_locate? hs hh hg hp (q := .finish i) hl
    have hqj := eq_of_locate? hs hh hg hq (q := .start j) hm
    cases htransfer with
    | next hnext => simp_all
    | through hv => grind
    | enter => simp at hpi
    | leave => simp at hqj
    | root => simp at hpi
  · exact fun hnext => ⟨.finish i, .start j, .next hnext, hl, hm⟩

/-- Steps through the passages of instructions that follow one another are edges. -/
theorem intra_of_step {l m : LocationId}
    (hstep : Graph.Step ir.IsInstruction (g.passage ir) ir.Next l m) : g.Intra l m := by
  have hg := nodes_of_ofIr h
  cases hstep with
  | @within v _ _ hv hin =>
    cases hc : ir.isCall v with
    | true =>
      obtain ⟨_, _, ⟨l', hl, _⟩, ⟨m', hm, _⟩⟩ := sides_of_instruction hs hh hg hv
      have hpassage : g.passage ir v = [l', m'] := by simp [passage, hc, hl, hm]
      rw [hpassage] at hin
      have heq := hin.eq_of_length rfl
      simp only [List.cons.injEq, and_true] at heq
      obtain ⟨rfl, rfl⟩ := heq
      exact (intra_iff hs hh h).mpr ⟨.start v, .finish v, .through hc, hl, hm⟩
    | false =>
      -- One node alone has no two neighbours.
      have hlength := hin.length_le
      cases hl : g.startOf? v <;> simp [passage, hc, hl] at hlength
  | @across i j _ _ hi hj hnext hlast hhead =>
    rw [(ends_of_passage hs hh hg hi).2] at hlast
    rw [(ends_of_passage hs hh hg hj).1] at hhead
    exact (intra_iff_next hs hh h hlast hhead).mpr hnext

/-- From an instruction an edge leads on to its own end, to the next instruction or out of the
function. -/
theorem step_of_intra {l m : LocationId} (hl : g.IsInstructionAt l) (hedge : g.Intra l m) :
    Graph.Step ir.IsInstruction (g.passage ir) ir.Next l m ∨ ∃ f, g.exit? f = some m := by
  have hg := nodes_of_ofIr h
  obtain ⟨v, _, hv⟩ := (isInstructionAt_iff hs hh hg).mp hl
  rw [mem_passage hs hh hg] at hv
  obtain ⟨p, q, htransfer, hp, hq⟩ := (intra_iff hs hh h).mp hedge
  have hpv : ∀ p', g.locate? p' = some l → p = p' ∨ ∃ w, ir.isCall w = false ∧
      ((p = .start w ∧ p' = .finish w) ∨ (p = .finish w ∧ p' = .start w)) :=
    fun p' hp' => eq_of_locate? hs hh hg hp hp'
  cases htransfer with
  | next hnext =>
    obtain ⟨hi, hj⟩ := hnext.instructions hs hh
    refine .inl (.across hi hj hnext ?_ ?_)
    · exact (ends_of_passage hs hh hg hi).2.trans hp
    · exact (ends_of_passage hs hh hg hj).1.trans hq
  | @through w hw =>
    have hlocate : g.startOf? w = some l ∧ g.endOf? w = some m := ⟨hp, hq⟩
    refine .inl (.within (Ir.isInstruction_of_isCall hw) ?_)
    simp [passage, hw, hlocate]
  | leave => exact .inr ⟨_, hq⟩
  | enter => rcases hv with hv | hv <;> simpa using hpv _ hv
  | root => rcases hv with hv | hv <;> simpa using hpv _ hv

theorem not_intra_of_exit {f : FunctionId} {l m : LocationId} (hl : g.exit? f = some l) :
    ¬ g.Intra l m := by
  intro hedge
  obtain ⟨p, q, htransfer, hp, _⟩ := (intra_iff hs hh h).mp hedge
  have hpf := eq_of_locate? hs hh (nodes_of_ofIr h) hp (q := .exit f) hl
  cases htransfer <;> simp at hpf

omit h in
theorem not_isInstructionAt_of_exit (hg : g.nodes = (nodesOf ir).toArray) {f : FunctionId}
    {l : LocationId} (hl : g.exit? f = some l) : ¬ g.IsInstructionAt l := by
  intro hex
  obtain ⟨v, _, hv⟩ := (isInstructionAt_iff hs hh hg).mp hex
  rw [mem_passage hs hh hg] at hv
  rcases hv with hv | hv <;>
    simpa using eq_of_locate? hs hh hg hv (q := .exit f) hl

/-- A path between instructions leaves no function, since nothing leads on from an exit. -/
theorem isChain_step {l : LocationId} {path : List LocationId}
    (hchain : (l :: path).IsChain g.Intra) (hl : g.IsInstructionAt l)
    (hlast : g.IsInstructionAt ((l :: path).getLast (by simp))) :
    (l :: path).IsChain (Graph.Step ir.IsInstruction (g.passage ir) ir.Next) := by
  have hg := nodes_of_ofIr h
  induction path generalizing l with
  | nil => exact List.isChain_singleton l
  | cons m path ih =>
    obtain ⟨hedge, hchain⟩ := List.isChain_cons_cons.mp hchain
    rw [List.getLast_cons (by simp)] at hlast
    rcases step_of_intra hs hh h hl hedge with hstep | ⟨f, hexit⟩
    · have hm : g.IsInstructionAt m := by
        refine (isInstructionAt_iff hs hh hg).mpr ?_
        cases hstep with
        | @within v _ _ hv hin => exact ⟨v, hv, hin.subset (by simp)⟩
        | @across i j _ _ hi hj hnext _ hhead => exact ⟨j, hj, List.mem_of_head? hhead⟩
      exact List.isChain_cons_cons.mpr ⟨hstep, ih hchain hm hlast⟩
    · cases path with
      | nil => exact absurd hlast (not_isInstructionAt_of_exit hs hh hg hexit)
      | cons m' path =>
        exact absurd (List.isChain_cons_cons.mp hchain).1 (not_intra_of_exit hs hh h hexit)

omit h in
theorem apart_blocks : Graph.Apart (· ∈ ir.blocks) Block.instructions where
  nodup b hb := hh.instructions b (Ir.mem_blocks.mp hb)
  unique _ _ _ hb hb' hv hv' := Ir.eq_of_mem_instructions hs hh hb hb' hv hv'

theorem instructions_ne_nil {b : Block} (hb : b ∈ ir.blocks) : b.instructions ≠ [] := by
  obtain ⟨f, hf, hbody⟩ := (Ir.mem_blocks_iff hs hh).mp hb
  have hfault := List.findSome?_eq_none_iff.mp (ofIr_ok h).1 f hf
  rw [Option.map_eq_none_iff, List.find?_eq_none] at hfault
  simpa using hfault b hbody

/-- What a path through blocks passes is a path in the graph. -/
theorem isChain_of_blockPath {bs : List Block} (hpath : ir.BlockPath bs) :
    ((bs.flatMap Block.instructions).flatMap (g.passage ir)).IsChain g.Intra := by
  have hg := nodes_of_ofIr h
  have hwalk : Graph.Walk ir.IsInstruction ir.Next (bs.flatMap Block.instructions) := by
    refine ⟨?_, hpath.isChain_flatMap fun b hb => instructions_ne_nil hs hh h hb⟩
    intro v hv
    obtain ⟨b, hb, hv⟩ := List.mem_flatMap.mp hv
    exact (Ir.instruction_of_mem hs hh (hpath.1 b hb) hv).1
  have hne : ∀ v, ir.IsInstruction v → g.passage ir v ≠ [] := by
    intro v hv
    obtain ⟨_, _, ⟨l, hl, _⟩, _⟩ := sides_of_instruction hs hh hg hv
    simp [passage, hl]
  exact (hwalk.isChain_flatMap hne).imp fun l m => intra_of_step hs hh h

/-- A path between instructions is passed by a path through blocks. -/
theorem exists_blockPath {path : List LocationId} (hchain : path.IsChain g.Intra)
    (hfirst : ∀ l ∈ path.head?, g.IsInstructionAt l)
    (hlast : ∀ l ∈ path.getLast?, g.IsInstructionAt l) :
    ∃ bs, ir.BlockPath bs ∧
      path <:+: (bs.flatMap Block.instructions).flatMap (g.passage ir) := by
  have hg := nodes_of_ofIr h
  have hsteps : path.IsChain (Graph.Step ir.IsInstruction (g.passage ir) ir.Next) := by
    cases path with
    | nil => exact List.isChain_nil
    | cons l path =>
      exact isChain_step hs hh h hchain (hfirst l rfl)
        (hlast _ (List.getLast?_eq_some_getLast (by simp)))
  obtain ⟨vs, hvs, hpath⟩ := (apart_passages hs hh hg).exists_walk_around hsteps
    fun l hl => (isInstructionAt_iff hs hh hg).mp (hfirst l hl)
  obtain ⟨bs, hbs, hinfix⟩ := (apart_blocks hs hh).exists_walk_around hvs.2
    fun v hv => Ir.block_of_instruction hs hh (hvs.1 v (List.mem_of_head? hv))
  obtain ⟨before, after, heq⟩ := hinfix
  refine ⟨bs, hbs, List.IsInfix.trans hpath ?_⟩
  rw [← heq]
  simp only [List.flatMap_append]
  exact ⟨_, _, rfl⟩

end

/-- The graph refines the blocks of the program: it joins the ends and starts of instructions that
follow one another, and its paths between instructions are those through blocks. -/
structure RefinesBlocks (g : ControlFlow) (ir : Ir) : Prop where
  /-- A call has a node before it and one after it. -/
  call : ∀ v, ir.isCall v = true → ∃ f l m, g.startOf? v = some l ∧ g.endOf? v = some m ∧
    g.node? l = some ⟨.call, some f, some v⟩ ∧ g.node? m = some ⟨.return, some f, some v⟩ ∧
    g.passage ir v = [l, m]
  /-- Any other instruction has one node. -/
  statement : ∀ v, ir.IsInstruction v → ir.isCall v = false → ∃ f l, g.startOf? v = some l ∧
    g.endOf? v = some l ∧ g.node? l = some ⟨.intraBlock, some f, some v⟩ ∧ g.passage ir v = [l]
  step : ∀ i j l m, g.endOf? i = some l → g.startOf? j = some m → (g.Intra l m ↔ ir.Next i j)
  forward : ∀ bs, ir.BlockPath bs →
    ((bs.flatMap Block.instructions).flatMap (g.passage ir)).IsChain g.Intra
  backward : ∀ path, path.IsChain g.Intra → (∀ l ∈ path.head?, g.IsInstructionAt l) →
    (∀ l ∈ path.getLast?, g.IsInstructionAt l) →
    ∃ bs, ir.BlockPath bs ∧ path <:+: (bs.flatMap Block.instructions).flatMap (g.passage ir)

end ControlFlow

/-- The control-flow graph of a program from a snapshot refines its blocks. -/
theorem ControlFlow.refinesBlocks_of_build {s : Snapshot} {b : Built} (h : s.build = .ok b) :
    b.program.control.RefinesBlocks b.program.ir := by
  obtain ⟨_, _, _, _, hparts, hs, hh⟩ := Snapshot.layout_of_build h
  have hg := nodes_of_ofIr hparts.control
  constructor
  case call =>
    intro v hv
    obtain ⟨f, _, ⟨l, hl, hnode⟩, ⟨m, hm, hnode'⟩⟩ :=
      sides_of_instruction hs hh hg (Ir.isInstruction_of_isCall hv)
    simp only [hv, if_true] at hnode hnode'
    exact ⟨f, l, m, hl, hm, hnode, hnode', by simp [passage, hv, hl, hm]⟩
  case statement =>
    intro v hv hc
    obtain ⟨f, _, ⟨l, hl, hnode⟩, _⟩ := sides_of_instruction hs hh hg hv
    simp only [hc, Bool.false_eq_true, if_false] at hnode
    refine ⟨f, l, hl, ?_, hnode, by simp [passage, hc, hl]⟩
    rw [endOf?_eq_startOf? hs hh hg hc]
    exact hl
  case step =>
    intro i j l m hl hm
    exact intra_iff_next hs hh hparts.control hl hm
  case forward => exact fun bs hbs => isChain_of_blockPath hs hh hparts.control hbs
  case backward =>
    intro path hchain hfirst hlast
    exact exists_blockPath hs hh hparts.control hchain hfirst hlast

/-- In `dispatch` the branch 13 goes back to the load 10 at the start of its block, the branch 9 does
not go to the return 14, and the path over the call 11 after the branch back is one through blocks. -/
theorem ControlFlow.refinesBlocks_dispatch :
    ∃ b, dispatch.build = .ok b ∧ b.program.control.RefinesBlocks b.program.ir ∧
      b.program.ir.Next 13 10 ∧ ¬ b.program.ir.Next 9 14 ∧
      ∃ bs, b.program.ir.BlockPath bs ∧ [17, 13, 14, 15] <:+:
        (bs.flatMap Block.instructions).flatMap (b.program.control.passage b.program.ir) := by
  obtain ⟨b, hb⟩ := exists_ok_of_isOk (x := dispatch.build) (by decide +kernel)
  have hrefines := refinesBlocks_of_build hb
  have hsides : (dispatch.build.toOption.map fun b => (b.program.control.endOf? 13,
      b.program.control.startOf? 10, b.program.control.endOf? 9,
      b.program.control.startOf? 14)) = some (some 17, some 13, some 12, some 18) := by
    decide +kernel
  have hedges : (dispatch.build.toOption.map fun b =>
      [(17, 13), (13, 14), (14, 15), (12, 18)].map fun ends =>
        decide (⟨ends.1, ends.2, .intra⟩ ∈ b.program.control.edges)) =
      some [true, true, true, false] := by decide +kernel
  have hkinds : (dispatch.build.toOption.map fun b =>
      ((b.program.control.node? 17).map (·.kind), (b.program.control.node? 15).map (·.kind))) =
      some (some .intraBlock, some .return) := by decide +kernel
  rw [hb] at hsides hedges hkinds
  simp only [Except.toOption, Option.map_some, Option.some.injEq, Prod.mk.injEq, List.map_cons,
    List.map_nil, List.cons.injEq, decide_eq_true_eq, decide_eq_false_iff_not] at hsides hedges hkinds
  obtain ⟨hend, hstart, hend', hstart'⟩ := hsides
  obtain ⟨hback, hcall, hover, hno, _⟩ := hedges
  obtain ⟨hfirst, hlast⟩ := hkinds
  obtain ⟨n, hn, hkind⟩ := Option.map_eq_some_iff.mp hfirst
  obtain ⟨n', hn', hkind'⟩ := Option.map_eq_some_iff.mp hlast
  refine ⟨b, hb, hrefines, (hrefines.step 13 10 17 13 hend hstart).mp hback,
    fun hnext => hno ((hrefines.step 9 14 12 18 hend' hstart').mpr hnext), ?_⟩
  refine hrefines.backward [17, 13, 14, 15] ?_ ?_ ?_
  · simpa [Intra] using ⟨hback, hcall, hover⟩
  · simpa [IsInstructionAt, IsAt] using ⟨n, hn, by simp [hkind]⟩
  · simpa [IsInstructionAt, IsAt] using ⟨n', hn', by simp [hkind']⟩

end PointerTriage
