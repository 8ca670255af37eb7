import PointerTriage.Proofs.CallGraph
import PointerTriage.Proofs.Program.Parts

namespace PointerTriage.ValueFlow

inductive Flow (ir : Ir) (host : HostFacts) (pointsTo : PointsTo) :
    EdgeKind → ValueId → ValueId → Prop where
  | operand {v : Value} {opcode : Opcode} {a : ValueId} (hv : v ∈ ir.values)
      (ho : v.opcode? = some opcode) (hc : opcode.isCall = false) (ha : a ∈ v.operands) :
      Flow ir host pointsTo .direct a v.id
  | argument {call : Value} {f : FunctionId} {function : Function} {i : Nat} {a p : ValueId}
      (hc : call ∈ ir.values) (calls : ir.Calls host call f)
      (callee : ir.function? f = some function) (body : function.isDeclaration = false)
      (argument : call.operands[i]? = some a) (param : function.params[i]? = some p) :
      Flow ir host pointsTo .direct a p
  | result {call r : Value} {f : FunctionId} {function : Function}
      (hc : call ∈ ir.values) (calls : ir.Calls host call f)
      (callee : ir.function? f = some function) (body : function.isDeclaration = false)
      (hr : r ∈ ir.values) (returns : ir.ReturnsFrom r f) :
      Flow ir host pointsTo .direct r.id call.id
  | memory {store load : Value} {p q : ValueId} (hs : store ∈ ir.values)
      (stores : store.opcode? = some .store) (target : store.operands[1]? = some p)
      (hl : load ∈ ir.values) (loads : load.opcode? = some .load)
      (source : load.operands[0]? = some q) (aliases : pointsTo.mayAlias p q = true) :
      Flow ir host pointsTo .indirect store.id load.id
  | host {a b : ValueId} (h : (a, b) ∈ host.flows) : Flow ir host pointsTo .indirect a b

section

variable {g : ValueFlow} {ir : Ir} {host : HostFacts} {pointsTo : PointsTo} {calls : CallGraph}

theorem mem_calleeEdges {call : Value} {f : FunctionId} {e : Edge} :
    e ∈ g.calleeEdges ir call f ↔
      ∃ function, ir.function? f = some function ∧ function.isDeclaration = false ∧
        ((∃ (i : Nat) (a p : ValueId), call.operands[i]? = some a ∧ function.params[i]? = some p ∧
            e ∈ g.link .direct a p) ∨
          ∃ r ∈ ir.values, ir.ReturnsFrom r f ∧ e ∈ g.link .direct r.id call.id) := by
  unfold calleeEdges
  cases ir.function? f with
  | none => simp
  | some function =>
    cases hd : function.isDeclaration with
    | true => simp [hd]
    | false =>
      simp only [hd, Bool.false_eq_true, if_false, List.mem_append, List.mem_flatMap, Prod.exists,
        Ir.mem_rets, and_assoc, Option.some.injEq, exists_eq_left', true_and]
      refine or_congr_left ?_
      constructor
      · intro hex
        obtain ⟨a, p, hm, he⟩ := hex
        obtain ⟨i, ha, hp⟩ := mem_zip_iff.mp hm
        exact ⟨i, a, p, ha, hp, he⟩
      · intro hex
        obtain ⟨i, a, p, ha, hp, he⟩ := hex
        exact ⟨a, p, mem_zip_iff.mpr ⟨i, ha, hp⟩, he⟩

/-- The direct edges that one value asks for, under a call graph that knows what it may reach. -/
theorem mem_directEdges {v : Value} {e : Edge}
    (hcallees : ∀ callee, v.opcode? = some (.call callee) →
      ∀ f, f ∈ calls.callees v.id ↔ host.MayReach v f) :
    e ∈ g.directEdges ir host.allocators calls v ↔
      (∃ opcode, v.opcode? = some opcode ∧ opcode.isCall = false ∧
        ∃ a ∈ v.operands, e ∈ g.link .direct a v.id) ∨
      ∃ f, ir.Calls host v f ∧ e ∈ g.calleeEdges ir v f := by
  unfold directEdges
  split
  · rename_i callee ho
    have hnot : ¬∃ opcode, v.opcode? = some opcode ∧ opcode.isCall = false ∧
        ∃ a ∈ v.operands, e ∈ g.link .direct a v.id := by
      intro hex
      obtain ⟨opcode, ho', hcall, _⟩ := hex
      rw [ho] at ho'
      cases ho'
      cases hcall
    rw [or_iff_right hnot]
    split
    · rename_i ha
      simp [Ir.Calls, ha]
    · rename_i ha
      have ha : ir.allocates host.allocators v.id = false := by simpa using ha
      simp only [List.mem_flatMap, hcallees callee ho, Ir.Calls, ha, true_and]
  · rename_i opcode hcall ho
    have hnot : ¬∃ f, ir.Calls host v f ∧ e ∈ g.calleeEdges ir v f := by
      intro hex
      obtain ⟨f, ⟨_, callee, ho', _⟩, _⟩ := hex
      rw [ho] at ho'
      exact hcall callee (Option.some.inj ho')
    have hc : opcode.isCall = false := by
      cases opcode with
      | call callee => exact absurd rfl (hcall callee)
      | _ => rfl
    rw [or_iff_left hnot, List.mem_flatMap]
    constructor
    · exact fun h => ⟨opcode, ho, hc, h⟩
    · intro hex
      obtain ⟨_, _, _, h⟩ := hex
      exact h
  · rename_i ho
    simp [ho, Ir.Calls, HostFacts.MayReach]

theorem map_operand_eq_some_iff {v : Value} {i : Nat} {s p : ValueId} :
    (v.operands[i]?).map (v.id, ·) = some (s, p) ↔ v.operands[i]? = some p ∧ v.id = s := by
  rw [Option.map_eq_some_iff]
  constructor
  · intro hex
    obtain ⟨p', hp, he⟩ := hex
    cases he
    exact ⟨hp, rfl⟩
  · intro hex
    obtain ⟨hp, rfl⟩ := hex
    exact ⟨p, hp, rfl⟩

theorem mem_storesOf {s p : ValueId} :
    (s, p) ∈ storesOf ir ↔
      ∃ v ∈ ir.values, v.opcode? = some .store ∧ v.operands[1]? = some p ∧ v.id = s := by
  simp only [storesOf, List.mem_filterMap]
  refine exists_congr fun v => and_congr_right fun _ => ?_
  split
  · rename_i ho
    rw [map_operand_eq_some_iff, and_iff_right ho]
  · rename_i ho
    simp only [reduceCtorEq, false_iff]
    exact fun h => ho h.1

theorem mem_loadsOf {l q : ValueId} :
    (l, q) ∈ loadsOf ir ↔
      ∃ v ∈ ir.values, v.opcode? = some .load ∧ v.operands[0]? = some q ∧ v.id = l := by
  simp only [loadsOf, List.mem_filterMap]
  refine exists_congr fun v => and_congr_right fun _ => ?_
  split
  · rename_i ho
    rw [map_operand_eq_some_iff, and_iff_right ho]
  · rename_i ho
    simp only [reduceCtorEq, false_iff]
    exact fun h => ho h.1

theorem mem_memoryEdges {e : Edge} :
    e ∈ g.memoryEdges ir pointsTo ↔
      ∃ store ∈ ir.values, store.opcode? = some .store ∧ ∃ p, store.operands[1]? = some p ∧
      ∃ load ∈ ir.values, load.opcode? = some .load ∧ ∃ q, load.operands[0]? = some q ∧
        pointsTo.mayAlias p q = true ∧ e ∈ g.link .indirect store.id load.id := by
  simp only [memoryEdges, List.mem_flatMap, List.mem_filter, Prod.exists]
  constructor
  · intro hex
    obtain ⟨_, p, hstore, _, q, ⟨hload, halias⟩, he⟩ := hex
    obtain ⟨store, hs, hso, hp, rfl⟩ := mem_storesOf.mp hstore
    obtain ⟨load, hl, hlo, hq, rfl⟩ := mem_loadsOf.mp hload
    exact ⟨store, hs, hso, p, hp, load, hl, hlo, q, hq, halias, he⟩
  · intro hex
    obtain ⟨store, hs, hso, p, hp, load, hl, hlo, q, hq, halias, he⟩ := hex
    exact ⟨store.id, p, mem_storesOf.mpr ⟨store, hs, hso, hp, rfl⟩, load.id, q,
      ⟨mem_loadsOf.mpr ⟨load, hl, hlo, hq, rfl⟩, halias⟩, he⟩

/-- The edges that are asked for link the ends of flows. -/
theorem mem_requested {e : Edge}
    (hcallees : ∀ v ∈ ir.values, ∀ callee, v.opcode? = some (.call callee) →
      ∀ f, f ∈ calls.callees v.id ↔ host.MayReach v f) :
    e ∈ requested ir host pointsTo calls ↔ ∃ kind a b, Flow ir host pointsTo kind a b ∧
      e ∈ (unlinked ir host.allocators).link kind a b := by
  unfold requested
  simp only [List.mem_append, List.mem_flatMap, mem_memoryEdges, Prod.exists]
  constructor
  · intro hor
    rcases hor with (⟨v, hv, he⟩ | ⟨store, hs, hso, p, hp, load, hl, hlo, q, hq, halias, he⟩) | ⟨a, b, hf, he⟩
    · rcases (mem_directEdges (hcallees v hv)).mp he with ⟨opcode, ho, hc, a, ha, he⟩ | ⟨f, hf, he⟩
      · exact ⟨_, _, _, .operand hv ho hc ha, he⟩
      · obtain ⟨function, hfun, hbody, ⟨i, a, p, ha, hp, he⟩ | ⟨r, hr, hret, he⟩⟩ :=
          mem_calleeEdges.mp he
        · exact ⟨_, _, _, .argument hv hf hfun hbody ha hp, he⟩
        · exact ⟨_, _, _, .result hv hf hfun hbody hr hret, he⟩
    · exact ⟨_, _, _, .memory hs hso hp hl hlo hq halias, he⟩
    · exact ⟨_, _, _, .host hf, he⟩
  · intro hex
    obtain ⟨_, _, _, hflow, he⟩ := hex
    cases hflow with
    | @operand v opcode _ hv ho hc ha =>
      exact .inl (.inl ⟨v, hv, (mem_directEdges (hcallees v hv)).mpr
        (.inl ⟨opcode, ho, hc, _, ha, he⟩)⟩)
    | @argument call f function i _ _ hc hcalls hfun hbody ha hp =>
      refine .inl (.inl ⟨call, hc, (mem_directEdges (hcallees call hc)).mpr (.inr ⟨f, hcalls, ?_⟩)⟩)
      exact mem_calleeEdges.mpr ⟨function, hfun, hbody, .inl ⟨i, _, _, ha, hp, he⟩⟩
    | @result call r f function hc hcalls hfun hbody hr hret =>
      refine .inl (.inl ⟨call, hc, (mem_directEdges (hcallees call hc)).mpr (.inr ⟨f, hcalls, ?_⟩)⟩)
      exact mem_calleeEdges.mpr ⟨function, hfun, hbody, .inr ⟨r, hr, hret, he⟩⟩
    | @memory store load p q hs hso hp hl hlo hq halias =>
      exact .inl (.inr ⟨store, hs, hso, p, hp, load, hl, hlo, q, hq, halias, he⟩)
    | host hf => exact .inr ⟨_, _, hf, he⟩

theorem mem_edges {e : Edge}
    (hcallees : ∀ v ∈ ir.values, ∀ callee, v.opcode? = some (.call callee) →
      ∀ f, f ∈ calls.callees v.id ↔ host.MayReach v f) :
    e ∈ (ofIr ir host pointsTo calls).edges ↔ ∃ a b, Flow ir host pointsTo e.kind a b ∧
      (ofIr ir host pointsTo calls).def? a = some e.source ∧
      (ofIr ir host pointsTo calls).def? b = some e.target := by
  simp only [def?_ofIr]
  constructor
  · intro he
    rw [ofIr_eq] at he
    obtain ⟨hr, _⟩ := (Graph.mem_addEdges.mp he).resolve_left List.not_mem_nil
    obtain ⟨kind, a, b, hflow, hlink⟩ := (mem_requested hcallees).mp hr
    obtain ⟨ha, hb, rfl⟩ := mem_link.mp hlink
    exact ⟨a, b, hflow, ha, hb⟩
  · intro hex
    obtain ⟨a, b, hflow, ha, hb⟩ := hex
    have hlink : e ∈ (unlinked ir host.allocators).link e.kind a b := mem_link.mpr ⟨ha, hb, rfl⟩
    exact mem_edges_of_link ((mem_requested hcallees).mpr ⟨_, a, b, hflow, hlink⟩) hlink

end

end PointerTriage.ValueFlow

namespace PointerTriage.Built.Parts

variable {b : Built} {t : Tables} {host : HostFacts} (h : b.Parts t host)
include h

/-- The call graph of a program knows each call, its arguments and what it may reach. -/
theorem site {call : Value} (hc : call ∈ b.program.ir.values) {callee : Option FunctionId}
    (ho : call.opcode? = some (.call callee)) :
    call.id ∈ b.calls.answers.sites ∧ b.calls.arguments call.id = call.operands ∧
      ∀ f, f ∈ b.calls.callees call.id ↔ host.MayReach call f := by
  obtain ⟨s, hfind, hargs, hcallees⟩ := CallGraph.site_of_call h.sound host hc ho
  rw [← h.calls] at hfind
  refine ⟨?_, ?_, ?_⟩
  · have hid : s.site = call.id := by simpa using List.find?_some hfind
    exact List.mem_map.mpr ⟨s, List.mem_of_find?_eq_some hfind, hid⟩
  · simp [CallGraph.arguments, hfind, hargs]
  · intro f
    rw [← hcallees]
    simp [CallGraph.callees, hfind, IdSet.mem_def]

/-- A call is known by the names of the functions it may reach. -/
theorem mem_calleeNames (settings : Settings) {call : Value} (hc : call ∈ b.program.ir.values)
    {f : FunctionId} (hreach : host.MayReach call f) {function : Function}
    (hf : b.program.ir.function? f = some function) :
    function.name ∈ (b.context settings).calleeNames call.id := by
  obtain ⟨callee, ho, hcallee⟩ := hreach
  obtain ⟨_, _, hcallees⟩ := h.site hc ho
  refine List.mem_filterMap.mpr ⟨f, (hcallees f).mpr ⟨callee, ho, hcallee⟩, ?_⟩
  exact Option.map_eq_some_iff.mpr ⟨function, hf, rfl⟩

/-- The edges of a program lead from definition to definition along its flows. -/
theorem mem_edges {e : ValueFlow.Edge} :
    e ∈ b.program.flow.edges ↔
      ∃ a v, ValueFlow.Flow b.program.ir host b.pointsTo e.kind a v ∧
        b.program.flow.def? a = some e.source ∧ b.program.flow.def? v = some e.target := by
  rw [h.flow]
  exact ValueFlow.mem_edges fun v hv callee ho => (h.site hv ho).2.2

end PointerTriage.Built.Parts
