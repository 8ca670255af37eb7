import PointerTriage.Proofs.ControlFlow.Transfers
import PointerTriage.Proofs.Outcome.Order
import PointerTriage.Proofs.PointsTo.Derivation
import PointerTriage.Proofs.Snapshot.Layout
import PointerTriage.Proofs.ValueFlow.Flows

namespace PointerTriage

namespace Ir

/-- A call of the function passes the argument to the parameter at the same position. -/
def Passes (ir : Ir) (call : Value) (f : FunctionId) (a p : ValueId) : Prop :=
  ∃ function, ir.function? f = some function ∧
    ∃ i : Nat, call.operands[i]? = some a ∧ function.params[i]? = some p

/-- A parameter is no instruction. -/
theorem Passes.not_instruction {ir : Ir} (hs : ir.tables.Sound) (hh : ir.tables.Housed)
    {call : Value} {f : FunctionId} {a p : ValueId} (h : ir.Passes call f a p) {v : Value}
    (hv : v ∈ ir.values) {opcode : Opcode} (ho : v.opcode? = some opcode) : v.id ≠ p := by
  rintro rfl
  obtain ⟨function, hf, i, _, hp⟩ := h
  obtain ⟨value, hvalue, hk⟩ := hh.param function (Array.mem_of_getElem? hf) i v.id hp
  obtain ⟨block, hkind⟩ := opcode_kind ho
  cases (hs.value?_of_mem hv).symm.trans hvalue
  cases hkind.symm.trans hk

end Ir

namespace ControlFlow

variable {ir : Ir} (hs : ir.tables.Sound) (hh : ir.tables.Housed) {g : ControlFlow}

variable {calls : CallGraph} {flow : ValueFlow} (h : ofIr ir calls flow = .ok g) {v : ValueId}
  (hv : ir.isCall v = true)
include hs hh h hv

/-- Calls lead from their call node to the entries of their callees. -/
theorem mem_call_edges {l m : LocationId} (hl : g.startOf? v = some l) :
    ⟨l, m, .call⟩ ∈ g.edges ↔ ∃ f ∈ calls.callees v, ir.HasBody f ∧ g.entry? f = some m := by
  have hg := nodes_of_ofIr h
  rw [mem_edges hs hh h]
  constructor
  · intro hex
    obtain ⟨p, q, htransfer, hp, hq⟩ := hex
    cases htransfer with
    | @call w f _ hf =>
      have heq := eq_of_locate? hs hh hg hp (q := .start v) hl
      simp only [Point.start.injEq, reduceCtorEq, and_false, false_and, or_self, exists_false,
        or_false] at heq
      exact ⟨f, heq ▸ hf, hasBody_of_door hs hh hg (.inl rfl) hq, hq⟩
  · intro hex
    obtain ⟨f, hf, _, hm⟩ := hex
    exact ⟨.start v, .entry f, .call hv hf, hl, hm⟩

/-- The exits of its callees lead back to the return node of a call. -/
theorem mem_return_edges {l m : LocationId} (hm : g.endOf? v = some m) :
    ⟨l, m, .return⟩ ∈ g.edges ↔ ∃ f ∈ calls.callees v, ir.HasBody f ∧ g.exit? f = some l := by
  have hg := nodes_of_ofIr h
  rw [mem_edges hs hh h]
  constructor
  · intro hex
    obtain ⟨p, q, htransfer, hp, hq⟩ := hex
    cases htransfer with
    | @«return» w f _ hf =>
      have heq := eq_of_locate? hs hh hg hq (q := .finish v) hm
      simp only [Point.finish.injEq, reduceCtorEq, and_false, false_and, or_self, exists_false,
        or_false] at heq
      exact ⟨f, heq ▸ hf, hasBody_of_door hs hh hg (.inr rfl) hp, hp⟩
  · intro hex
    obtain ⟨f, hf, _, hl⟩ := hex
    exact ⟨.exit f, .finish v, .return hv hf, hl, hm⟩

end ControlFlow

theorem CallGraph.ascending_callees (g : CallGraph) (v : ValueId) :
    (g.callees v).Pairwise (· < ·) := by
  unfold callees
  cases g.find? v with
  | none => exact .nil
  | some site => exact site.callees.ascending

namespace Built

section

variable {b : Built} {t : Tables} {host : HostFacts} (h : b.Parts t host) {call : Value}
  (hc : call ∈ b.program.ir.values) {callee : Option FunctionId}
  (ho : call.opcode? = some (.call callee))
include h hc ho

theorem Parts.function_of_callee {f : FunctionId} (hf : f ∈ b.calls.callees call.id) :
    ∃ function, b.program.ir.function? f = some function := by
  rcases (HostFacts.mayReach_iff ho).mp (((h.site hc ho).2.2 f).mp hf) with rfl | htarget
  · obtain ⟨block, hk⟩ := opcode_kind ho
    have hlt := h.sound.callee call (Array.mem_toList_iff.mp hc) f block hk
    exact ⟨_, Array.getElem?_eq_getElem hlt⟩
  · have hcheck := HostFacts.checkTargets_ok_iff.mp h.targets _ htarget
    unfold HostFacts.checkTarget at hcheck
    split at hcheck
    · cases hcheck
    · split at hcheck
      · cases hcheck
      · rename_i hsome
        exact Option.ne_none_iff_exists'.mp (by simpa using hsome)

variable (ha : b.program.ir.allocates host.allocators call.id = false)
include ha

theorem Parts.calls_iff {f : FunctionId} :
    b.program.ir.Calls host call f ↔ f ∈ b.calls.callees call.id := by
  rw [(h.site hc ho).2.2 f, Ir.Calls, and_iff_right ha]

/-- The constraints of a call copy its arguments to the parameters of its callees, and what these
return to the call. -/
theorem Parts.mem_copiesOf_call {k : Constraint} :
    k ∈ Constraint.copiesOf b.program.ir host call ↔ ∃ f ∈ b.calls.callees call.id,
      (∃ a p, b.program.ir.Passes call f a p ∧ k = .copy a p) ∨
      ∃ r ∈ b.program.ir.values, b.program.ir.ReturnsFrom r f ∧
        ∃ a, r.operands.head? = some a ∧ k = .copy a call.id := by
  simp only [PointsTo.mem_copiesOf, ho, Option.some.injEq, reduceCtorEq, or_self, false_and,
    false_or, h.calls_iff hc ho ha, PointsTo.mem_ofCall, Ir.mem_rets]
  refine exists_congr fun f => and_congr_right fun hf => ?_
  obtain ⟨function, hfunction⟩ := h.function_of_callee hc ho hf
  simp only [Ir.Passes, hfunction, Option.some.injEq, exists_eq_left', and_assoc]
  grind

/-- The edges that a call asks for lead from its arguments to the parameters of its callees with a
body, and from where these return to the call. -/
theorem Parts.mem_directEdges_call {e : ValueFlow.Edge} :
    e ∈ b.program.flow.directEdges b.program.ir host.allocators b.calls call ↔
      ∃ f ∈ b.calls.callees call.id, b.program.ir.HasBody f ∧
        ((∃ a p, b.program.ir.Passes call f a p ∧ e ∈ b.program.flow.link .direct a p) ∨
          ∃ r ∈ b.program.ir.values, b.program.ir.ReturnsFrom r f ∧
            e ∈ b.program.flow.link .direct r.id call.id) := by
  have hnot : ¬∃ opcode, call.opcode? = some opcode ∧ opcode.isCall = false ∧
      ∃ a ∈ call.operands, e ∈ b.program.flow.link .direct a call.id := by
    simp [ho, Opcode.isCall]
  rw [ValueFlow.mem_directEdges fun _ ho => (h.site hc ho).2.2, or_iff_right hnot]
  simp only [h.calls_iff hc ho ha, ValueFlow.mem_calleeEdges]
  refine exists_congr fun f => and_congr_right fun hf => ?_
  obtain ⟨function, hfunction⟩ := h.function_of_callee hc ho hf
  simp only [Ir.Passes, Ir.HasBody, hfunction, Option.some.injEq, exists_eq_left']
  grind

/-- The direct edges to the node of a call come from where its callees with a body return. -/
theorem Parts.mem_edges_to_call (hh : b.program.ir.tables.Housed) {a : ValueId} {n m : NodeId}
    (hn : b.program.flow.def? a = some n) (hm : b.program.flow.def? call.id = some m) :
    ⟨n, m, .direct⟩ ∈ b.program.flow.edges ↔
      ∃ f ∈ b.calls.callees call.id, b.program.ir.HasBody f ∧
        ∃ r ∈ b.program.ir.values, b.program.ir.ReturnsFrom r f ∧ r.id = a := by
  rw [h.mem_edges]
  constructor
  · intro hex
    obtain ⟨a', v, hflow, ha', hv⟩ := hex
    have hv := ValueFlow.eq_of_def? hv hm
    have ha' := ValueFlow.eq_of_def? ha' hn
    cases hflow with
    | @operand w opcode _ hw ho' hno _ =>
      cases h.sound.eq_of_id hw hc hv
      cases ho.symm.trans ho'
      cases hno
    | @argument call' f function i _ p _ _ hfun _ harg hparam =>
      have hpasses : b.program.ir.Passes call' f a' v := ⟨function, hfun, i, harg, hparam⟩
      exact absurd hv.symm (hpasses.not_instruction h.sound hh hc ho)
    | @result call' r f function hc' hcalls hfun hbody hr hreturns =>
      cases h.sound.eq_of_id hc' hc hv
      exact ⟨f, (h.calls_iff hc ho ha).mp hcalls, ⟨function, hfun, hbody⟩, r, hr, hreturns, ha'⟩
  · intro hex
    obtain ⟨f, hf, ⟨function, hfun, hbody⟩, r, hr, hreturns, rfl⟩ := hex
    exact ⟨r.id, call.id, .result hc ((h.calls_iff hc ho ha).mpr hf) hfun hbody hr hreturns, hn, hm⟩

end

/-- The direct edges to the node of a parameter come from the arguments at its position in calls of
its function, if that has a body. -/
theorem Parts.mem_edges_to_param {b : Built} {t : Tables} {host : HostFacts} (h : b.Parts t host)
    (hh : b.program.ir.tables.Housed) {p : Value} (hp : p ∈ b.program.ir.values) {f : FunctionId}
    {i : Nat} (hk : p.kind = .argument f i) {a : ValueId} {n m : NodeId}
    (hn : b.program.flow.def? a = some n) (hm : b.program.flow.def? p.id = some m) :
    ⟨n, m, .direct⟩ ∈ b.program.flow.edges ↔
      b.program.ir.HasBody f ∧ ∃ call ∈ b.program.ir.values, b.program.ir.isCall call.id = true ∧
        b.program.ir.allocates host.allocators call.id = false ∧
        f ∈ b.calls.callees call.id ∧ call.operands[i]? = some a := by
  have hnot : ∀ v ∈ b.program.ir.values, ∀ opcode, v.opcode? = some opcode → v.id ≠ p.id := by
    intro v hv opcode ho hid
    cases h.sound.eq_of_id hv hp hid
    obtain ⟨block, hkind⟩ := opcode_kind ho
    cases hk.symm.trans hkind
  rw [h.mem_edges]
  constructor
  · intro hex
    obtain ⟨a', v, hflow, ha', hv⟩ := hex
    have hv := ValueFlow.eq_of_def? hv hm
    have ha' := ValueFlow.eq_of_def? ha' hn
    cases hflow with
    | @operand w opcode _ hw ho _ _ => exact absurd hv (hnot w hw opcode ho)
    | @argument call f' function j _ _ hc hcalls hfun hbody harg hparam =>
      -- The parameter has the function and the position under which it is listed.
      obtain ⟨value, hvalue, hkind⟩ := hh.param function (Array.mem_of_getElem? hfun) j v hparam
      rw [hv] at hvalue
      cases (h.sound.value?_of_mem hp).symm.trans hvalue
      have hid : function.id = f' := h.sound.function f' function hfun
      cases hk.symm.trans hkind
      obtain ⟨halloc, callee, ho, hcallee⟩ := hcalls
      refine ⟨⟨function, hid ▸ hfun, hbody⟩, call, hc, ?_, halloc, ?_, ha' ▸ harg⟩
      · exact Ir.isCall_iff.mpr ⟨callee, (h.sound.opcode?_of_mem hc).trans ho⟩
      · exact ((h.site hc ho).2.2 _).mpr ⟨callee, ho, hid ▸ hcallee⟩
    | @result call r _ _ hc hcalls _ _ _ _ =>
      obtain ⟨_, callee, ho, _⟩ := hcalls
      exact absurd hv (hnot call hc _ ho)
  · intro hex
    obtain ⟨⟨function, hfun, hbody⟩, call, hc, hcall, halloc, hf, harg⟩ := hex
    obtain ⟨callee, ho⟩ := Ir.isCall_iff.mp hcall
    rw [h.sound.opcode?_of_mem hc] at ho
    obtain ⟨function', hfun', hparam⟩ := hh.argument p (Array.mem_toList_iff.mp hp) f i hk
    cases hfun.symm.trans hfun'
    exact ⟨a, p.id, .argument hc ((h.calls_iff hc ho halloc).mpr hf) hfun hbody harg hparam, hn, hm⟩

/-- The parts of a program treat a call as one of the functions that the call graph lists for it. -/
structure FollowsCallees (b : Built) (host : HostFacts) (call : Value) : Prop where
  known : ∀ f ∈ b.calls.callees call.id, ∃ function, b.program.ir.function? f = some function
  /-- The constraints on points-to sets. -/
  copies : ∀ k, k ∈ Constraint.copiesOf b.program.ir host call ↔ ∃ f ∈ b.calls.callees call.id,
    (∃ a p, b.program.ir.Passes call f a p ∧ k = .copy a p) ∨
    ∃ r ∈ b.program.ir.values, b.program.ir.ReturnsFrom r f ∧
      ∃ a, r.operands.head? = some a ∧ k = .copy a call.id
  /-- What the call asks for in the value-flow graph. -/
  flow : ∀ e, e ∈ b.program.flow.directEdges b.program.ir host.allocators b.calls call ↔
    ∃ f ∈ b.calls.callees call.id, b.program.ir.HasBody f ∧
      ((∃ a p, b.program.ir.Passes call f a p ∧ e ∈ b.program.flow.link .direct a p) ∨
        ∃ r ∈ b.program.ir.values, b.program.ir.ReturnsFrom r f ∧
          e ∈ b.program.flow.link .direct r.id call.id)
  kept : b.program.flow.directEdges b.program.ir host.allocators b.calls call ⊆ b.program.flow.edges
  results : ∀ a n m, b.program.flow.def? a = some n → b.program.flow.def? call.id = some m →
    (⟨n, m, .direct⟩ ∈ b.program.flow.edges ↔
      ∃ f ∈ b.calls.callees call.id, b.program.ir.HasBody f ∧
        ∃ r ∈ b.program.ir.values, b.program.ir.ReturnsFrom r f ∧ r.id = a)
  /-- The call node and the return node of the call, with the edges into callees and back. -/
  control : ∃ l r owner, b.program.control.startOf? call.id = some l ∧
    b.program.control.node? l = some ⟨.call, some owner, some call.id⟩ ∧
    b.program.control.endOf? call.id = some r ∧
    b.program.control.node? r = some ⟨.return, some owner, some call.id⟩ ∧
    (∀ m, ⟨l, m, .call⟩ ∈ b.program.control.edges ↔ ∃ f ∈ b.calls.callees call.id,
      b.program.ir.HasBody f ∧ b.program.control.entry? f = some m) ∧
    ∀ m, ⟨m, r, .return⟩ ∈ b.program.control.edges ↔ ∃ f ∈ b.calls.callees call.id,
      b.program.ir.HasBody f ∧ b.program.control.exit? f = some m

theorem Parts.followsCallees {b : Built} {t : Tables} {host : HostFacts} (h : b.Parts t host)
    (hh : b.program.ir.tables.Housed) {call : Value} (hc : call ∈ b.program.ir.values)
    {callee : Option FunctionId} (ho : call.opcode? = some (.call callee))
    (ha : b.program.ir.allocates host.allocators call.id = false) : b.FollowsCallees host call := by
  have hcall : b.program.ir.isCall call.id = true :=
    Ir.isCall_iff.mpr ⟨callee, (h.sound.opcode?_of_mem hc).trans ho⟩
  constructor
  case known => exact fun f hf => h.function_of_callee hc ho hf
  case copies => exact fun k => h.mem_copiesOf_call hc ho ha
  case flow => exact fun e => h.mem_directEdges_call hc ho ha
  case kept =>
    intro e he
    obtain ⟨f, hf, ⟨function, hfun, hbody⟩, ⟨a, p, ⟨function', hfun', i, harg, hparam⟩, he⟩ |
      ⟨r, hr, hreturns, he⟩⟩ := (h.mem_directEdges_call hc ho ha).mp he
    · obtain ⟨hsource, htarget, hkind⟩ := ValueFlow.mem_link.mp he
      cases hfun.symm.trans hfun'
      refine h.mem_edges.mpr ⟨a, p, ?_, hsource, htarget⟩
      rw [hkind]
      exact .argument hc ((h.calls_iff hc ho ha).mpr hf) hfun hbody harg hparam
    · obtain ⟨hsource, htarget, hkind⟩ := ValueFlow.mem_link.mp he
      refine h.mem_edges.mpr ⟨r.id, call.id, ?_, hsource, htarget⟩
      rw [hkind]
      exact .result hc ((h.calls_iff hc ho ha).mpr hf) hfun hbody hr hreturns
  case results => exact fun a n m hn hm => h.mem_edges_to_call hc ho ha hh hn hm
  case control =>
    obtain ⟨owner, _, ⟨l, hl, hnode⟩, ⟨r, hr, hnode'⟩⟩ := ControlFlow.sides_of_instruction h.sound hh
      (ControlFlow.nodes_of_ofIr h.control) (Ir.isInstruction_of_isCall hcall)
    simp only [hcall, if_true] at hnode hnode'
    exact ⟨l, r, owner, hl, hnode, hr, hnode',
      fun _ => ControlFlow.mem_call_edges h.sound hh h.control hcall hl,
      fun _ => ControlFlow.mem_return_edges h.sound hh h.control hcall hr⟩

/-- In a program from a snapshot the callees of a call that hands out no memory are the one it names
and those recorded for it, in ascending order. The constraints and both graphs follow them. The graphs
leave out those without a body, and only these have no entry and no exit. -/
theorem stages_follow_callees {s : Snapshot} {b : Built} (h : s.build = .ok b) :
    ∃ host, s.link = .ok (b.program.ir.tables, host) ∧
      (∀ call ∈ b.program.ir.values, ∀ callee, call.opcode? = some (.call callee) →
        b.program.ir.allocates host.allocators call.id = false →
        (b.calls.callees call.id).Pairwise (· < ·) ∧
        (∀ f, f ∈ b.calls.callees call.id ↔ callee = some f ∨
          ∃ name, (call.id, name) ∈ s.targets ∧ s.functionId name = .ok f) ∧
        b.FollowsCallees host call) ∧
      (∀ p ∈ b.program.ir.values, ∀ f i, p.kind = .argument f i → ∀ a n m,
        b.program.flow.def? a = some n → b.program.flow.def? p.id = some m →
        (⟨n, m, .direct⟩ ∈ b.program.flow.edges ↔ b.program.ir.HasBody f ∧
          ∃ call ∈ b.program.ir.values, b.program.ir.isCall call.id = true ∧
            b.program.ir.allocates host.allocators call.id = false ∧
            f ∈ b.calls.callees call.id ∧ call.operands[i]? = some a)) ∧
      ∀ f, b.program.ir.HasBody f ↔ ∃ m n, b.program.control.entry? f = some m ∧
        b.program.control.node? m = some ⟨.funEntry, some f, none⟩ ∧
        b.program.control.exit? f = some n ∧
        b.program.control.node? n = some ⟨.funExit, some f, none⟩ := by
  obtain ⟨_, host, hlink, rfl, hparts, hs, hh⟩ := Snapshot.layout_of_build h
  have hg := ControlFlow.nodes_of_ofIr hparts.control
  obtain ⟨_, hfacts⟩ := Snapshot.link_ok_iff_bare.mp hlink
  refine ⟨host, hlink, ?_, ?_, ?_⟩
  · intro call hc callee ho ha
    refine ⟨b.calls.ascending_callees call.id, ?_, hparts.followsCallees hh hc ho ha⟩
    intro f
    rw [(hparts.site hc ho).2.2 f, HostFacts.mayReach_iff ho, hfacts.mem_targets]
  · intro p hp f i hk a n m hn hm
    exact hparts.mem_edges_to_param hh hp hk hn hm
  · intro f
    constructor
    · intro hbody
      obtain ⟨function, hf, rfl⟩ := (Ir.hasBody_iff hs).mp hbody
      obtain ⟨⟨m, hm, hnode⟩, ⟨n, hn, hnode'⟩⟩ := ControlFlow.doors_of_defined hs hh hg hf
      exact ⟨m, n, hm, hnode, hn, hnode'⟩
    · intro hex
      obtain ⟨m, _, hm, _⟩ := hex
      exact ControlFlow.hasBody_of_door hs hh hg (.inl rfl) (p := .entry f) hm

/-- The indirect call 11 of `dispatch` follows the two functions recorded for it, whose entries are the
locations 1 and 4. -/
theorem stages_follow_callees_dispatch :
    ∃ b host call, dispatch.build = .ok b ∧ dispatch.link = .ok (b.program.ir.tables, host) ∧
      call ∈ b.program.ir.values ∧ call.id = 11 ∧ call.opcode? = some (.call none) ∧
      b.program.ir.allocates host.allocators call.id = false ∧ b.calls.callees call.id = [1, 2] ∧
      b.FollowsCallees host call ∧
      ∀ m, ⟨14, m, .call⟩ ∈ b.program.control.edges ↔ m = 1 ∨ m = 4 := by
  obtain ⟨b, hb⟩ := exists_ok_of_isOk (x := dispatch.build) (by decide +kernel)
  obtain ⟨host, hlink, hcalls, _⟩ := stages_follow_callees hb
  have hallocators := (Snapshot.link_ok_iff_bare.mp hlink).2.allocators
  have hcall : (dispatch.build.toOption.map fun b => (b.program.ir.isCall 11,
      b.program.ir.callee? 11, b.program.ir.allocates dispatch.allocatorNames 11,
      b.calls.callees 11)) = some (true, none, false, [1, 2]) := by decide +kernel
  have hcontrol : (dispatch.build.toOption.map fun b => (b.program.control.startOf? 11,
      b.program.control.entry? 1, b.program.control.entry? 2)) =
      some (some 14, some 1, some 4) := by decide +kernel
  have hbody : (dispatch.build.toOption.map fun b => ((b.program.ir.function? 1).map
      Function.isDeclaration, (b.program.ir.function? 2).map Function.isDeclaration)) =
      some (some false, some false) := by decide +kernel
  rw [hb] at hcall hcontrol hbody
  simp only [Except.toOption, Option.map_some, Option.some.injEq, Prod.mk.injEq] at hcall hcontrol hbody
  obtain ⟨hcall, hnone, halloc, hcallees⟩ := hcall
  obtain ⟨hstart, hfirst, hsecond⟩ := hcontrol
  obtain ⟨callee, hopcode⟩ := Ir.isCall_iff.mp hcall
  rw [Ir.callee?, hopcode] at hnone
  subst hnone
  obtain ⟨call, hvalue, ho⟩ := Option.bind_eq_some_iff.mp hopcode
  obtain ⟨_, _, _, _, _, hs, _⟩ := Snapshot.layout_of_build hb
  have hid : call.id = 11 := hs.id_of_value? hvalue
  rw [← hid] at halloc hcallees hstart
  rw [← hallocators] at halloc
  obtain ⟨_, _, hfollows⟩ := hcalls call (Ir.mem_values hvalue) none ho halloc
  refine ⟨b, host, call, hb, hlink, Ir.mem_values hvalue, hid, ho, halloc, hcallees, hfollows, ?_⟩
  intro m
  obtain ⟨l, _, _, hl, _, _, _, hedges, _⟩ := hfollows.control
  cases hstart.symm.trans hl
  have hbodies : b.program.ir.HasBody 1 ∧ b.program.ir.HasBody 2 := by
    simpa only [Ir.HasBody, Option.map_eq_some_iff] using hbody
  rw [hedges, hcallees]
  simp [hfirst, hsecond, hbodies, eq_comm]

end Built

end PointerTriage
