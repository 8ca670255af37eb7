import PointerTriage.Proofs.PointsTo.Derivation
import PointerTriage.Proofs.ValueFlow.Flows

namespace PointerTriage

/-- The allocators are the same, and the other facts of the first host are among those of the second. -/
structure HostFacts.Below (host host' : HostFacts) : Prop where
  allocators : ∀ name, name ∈ host.allocators ↔ name ∈ host'.allocators
  pointsTo : host.pointsTo ⊆ host'.pointsTo
  flows : host.flows ⊆ host'.flows
  targets : host.targets ⊆ host'.targets

/-- The program with other loops. -/
def Ir.withLoops (ir : Ir) (loops : List Loop) : Ir := { ir with tables := { ir.tables with loops } }

/-- The answers for the first program are among those for the second, apart from loops and settings. -/
structure Built.Below (b b' : Built) : Prop where
  ir : ∃ loops, b.program.ir = b'.program.ir.withLoops loops
  nodes : b.program.flow.nodes = b'.program.flow.nodes
  edges : b.program.flow.edges ⊆ b'.program.flow.edges
  site : b.pointsTo.site? = b'.pointsTo.site?
  objects : ∀ v, ∀ o ∈ b.pointsTo.objects v, o ∈ b'.pointsTo.objects v
  sites : b.calls.answers.sites = b'.calls.answers.sites
  arguments : b.calls.arguments = b'.calls.arguments
  callees : ∀ v, ∀ f ∈ b.calls.callees v, f ∈ b'.calls.callees v

section

variable {ir : Ir} {loops : List Loop} {host host' : HostFacts} (h : host.Below host')
include h

/-- What allocates depends on the names of the allocators, and not on their order. -/
theorem HostFacts.Below.allocates :
    (ir.withLoops loops).allocates host.allocators = ir.allocates host'.allocators := by
  have hcontains : host.allocators.contains = host'.allocators.contains := by
    funext name
    rw [Bool.eq_iff_iff, List.contains_iff_mem, List.contains_iff_mem]
    exact h.allocators name
  funext v
  unfold Ir.allocates
  rw [hcontains]
  rfl

theorem HostFacts.Below.allocationSites :
    PointsTo.allocationSites (ir.withLoops loops) host.allocators =
      PointsTo.allocationSites ir host'.allocators := by
  unfold PointsTo.allocationSites
  rw [h.allocates]
  rfl

theorem HostFacts.Below.nodesOf :
    ValueFlow.nodesOf (ir.withLoops loops) host.allocators =
      ValueFlow.nodesOf ir host'.allocators := by
  unfold ValueFlow.nodesOf ValueFlow.kindOf?
  rw [h.allocates]
  rfl

theorem HostFacts.Below.calls {call : Value} {f : FunctionId}
    (hc : (ir.withLoops loops).Calls host call f) : ir.Calls host' call f := by
  obtain ⟨hallocates, callee, ho, hf⟩ := hc
  rw [h.allocates] at hallocates
  exact ⟨hallocates, callee, ho, hf.imp_right fun hm => h.targets hm⟩

theorem PointsTo.Derives.mono {j : Judgement} (hj : Derives (ir.withLoops loops) host j) :
    Derives ir host' j := by
  induction hj with
  | own site => exact .own (h.allocationSites ▸ site)
  | fact known site => exact .fact (h.pointsTo known) (h.allocationSites ▸ site)
  | base hv opcode operand _ ha => exact .base hv opcode operand ha
  | phi hv opcode operand _ ha => exact .phi hv opcode operand ha
  | argument hc calls callee argument param _ ha =>
    exact .argument hc (h.calls calls) callee argument param ha
  | result hc calls hr returns operand _ ha =>
    exact .result hc (h.calls calls) hr returns operand ha
  | store hv opcode operands _ _ hp ha => exact .store hv opcode operands hp ha
  | load hv opcode operand _ _ hp ht => exact .load hv opcode operand hp ht

theorem ValueFlow.Flow.mono {pointsTo pointsTo' : PointsTo}
    (hobjects : ∀ v, ∀ o ∈ pointsTo.objects v, o ∈ pointsTo'.objects v) {kind : EdgeKind}
    {a v : ValueId} (hf : Flow (ir.withLoops loops) host pointsTo kind a v) :
    Flow ir host' pointsTo' kind a v := by
  cases hf with
  | operand hv ho hc ha => exact .operand hv ho hc ha
  | argument hc calls callee body argument param =>
    exact .argument hc (h.calls calls) callee body argument param
  | result hc calls callee body hr returns =>
    exact .result hc (h.calls calls) callee body hr returns
  | @memory store load p q hs stores target hl loads source aliases =>
    obtain ⟨o, hp, hq⟩ := IdSet.meets_iff.mp aliases
    exact .memory hs stores target hl loads source
      (IdSet.meets_iff.mpr ⟨o, hobjects p o hp, hobjects q o hq⟩)
  | host hm => exact .host (h.flows hm)

end

theorem Tables.Sound.withLoops {t : Tables} (h : t.Sound) {loops : List Loop}
    (hl : loops ⊆ t.loops) : { t with loops }.Sound :=
  { h with loop := fun l hm => h.loop l (hl hm) }

theorem HostFacts.checkTargets_ok_iff {host : HostFacts} {ir : Ir} :
    host.checkTargets ir = .ok () ↔ ∀ target ∈ host.targets, checkTarget ir target = .ok () :=
  except_forM_ok_iff

namespace ControlFlow

theorem emptyBlock?_of_ofIr {ir : Ir} {calls : CallGraph} {flow : ValueFlow} {g : ControlFlow}
    (h : ofIr ir calls flow = .ok g) : emptyBlock? ir = none := by
  unfold ofIr at h
  split at h
  · cases h
  · assumption

theorem ofIr_of_emptyBlock? {ir : Ir} (h : emptyBlock? ir = none) (calls : CallGraph)
    (flow : ValueFlow) : ∃ g, ofIr ir calls flow = .ok g := by
  unfold ofIr
  rw [h]
  exact ⟨_, rfl⟩

end ControlFlow

namespace Built

variable {b b' : Built} {t t' : Tables} {host host' : HostFacts}

/-- Tables that differ in the loops only give programs that do so. -/
theorem Parts.ir_withLoops (h : b.Parts t host) (h' : b'.Parts t' host')
    (ht : t = { t' with loops := t.loops }) :
    b.program.ir = b'.program.ir.withLoops t.loops := by
  obtain ⟨_, he⟩ := except_seq_ok_iff.mp h.ir
  obtain ⟨_, he'⟩ := except_seq_ok_iff.mp h'.ir
  rw [← Except.ok.inj he, ← Except.ok.inj he', ht]
  rfl

/-- With more facts of the host a program has more answers. -/
theorem Parts.below (h : b.Parts t host) (h' : b'.Parts t' host')
    (ht : t = { t' with loops := t.loops }) (hb : host.Below host') : b.Below b' := by
  have hir := h.ir_withLoops h' ht
  have hnodes : b.program.flow.nodes = b'.program.flow.nodes := by
    rw [h.flow, h'.flow, ValueFlow.ofIr_eq, ValueFlow.ofIr_eq, hir]
    exact congrArg List.toArray hb.nodesOf
  have hdef : b.program.flow.def? = b'.program.flow.def? := by
    funext v
    unfold ValueFlow.def?
    rw [hnodes]
  have hobjects : ∀ v, ∀ o ∈ b.pointsTo.objects v, o ∈ b'.pointsTo.objects v := by
    intro v o ho
    rw [h.pointsTo] at ho
    rw [h'.pointsTo]
    have hd := (PointsTo.mem_solve_iff h.sound).mp ho
    rw [hir] at hd
    exact (PointsTo.mem_solve_iff h'.sound).mpr (hd.mono hb)
  have hfind : ∀ v, b.calls.find? v =
      ((CallGraph.ofIr b'.program.ir).find? v).map (CallGraph.withTargets host.targets) := by
    intro v
    rw [h.calls, CallGraph.find?_addTargets, hir]
    rfl
  have hfind' : ∀ v, b'.calls.find? v =
      ((CallGraph.ofIr b'.program.ir).find? v).map (CallGraph.withTargets host'.targets) := by
    intro v
    rw [h'.calls, CallGraph.find?_addTargets]
  constructor
  case ir => exact ⟨_, hir⟩
  case nodes => exact hnodes
  case edges =>
    intro e he
    obtain ⟨a, v, hflow, ha, hv⟩ := h.mem_edges.mp he
    rw [hir] at hflow
    rw [hdef] at ha hv
    exact h'.mem_edges.mpr ⟨a, v, hflow.mono hb hobjects, ha, hv⟩
  case site =>
    funext o
    rw [h.pointsTo, h'.pointsTo, PointsTo.site?_solve h.sound, PointsTo.site?_solve h'.sound, hir,
      hb.allocationSites]
  case objects => exact hobjects
  case sites =>
    unfold CallGraph.answers
    rw [h.calls, h'.calls, CallGraph.sites_addTargets, CallGraph.sites_addTargets, hir]
    simp only [List.map_map]
    rfl
  case arguments =>
    funext v
    unfold CallGraph.arguments
    rw [hfind, hfind']
    cases (CallGraph.ofIr b'.program.ir).find? v with
    | none => rfl
    | some s => rfl
  case callees =>
    intro v f hf
    unfold CallGraph.callees at hf ⊢
    rw [hfind] at hf
    rw [hfind']
    cases hs : (CallGraph.ofIr b'.program.ir).find? v with
    | none => simp [hs] at hf
    | some s =>
      simp only [hs, Option.map_some, Option.getD_some] at hf ⊢
      have hm := CallGraph.mem_calleesWith.mp hf
      exact CallGraph.mem_calleesWith.mpr (hm.imp_right fun hm => hb.targets hm)

/-- A program that builds also does so with fewer loops and facts. -/
theorem Parts.exists_of_below (h' : b'.Parts t' host') {loops : List Loop}
    (hl : loops ⊆ t'.loops) (hb : host.Below host') :
    ∃ b : Built, b.Parts { t' with loops } host := by
  obtain ⟨_, hsound⟩ := Ir.ofTables_ok h'.ir
  obtain ⟨_, he⟩ := except_seq_ok_iff.mp h'.ir
  have hir : Ir.ofTables { t' with loops } = .ok (b'.program.ir.withLoops loops) := by
    rw [← Except.ok.inj he]
    exact except_seq_ok_iff.mpr ⟨Tables.check_ok_iff.mpr (hsound.withLoops hl), rfl⟩
  have htargets : host.checkTargets (b'.program.ir.withLoops loops) = .ok () := by
    refine HostFacts.checkTargets_ok_iff.mpr ?_
    intro target ht
    exact HostFacts.checkTargets_ok_iff.mp h'.targets target (hb.targets ht)
  have hblocks : ControlFlow.emptyBlock? (b'.program.ir.withLoops loops) = none :=
    ControlFlow.emptyBlock?_of_ofIr h'.control
  let ir := b'.program.ir.withLoops loops
  let calls := host.targets.foldl (fun g target => g.addTarget target.1 target.2) (CallGraph.ofIr ir)
  let pointsTo := (PointsTo.solve ir host).1
  let flow := ValueFlow.ofIr ir host pointsTo calls
  obtain ⟨control, hcontrol⟩ := ControlFlow.ofIr_of_emptyBlock? hblocks calls flow
  exact ⟨⟨⟨ir, flow, control⟩, pointsTo, calls⟩, hir, htargets, rfl, rfl, rfl, hcontrol⟩

end Built

end PointerTriage
