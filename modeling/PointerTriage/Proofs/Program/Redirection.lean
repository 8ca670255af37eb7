import PointerTriage.Proofs.CallGraph
import PointerTriage.Proofs.Ir.Redirection
import PointerTriage.Proofs.Program.Parts
import PointerTriage.Proofs.Taint.Rules

namespace PointerTriage

section

variable (ir : Ir) (callees : ValueId → Option FunctionId)

namespace Constraint

theorem ofCall_redirect (v : Value) :
    ofCall (ir.redirect callees) (v.redirect callees) = ofCall ir v := by
  funext f
  unfold ofCall
  rw [Ir.rets_redirect]
  simp only [List.flatMap_map]
  rfl

theorem accesses_redirect : accesses (ir.redirect callees) = accesses ir := by
  refine ir.flatMap_values_redirect callees ?_
  intro v _
  unfold accessesOf
  rw [Value.opcode?_redirect]
  cases v.opcode? with
  | none => rfl
  | some opcode => cases opcode <;> rfl

end Constraint

namespace ValueFlow

variable (g : ValueFlow)

theorem calleeEdges_redirect (v : Value) :
    g.calleeEdges (ir.redirect callees) (v.redirect callees) = g.calleeEdges ir v := by
  funext f
  unfold calleeEdges
  rw [Ir.rets_redirect]
  simp only [List.flatMap_map]
  rfl

theorem storesOf_redirect : storesOf (ir.redirect callees) = storesOf ir := by
  refine ir.filterMap_values_redirect callees ?_
  intro v _
  rw [Value.opcode?_redirect]
  cases v.opcode? with
  | none => rfl
  | some opcode => cases opcode <;> rfl

theorem loadsOf_redirect : loadsOf (ir.redirect callees) = loadsOf ir := by
  refine ir.filterMap_values_redirect callees ?_
  intro v _
  rw [Value.opcode?_redirect]
  cases v.opcode? with
  | none => rfl
  | some opcode => cases opcode <;> rfl

theorem memoryEdges_redirect (pointsTo : PointsTo) :
    g.memoryEdges (ir.redirect callees) pointsTo = g.memoryEdges ir pointsTo := by
  rw [memoryEdges, memoryEdges, storesOf_redirect, loadsOf_redirect]

end ValueFlow

namespace ControlFlow

variable (g : ControlFlow) (calls : CallGraph)

theorem nodesOf_redirect : nodesOf (ir.redirect callees) = nodesOf ir := by
  have hnodes : instructionNodes (ir.redirect callees) = instructionNodes ir := by
    funext f v
    rw [instructionNodes, instructionNodes, Ir.isCall_redirect]
  have hfunctions : functionNodes (ir.redirect callees) = functionNodes ir := by
    funext f
    rw [functionNodes, functionNodes, hnodes]
    rfl
  rw [nodesOf, nodesOf, hfunctions]
  rfl

theorem transferEdges_redirect :
    g.transferEdges (ir.redirect callees) calls = g.transferEdges ir calls := by
  funext v
  rw [transferEdges, transferEdges, Ir.opcode?_redirect, Ir.ownerOf?_redirect, Ir.opcode?]
  cases ir.value? v with
  | none => rfl
  | some value =>
    simp only [Option.bind_some]
    cases value.opcode? with
    | none => rfl
    | some opcode => cases opcode <;> rfl

theorem rootEdges_redirect : g.rootEdges (ir.redirect callees) calls = g.rootEdges ir calls := by
  have hcalled : isCalled (ir.redirect callees) calls = isCalled ir calls := by
    funext f
    rw [isCalled, isCalled, Ir.isCall_redirect]
    rfl
  rw [rootEdges, rootEdges, hcalled]
  rfl

theorem placesOf_redirect (flow : ValueFlow) :
    g.placesOf (ir.redirect callees) flow = g.placesOf ir flow := by
  unfold placesOf
  rw [Ir.isGlobal_redirect, Ir.values_redirect, List.filter_map]
  simp only [List.flatMap_map]
  rfl

theorem ofIr_redirect (flow : ValueFlow) :
    ofIr (ir.redirect callees) calls flow = ofIr ir calls flow := by
  have hempty : emptyBlock? (ir.redirect callees) = emptyBlock? ir := rfl
  unfold ofIr
  simp only [hempty, nodesOf_redirect, transferEdges_redirect, rootEdges_redirect, placesOf_redirect]
  rfl

end ControlFlow

end

/-- With other callees and other facts of the host, the same values hand out memory and every call
reaches the same functions, in the same order. -/
structure Ir.Redirects (ir : Ir) (callees : ValueId → Option FunctionId) (host host' : HostFacts) :
    Prop where
  allocators : host'.allocators = host.allocators
  pointsTo : host'.pointsTo = host.pointsTo
  flows : host'.flows = host.flows
  allocates : (ir.redirect callees).allocates host.allocators = ir.allocates host.allocators
  reached : ∀ v ∈ ir.values, ∀ callee, v.opcode? = some (.call callee) →
    (callees v.id).toList ++ host'.targetsOf v.id = callee.toList ++ host.targetsOf v.id

namespace Ir.Redirects

variable {ir : Ir} {callees : ValueId → Option FunctionId} {host host' : HostFacts}
  (h : ir.Redirects callees host host')
include h

theorem ofSites : PointsTo.ofSites (ir.redirect callees) host' = PointsTo.ofSites ir host := by
  unfold PointsTo.ofSites
  rw [h.allocators, h.pointsTo, h.allocates, values_redirect, List.filter_map]
  simp only [List.foldl_map, Value.allocated?_redirect]
  rfl

theorem copies : Constraint.copies (ir.redirect callees) host' = Constraint.copies ir host := by
  refine ir.flatMap_values_redirect callees ?_
  intro v hv
  have hreached := h.reached v hv
  unfold Constraint.copiesOf
  rw [Value.opcode?_redirect, h.allocators, h.allocates, Constraint.ofCall_redirect]
  cases ho : v.opcode? with
  | none => rfl
  | some opcode =>
    cases opcode with
    | call callee =>
      simp only [Option.map_some, Opcode.redirect]
      rw [← hreached callee ho]
      rfl
    | _ => rfl

theorem solve : PointsTo.solve (ir.redirect callees) host' = PointsTo.solve ir host := by
  unfold PointsTo.solve
  rw [h.ofSites, h.copies, Constraint.accesses_redirect]

theorem callees_eq {v : Value} (hv : v ∈ ir.values) {callee : Option FunctionId}
    (ho : v.opcode? = some (.call callee)) :
    CallGraph.calleesWith v.id host'.targets (.ofList (callees v.id).toList) =
      CallGraph.calleesWith v.id host.targets (.ofList callee.toList) := by
  apply IdSet.ext
  intro f
  simp only [CallGraph.mem_calleesWith, IdSet.mem_ofList, ← HostFacts.mem_targetsOf,
    ← List.mem_append, h.reached v hv callee ho]

/-- The call graph lists the same callees, whether calls name them or the host found them. -/
theorem calls :
    host'.targets.foldl (fun g target => g.addTarget target.1 target.2)
        (CallGraph.ofIr (ir.redirect callees)) =
      host.targets.foldl (fun g target => g.addTarget target.1 target.2) (CallGraph.ofIr ir) := by
  refine congrArg CallGraph.mk ?_
  rw [CallGraph.sites_addTargets, CallGraph.sites_addTargets, CallGraph.ofIr, CallGraph.ofIr]
  simp only [List.map_filterMap]
  refine ir.filterMap_values_redirect callees ?_
  intro v hv
  simp only [CallGraph.siteOf?, Value.opcode?_redirect]
  cases ho : v.opcode? with
  | none => rfl
  | some opcode =>
    cases opcode with
    | call callee =>
      simp only [Option.map_some, Opcode.redirect, Option.some.injEq, CallGraph.withTargets]
      exact congrArg (CallSite.mk v.id · v.operands) (h.callees_eq hv ho)
    | _ => rfl

theorem kindOf? (v : Value) :
    ValueFlow.kindOf? (ir.redirect callees) host'.allocators (v.redirect callees) =
      ValueFlow.kindOf? ir host.allocators v := by
  unfold ValueFlow.kindOf?
  rw [h.allocators, h.allocates]
  obtain ⟨_, _, _, kind, _⟩ := v
  cases kind with
  | instruction opcode block => cases opcode <;> rfl
  | _ => rfl

theorem nodesOf : ValueFlow.nodesOf (ir.redirect callees) host'.allocators =
    ValueFlow.nodesOf ir host.allocators := by
  refine ir.filterMap_values_redirect callees ?_
  intro v _
  rw [h.kindOf?]
  rfl

theorem directEdges (g : ValueFlow) (calls : CallGraph) (v : Value) :
    g.directEdges (ir.redirect callees) host'.allocators calls (v.redirect callees) =
      g.directEdges ir host.allocators calls v := by
  unfold ValueFlow.directEdges
  rw [Value.opcode?_redirect, h.allocators, h.allocates, ValueFlow.calleeEdges_redirect]
  cases v.opcode? with
  | none => rfl
  | some opcode => cases opcode <;> rfl

theorem flow (pointsTo : PointsTo) (calls : CallGraph) :
    ValueFlow.ofIr (ir.redirect callees) host' pointsTo calls =
      ValueFlow.ofIr ir host pointsTo calls := by
  unfold ValueFlow.ofIr
  rw [h.nodesOf, h.flows, values_redirect]
  simp only [List.flatMap_map, h.directEdges, ValueFlow.memoryEdges_redirect]

end Ir.Redirects

/-- The context with other callees named in its program. -/
def Context.redirect (c : Context) (callees : ValueId → Option FunctionId) : Context :=
  { c with program := { c.program with ir := c.program.ir.redirect callees } }

namespace Taint

variable (c : Context) (callees : ValueId → Option FunctionId)

theorem memoryFacts_redirect : memoryFacts (c.redirect callees) = memoryFacts c := by
  funext n
  have hoperand : (c.redirect callees).ir.operand? = c.ir.operand? := Ir.operand?_redirect callees c.ir
  unfold memoryFacts
  rw [hoperand]
  rfl

theorem consequences_redirect : consequences (c.redirect callees) = consequences c := by
  funext f
  unfold consequences
  rw [memoryFacts_redirect]
  rfl

theorem possible_redirect : possible (c.redirect callees) = possible c := by
  have hvalues : (c.redirect callees).ir.values = c.ir.values.map (Value.redirect callees) :=
    Ir.values_redirect callees c.ir
  unfold possible mentioned
  rw [hvalues, List.flatMap_map]
  rfl

theorem State.drain_redirect (s : State) : s.drain (c.redirect callees) = s.drain c := by
  unfold State.drain
  rw [consequences_redirect, possible_redirect]

theorem State.applyNode_redirect : State.applyNode (c.redirect callees) = State.applyNode c := by
  funext s node
  have hoperands : ((c.redirect callees).ir.value? node.value).map Value.operands =
      (c.ir.value? node.value).map Value.operands := by
    rw [show (c.redirect callees).ir.value? node.value = _ from
      Ir.value?_redirect callees c.ir node.value, Option.map_map]
    rfl
  unfold State.applyNode
  rw [hoperands]
  rfl

theorem State.round_redirect (s : State) : s.round (c.redirect callees) = s.round c := by
  unfold State.round
  simp only [State.drain_redirect, State.applyNode_redirect]
  rfl

theorem State.room_redirect (s : State) : s.room (c.redirect callees) = s.room c := by
  unfold State.room
  rw [possible_redirect]

theorem inputArguments_redirect : inputArguments (c.redirect callees) = inputArguments c := by
  funext call
  have hruntime : (c.redirect callees).ir.isRuntime = c.ir.isRuntime :=
    Ir.isRuntime_redirect callees c.ir
  unfold inputArguments
  rw [hruntime]
  rfl

/-- Taint does not depend on which of its callees a call names. -/
theorem run_redirect : run (c.redirect callees) = run c := by
  have hseeds : seedNodes (c.redirect callees) = seedNodes c := by
    unfold seedNodes sources
    rw [inputArguments_redirect]
    rfl
  have hobjects : seedObjects (c.redirect callees) = seedObjects c := by
    unfold seedObjects
    rw [inputArguments_redirect]
    rfl
  exact run_congr (State.round_redirect c callees) (State.room_redirect c callees) hseeds hobjects rfl

end Taint

/-- The second program is the first but for the callees that its calls name. -/
theorem Built.Parts.context_redirect {b b' : Built} {t t' : Tables} {host host' : HostFacts}
    (h : b.Parts t host) (h' : b'.Parts t' host') {callees : ValueId → Option FunctionId}
    (ht : t' = t.redirect callees) (hr : b.program.ir.Redirects callees host host') :
    b'.pointsTo = b.pointsTo ∧ b'.program.flow = b.program.flow ∧
      b'.program.control = b.program.control ∧ b'.calls = b.calls ∧
      ∀ settings, b'.context settings = (b.context settings).redirect callees := by
  have hir : b'.program.ir = b.program.ir.redirect callees :=
    Tables.ofTables_redirect callees h.ir (ht ▸ h'.ir)
  have hcalls : b'.calls = b.calls := by rw [h'.calls, h.calls, hir, hr.calls]
  have hpoints : b'.pointsTo = b.pointsTo := by rw [h'.pointsTo, h.pointsTo, hir, hr.solve]
  have hflow : b'.program.flow = b.program.flow := by
    rw [h'.flow, h.flow, hir, hpoints, hcalls, hr.flow]
  have hcontrol : b'.program.control = b.program.control := by
    have hc := h'.control
    rw [hir, hcalls, hflow, ControlFlow.ofIr_redirect, h.control] at hc
    exact (Except.ok.inj hc).symm
  refine ⟨hpoints, hflow, hcontrol, hcalls, ?_⟩
  obtain ⟨⟨_, _, _⟩, _, _⟩ := b'
  cases hir
  cases hflow
  cases hcontrol
  cases hcalls
  cases hpoints
  exact fun _ => rfl

end PointerTriage
