import PointerTriage.CallGraph
import PointerTriage.PointsTo.Basic
import PointerTriage.PointsTo.Constraint
import PointerTriage.ValueFlow.Basic

namespace PointerTriage.ValueFlow

/-- Constants and branches define nothing. -/
def kindOf? (ir : Ir) (allocators : List String) (v : Value) : Option NodeKind :=
  match v.kind with
  | .argument .. => some .formalParam
  | .global .. => some .addr
  | .constant _ => none
  | .instruction opcode _ =>
    match opcode with
    | .alloca _ => some .addr
    | .call _ => some (if ir.allocates allocators v.id then .addr else .actualReturn)
    | .load => some .load
    | .store => some .store
    | .getElementPtr => some .gep
    | .icmp | .fcmp => some .cmp
    | .cast => some .copy
    | .phi => some .phi
    | .ret => some .formalReturn
    | .binary | .other => some .other
    | .branch => none

def nodesOf (ir : Ir) (allocators : List String) : List Node :=
  ir.values.filterMap fun v => (kindOf? ir allocators v).map (⟨·, v.id⟩)

/-- The edge between the definitions of two values, if both have a node. -/
def link (g : ValueFlow) (kind : EdgeKind) (source target : ValueId) : List Edge :=
  match g.def? source, g.def? target with
  | some a, some b => [⟨a, b, kind⟩]
  | _, _ => []

/-- Arguments lead to parameters of a callee with a body, and its `ret` instructions to the call. -/
def calleeEdges (g : ValueFlow) (ir : Ir) (call : Value) (callee : FunctionId) : List Edge :=
  match ir.function? callee with
  | some f =>
    if f.isDeclaration then []
    else
      (call.operands.zip f.params).flatMap (fun (a, p) => g.link .direct a p) ++
        (ir.rets callee).flatMap fun r => g.link .direct r.id call.id
  | none => []

def directEdges (g : ValueFlow) (ir : Ir) (allocators : List String) (calls : CallGraph)
    (v : Value) : List Edge :=
  match v.opcode? with
  | some (.call _) =>
    if ir.allocates allocators v.id then []
    else (calls.callees v.id).flatMap (g.calleeEdges ir v)
  | some _ => v.operands.flatMap (g.link .direct · v.id)
  | none => []

/-- Stores and the pointers they store to. -/
def storesOf (ir : Ir) : List (ValueId × ValueId) :=
  ir.values.filterMap fun v =>
    match v.opcode? with
    | some .store => (v.operands[1]?).map (v.id, ·)
    | _ => none

/-- Loads and the pointers they load from. -/
def loadsOf (ir : Ir) : List (ValueId × ValueId) :=
  ir.values.filterMap fun v =>
    match v.opcode? with
    | some .load => (v.operands[0]?).map (v.id, ·)
    | _ => none

def memoryEdges (g : ValueFlow) (ir : Ir) (pointsTo : PointsTo) : List Edge :=
  (storesOf ir).flatMap fun (store, p) =>
    ((loadsOf ir).filter (pointsTo.mayAlias p ·.2)).flatMap fun (load, _) =>
      g.link .indirect store load

/-- Direct edges come in the order of their users, then the flows through memory, those that the
host found last. -/
def ofIr (ir : Ir) (host : HostFacts) (pointsTo : PointsTo) (calls : CallGraph) : ValueFlow :=
  let g := (nodesOf ir host.allocators).foldl addNode empty
  let edges :=
    ir.values.flatMap (g.directEdges ir host.allocators calls) ++ g.memoryEdges ir pointsTo ++
      host.flows.flatMap fun (a, b) => g.link .indirect a b
  edges.foldl addEdge g

end PointerTriage.ValueFlow
