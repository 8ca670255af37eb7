import PointerTriage.CallGraph
import PointerTriage.ControlFlow.Basic
import PointerTriage.ValueFlow.Basic

namespace PointerTriage

namespace Ir

/-- The functions with a body. -/
def defined (ir : Ir) : List Function := ir.functions.filter (!·.isDeclaration)

def body (ir : Ir) (f : Function) : List Block := f.blocks.filterMap ir.block?

/-- The instructions of all bodies. -/
def placed (ir : Ir) : List ValueId :=
  ir.defined.flatMap fun f => (ir.body f).flatMap Block.instructions

end Ir

namespace ControlFlow

def instructionNodes (ir : Ir) (f : FunctionId) (v : ValueId) : List Node :=
  if ir.isCall v then [⟨.call, some f, some v⟩, ⟨.return, some f, some v⟩]
  else [⟨.intraBlock, some f, some v⟩]

def functionNodes (ir : Ir) (f : Function) : List Node :=
  ⟨.funEntry, some f.id, none⟩ :: ⟨.funExit, some f.id, none⟩ ::
    (ir.body f).flatMap fun b => b.instructions.flatMap (instructionNodes ir f.id)

def nodesOf (ir : Ir) : List Node := globalNode :: ir.defined.flatMap (functionNodes ir)

def join (kind : EdgeKind) : Option LocationId → Option LocationId → List Edge
  | some a, some b => [⟨a, b, kind⟩]
  | _, _ => []

/-- The edges between the instructions of a block. -/
def blockEdges (g : ControlFlow) (b : Block) : List Edge :=
  (b.instructions.zip b.instructions.tail).flatMap fun (i, j) =>
    join .intra (g.endOf? i) (g.startOf? j)

def firstOf? (g : ControlFlow) (b : Block) : Option LocationId :=
  b.instructions.head?.bind g.startOf?

def lastOf? (g : ControlFlow) (b : Block) : Option LocationId :=
  b.instructions.getLast?.bind g.endOf?

def functionEdges (g : ControlFlow) (ir : Ir) (f : Function) : List Edge :=
  (ir.body f).flatMap g.blockEdges ++
    join .intra (g.entry? f.id) ((ir.body f).head?.bind g.firstOf?)

def successorEdges (g : ControlFlow) (ir : Ir) (b : Block) : List Edge :=
  b.successors.flatMap fun s => join .intra (g.lastOf? b) ((ir.block? s).bind g.firstOf?)

/-- Into a callee with a body and back. -/
def calleeEdges (g : ControlFlow) (call : ValueId) (callee : FunctionId) : List Edge :=
  join .call (g.startOf? call) (g.entry? callee) ++ join .return (g.exit? callee) (g.endOf? call)

def transferEdges (g : ControlFlow) (ir : Ir) (calls : CallGraph) (v : ValueId) : List Edge :=
  match ir.opcode? v with
  | some (.call _) =>
    join .intra (g.startOf? v) (g.endOf? v) ++ (calls.callees v).flatMap (g.calleeEdges v)
  | some .ret => join .intra (g.endOf? v) ((ir.ownerOf? v).bind g.exit?)
  | _ => []

def isCalled (ir : Ir) (calls : CallGraph) (f : FunctionId) : Bool :=
  ir.placed.any fun v => ir.isCall v && (calls.callees v).contains f

def rootEdges (g : ControlFlow) (ir : Ir) (calls : CallGraph) : List Edge :=
  (ir.defined.filter (!isCalled ir calls ·.id)).flatMap fun f =>
    join .intra (some globalBlock) (g.entry? f.id)

/-- Parameters sit at the entry of their function, globals in their block, and other nodes at their
instruction. -/
def placesOf (g : ControlFlow) (ir : Ir) (flow : ValueFlow) : List (NodeId × LocationId) :=
  let place := fun (v : ValueId) (c : Option LocationId) =>
    match flow.def? v, c with
    | some n, some c => [(n, c)]
    | _, _ => []
  let inFunction := fun (f : Function) =>
    f.params.flatMap (fun v => place v (g.entry? f.id)) ++
      (ir.body f).flatMap fun b => b.instructions.flatMap fun v => place v (g.startOf? v)
  ir.defined.flatMap inFunction ++
    (ir.values.filter (ir.isGlobal ·.id)).flatMap fun v => place v.id (some globalBlock)

/-- A block of a body without instructions. -/
def emptyBlock? (ir : Ir) : Option GraphFault :=
  let fault := fun (f : Function) =>
    ((ir.body f).find? (·.instructions.isEmpty)).map fun b => .emptyBlock b.id f.name
  ir.defined.findSome? fault

/-- The edges of each function come first, then those between blocks, then calls and returns, and
last the edges from the globals to the functions that nothing calls. -/
def ofIr (ir : Ir) (calls : CallGraph) (flow : ValueFlow) : Except GraphFault ControlFlow :=
  match emptyBlock? ir with
  | some fault => .error fault
  | none =>
    let g : ControlFlow := ⟨(nodesOf ir).toArray, [], []⟩
    let edges :=
      ir.defined.flatMap (g.functionEdges ir) ++ ir.blocks.flatMap (g.successorEdges ir) ++
        ir.placed.flatMap (g.transferEdges ir calls) ++ g.rootEdges ir calls
    .ok { g with
      edges := Graph.addEdges g.nodes.size [] edges
      places := g.placesOf ir flow }

end ControlFlow

end PointerTriage
