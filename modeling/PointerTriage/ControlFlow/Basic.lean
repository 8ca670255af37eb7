import PointerTriage.Graph.Edges
import PointerTriage.Graph.Layers
import PointerTriage.Ir.Basic

namespace PointerTriage

namespace ControlFlow

/-- A statement has one node and a call two; a function has an entry and an exit. -/
inductive NodeKind where
  | intraBlock
  | call
  | return
  | funEntry
  | funExit
  | globalBlock
  deriving DecidableEq, Repr

inductive EdgeKind where
  | intra
  | call
  | return
  deriving DecidableEq, Repr

structure Node where
  kind : NodeKind
  function : Option FunctionId
  value : Option ValueId
  deriving DecidableEq, Repr

def globalNode : Node := ⟨.globalBlock, none, none⟩

abbrev Edge := Graph.Edge EdgeKind

end ControlFlow

/-- Node 0 is the block of the globals. -/
structure ControlFlow where
  nodes : Array ControlFlow.Node
  edges : List ControlFlow.Edge
  /-- Where the nodes of the value-flow graph sit. -/
  places : List (NodeId × LocationId)
  deriving Repr

namespace ControlFlow

def empty : ControlFlow := ⟨#[globalNode], [], []⟩

def globalBlock : LocationId := 0

def node? (g : ControlFlow) (c : LocationId) : Option Node := g.nodes[c]?

/-- The node where control enters an instruction. -/
def Node.isStart (v : ValueId) (n : Node) : Bool :=
  (n.kind == .intraBlock || n.kind == .call) && n.value == some v

/-- The node where control leaves an instruction. -/
def Node.isEnd (v : ValueId) (n : Node) : Bool :=
  (n.kind == .intraBlock || n.kind == .return) && n.value == some v

/-- The location of an instruction, of a call its call node. -/
def startOf? (g : ControlFlow) (v : ValueId) : Option LocationId := g.nodes.findIdx? (·.isStart v)

def endOf? (g : ControlFlow) (v : ValueId) : Option LocationId := g.nodes.findIdx? (·.isEnd v)

def entry? (g : ControlFlow) (f : FunctionId) : Option LocationId :=
  g.nodes.findIdx? fun n => n.kind == .funEntry && n.function == some f

def exit? (g : ControlFlow) (f : FunctionId) : Option LocationId :=
  g.nodes.findIdx? fun n => n.kind == .funExit && n.function == some f

def location? (g : ControlFlow) (n : NodeId) : Option LocationId :=
  (g.places.find? (·.1 == n)).map (·.2)

/-- The nodes of the value-flow graph that sit at a location. -/
def flowNodes (g : ControlFlow) (c : LocationId) : List NodeId :=
  (g.places.filter (·.2 == c)).map (·.1)

def nodeIds (g : ControlFlow) : List LocationId := List.range g.nodes.size

def successors (g : ControlFlow) (c : LocationId) : List LocationId :=
  Graph.outOf (fun _ => true) g.edges c

def predecessors (g : ControlFlow) (c : LocationId) : List LocationId :=
  Graph.into (fun _ => true) g.edges c

/-- The shortest distance of each location that is reachable from a known entry. -/
def depths (g : ControlFlow) (entry : LocationId) : List (LocationId × Nat) :=
  Graph.distances g.successors g.nodeIds [entry]

end ControlFlow

end PointerTriage
