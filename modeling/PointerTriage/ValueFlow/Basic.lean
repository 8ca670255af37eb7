import PointerTriage.Graph.Edges
import PointerTriage.Graph.Layers
import PointerTriage.Ir.Basic

namespace PointerTriage

namespace ValueFlow

inductive NodeKind where
  /-- An allocation. -/
  | addr
  | load
  | store
  | gep
  | copy
  | cmp
  | phi
  | actualReturn
  | formalParam
  | formalReturn
  | other
  deriving DecidableEq, Repr

inductive EdgeKind where
  | direct
  | indirect
  deriving DecidableEq, Repr

/-- Which edges a walk follows. -/
inductive EdgeFilter where
  | all
  | directOnly
  deriving DecidableEq, Repr

def EdgeFilter.admits : EdgeFilter → EdgeKind → Bool
  | .all, _ => true
  | .directOnly, kind => kind == .direct

structure Node where
  kind : NodeKind
  value : ValueId
  deriving DecidableEq, Repr

abbrev Edge := Graph.Edge EdgeKind

end ValueFlow

/-- A node stands for the definition of a value; a direct edge leads from a definition to a use, an
indirect one from a store to a load through memory. -/
structure ValueFlow where
  nodes : Array ValueFlow.Node
  edges : List ValueFlow.Edge
  deriving Repr

namespace ValueFlow

def empty : ValueFlow := ⟨#[], []⟩

def addNode (g : ValueFlow) (n : Node) : ValueFlow := { g with nodes := g.nodes.push n }

def addEdge (g : ValueFlow) (e : Edge) : ValueFlow :=
  { g with edges := Graph.addEdge g.nodes.size g.edges e }

def node? (g : ValueFlow) (n : NodeId) : Option Node := g.nodes[n]?

def kind? (g : ValueFlow) (n : NodeId) : Option NodeKind := (g.node? n).map Node.kind

def value? (g : ValueFlow) (n : NodeId) : Option ValueId := (g.node? n).map Node.value

/-- The node that defines a value. -/
def def? (g : ValueFlow) (v : ValueId) : Option NodeId := g.nodes.findIdx? (·.value == v)

def nodeIds (g : ValueFlow) : List NodeId := List.range g.nodes.size

def successors (g : ValueFlow) (f : EdgeFilter) (n : NodeId) : List NodeId :=
  Graph.outOf f.admits g.edges n

def predecessors (g : ValueFlow) (f : EdgeFilter) (n : NodeId) : List NodeId :=
  Graph.into f.admits g.edges n

/-- The nodes reachable from known seeds. -/
def forwardClosure (g : ValueFlow) (seeds : List NodeId) : List NodeId :=
  Graph.reach (g.successors .all) g.nodeIds seeds

/-- The nodes from which a known seed is reachable. -/
def backwardClosure (g : ValueFlow) (f : EdgeFilter) (seeds : List NodeId) : List NodeId :=
  Graph.reach (g.predecessors f) g.nodeIds seeds

end ValueFlow

end PointerTriage
