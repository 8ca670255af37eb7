import PointerTriage.Context
import PointerTriage.Graph.Collect
import PointerTriage.Graph.Unfold

namespace PointerTriage.BoundCheck

def edgeFilter (c : Context) : ValueFlow.EdgeFilter :=
  if c.settings.bound.followIndirectEdges then .all else .directOnly

/-- The operands that decide how much an allocation other than a stack slot hands out. -/
def sizeOperands (c : Context) (n : NodeId) : List ValueId :=
  match c.flow.node? n with
  | some ⟨.addr, v⟩ =>
    match c.ir.opcode? v with
    | some (.alloca _) => []
    | _ => (((c.ir.value? v).map Value.operands).getD []).filter (!c.ir.isConstant ·)
  | _ => []

/-- The nodes that a node depends on. -/
def dependencies (c : Context) (n : NodeId) : IdSet :=
  .ofList (c.flow.backwardClosure (edgeFilter c) (n :: (sizeOperands c n).filterMap c.def?))

/-- The comparison at a location. -/
def cmpAt? (c : Context) (l : LocationId) : Option ValueId :=
  match c.control.node? l with
  | some ⟨.intraBlock, _, some v⟩ => if (c.ir.opcode? v).any Opcode.isCmp then some v else none
  | _ => none

def isCmp (c : Context) (l : LocationId) : Bool := (cmpAt? c l).isSome

/-- The nearest comparisons before a node, up to a number. -/
def cmpsUpTo (c : Context) (cap : Nat) (n : NodeId) : List LocationId :=
  match c.control.location? n with
  | none => []
  | some start =>
    Graph.collect c.control.predecessors (fun l => l != start && isCmp c l) cap
      (c.control.nodeIds.erase start) [start]

/-- The nearest comparisons before a node, as many as the settings ask for. -/
def cmps (c : Context) (n : NodeId) : List LocationId :=
  cmpsUpTo c c.settings.bound.maxBackwardCmps n

/-- A backward path, last location first. -/
abbrev Path := List LocationId

/-- A path stops at its greatest length, and at the last comparison it may hold. -/
def isComplete (c : Context) (path : Path) : Bool :=
  c.settings.bound.maxPathLength ≤ path.length ||
    match path with
    | [] => true
    | last :: _ =>
      isCmp c last && c.settings.bound.maxPathsWithCmps ≤ (path.filter (isCmp c)).length

/-- A path with one more location before it, in all ways that repeat no location. -/
def extend (c : Context) (path : Path) : List Path :=
  match path with
  | [] => []
  | last :: _ =>
    if isComplete c path then []
    else ((c.control.predecessors last).filter (!path.contains ·)).map (· :: path)

def noPaths : Graph.Unfolding Path := ⟨[], 0, false⟩

/-- The paths that lead to a node, with their nodes from the node backward. -/
def paths (c : Context) (n : NodeId) : Graph.Unfolding Path :=
  match c.control.location? n with
  | none => noPaths
  | some start =>
    let found := Graph.unfold (extend c) c.settings.bound.maxExploredPaths [start]
    { found with leaves := found.leaves.map List.reverse }

/-- A comparison matters if it depends on something that the node depends on. -/
def isRelevant (c : Context) (deps : IdSet) (l : LocationId) : Bool :=
  (c.flow.backwardClosure (edgeFilter c) (c.control.flowNodes l)).any (· ∈ deps)

/-- The comparisons on some paths that matter. -/
def relevantCmps (c : Context) (paths : List Path) (deps : IdSet) : IdSet :=
  (IdSet.ofList (paths.flatMap (·.filter (isCmp c)))).filter (isRelevant c deps)

def rhs? (c : Context) (l : LocationId) : Option ValueId :=
  (cmpAt? c l).bind (c.ir.operand? · 1)

/-- The integer that a comparison compares with. -/
def constantRhs? (c : Context) (l : LocationId) : Option Int := (rhs? c l).bind c.ir.constantInt?

def hasVariableRhs (c : Context) (l : LocationId) : Bool := (rhs? c l).any (!c.ir.isConstant ·)

end PointerTriage.BoundCheck
