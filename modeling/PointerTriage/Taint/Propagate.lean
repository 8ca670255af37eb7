import PointerTriage.Taint.Basic

namespace PointerTriage.Taint

inductive Fact where
  | node (n : NodeId)
  | object (o : ObjectId)
  deriving DecidableEq, Repr

def Fact.node? : Fact → Option NodeId
  | .node n => some n
  | .object _ => none

def Fact.object? : Fact → Option ObjectId
  | .node _ => none
  | .object o => some o

def objectFacts (c : Context) (v : ValueId) : List Fact :=
  (c.pointsTo.objects v).toList.map .object

/-- A tainted store taints its destination and what that points to, a tainted load what it reads. -/
def memoryFacts (c : Context) (n : ValueFlow.Node) : List Fact :=
  match n.kind with
  | .store =>
    match c.ir.operand? n.value 1 with
    | some p => (c.def? p).toList.map .node ++ objectFacts c p
    | none => []
  | .load => ((c.ir.operand? n.value 0).map (objectFacts c)).getD []
  | _ => []

/-- What follows from one fact. A tainted object taints the node that allocates it. -/
def consequences (c : Context) : Fact → List Fact
  | .node n =>
    (c.flow.successors .all n).map .node ++ ((c.flow.node? n).map (memoryFacts c)).getD []
  | .object o => ((c.pointsTo.site? o).bind c.def?).toList.map .node

/-- The values whose objects a rule may taint. -/
def mentioned (c : Context) : List ValueId :=
  c.ir.values.flatMap Value.operands ++ c.calls.sites.flatMap c.calls.arguments

/-- All facts that can be tainted. -/
def possible (c : Context) : List Fact :=
  c.flow.nodeIds.map .node ++ ((mentioned c).flatMap (objectFacts c)).eraseDups

structure State where
  nodes : IdSet
  objects : IdSet
  /-- Nodes that the next closure taints. -/
  pending : List NodeId

namespace State

def facts (s : State) : List Fact :=
  s.nodes.toList.map .node ++ s.pending.map .node ++ s.objects.toList.map .object

def isTainted (s : State) (c : Context) (v : ValueId) : Bool := (c.def? v).any (· ∈ s.nodes)

/-- Tainted, or a pointer to a tainted object. -/
def carries (s : State) (c : Context) (v : ValueId) : Bool :=
  s.isTainted c v || (c.pointsTo.objects v).meets s.objects

def push (s : State) (n : Option NodeId) : State := { s with pending := s.pending ++ n.toList }

def taintObjects (s : State) (c : Context) (v : ValueId) : State :=
  { s with objects := s.objects.union (c.pointsTo.objects v) }

/-- Closes the facts under their consequences. -/
def drain (c : Context) (s : State) : State :=
  let facts := Graph.reach (consequences c) (possible c) s.facts
  ⟨.ofList (facts.filterMap Fact.node?), .ofList (facts.filterMap Fact.object?), []⟩

/-- A copy function moves taint from its source to its destination. -/
def copyArguments (c : Context) (arguments : List ValueId) (s : State) (name : String) : State :=
  match c.settings.taint.findCopy? name with
  | none => s
  | some f =>
    match arguments[f.srcArg]?, arguments[f.dstArg]? with
    | some src, some dst =>
      if s.carries c src then (s.push (c.def? dst)).taintObjects c dst else s
    | _, _ => s

/-- A call with a tainted argument is tainted. -/
def applyCall (c : Context) (s : State) (site : ValueId) : State :=
  let arguments := c.calls.arguments site
  let s := (c.calleeNames site).foldl (copyArguments c arguments) s
  if arguments.any (s.isTainted c) then s.push (c.def? site) else s

/-- An allocation with a tainted operand is tainted, and so are the objects at the base of a computed
address with one. -/
def applyNode (c : Context) (s : State) (node : ValueFlow.Node) : State :=
  let operands := ((c.ir.value? node.value).map Value.operands).getD []
  if operands.any (s.isTainted c) then
    match node.kind with
    | .addr => s.push (c.def? node.value)
    | .gep =>
      match operands.head? with
      | some base => s.taintObjects c base
      | none => s
    | _ => s
  else s

/-- One pass over the calls and one over the nodes, with the facts closed under their consequences
before and after. -/
def round (c : Context) (s : State) : State :=
  let s := c.calls.sites.foldl (applyCall c) (s.drain c)
  let s := c.flow.nodes.toList.foldl (applyNode c) (s.drain c)
  s.drain c

/-- How many facts are not tainted yet. -/
def room (c : Context) (s : State) : Nat := (possible c).length - (s.nodes.size + s.objects.size)

/-- Rounds until one adds nothing, and the number of tainted nodes after each. -/
def saturate (c : Context) (s : State) : State × List Nat :=
  let s' := s.round c
  if s'.room c < s.room c then
    let (t, growth) := saturate c s'
    (t, s'.nodes.size :: growth)
  else (s', [s'.nodes.size])
termination_by s.room c

end State

/-- The calls of input functions. -/
def inputCalls (c : Context) : List (ValueId × Settings.InputFunction) :=
  c.calls.sites.flatMap fun site =>
    ((c.calleeNames site).filterMap c.settings.taint.findInput?).map (site, ·)

/-- The arguments that an input function fills. -/
def inputArguments (c : Context) (call : ValueId × Settings.InputFunction) : List ValueId :=
  ((c.calls.arguments call.1).drop call.2.argStart).filter c.ir.isRuntime

def entryParams (c : Context) : List ValueId :=
  ((c.ir.functionNamed? c.settings.taint.entry).map Function.params).getD []

/-- The values that are untrusted from the start. -/
def sources (c : Context) : List ValueId :=
  entryParams c ++ (inputCalls c).flatMap fun call =>
    inputArguments c call ++ if call.2.taintReturn then [call.1] else []

def seedNodes (c : Context) : List NodeId := (sources c).filterMap c.def?

def seedObjects (c : Context) : List ObjectId :=
  ((inputCalls c).flatMap (inputArguments c)).flatMap fun v =>
    (c.pointsTo.objects v).toList

structure Effort where
  seeds : Nat
  rounds : Nat
  nodes : Nat
  allocations : Nat
  objects : Nat
  /-- The number of tainted nodes after each round. -/
  growth : List Nat
  deriving DecidableEq, Repr

def run (c : Context) : Taint × Effort :=
  let seeds := seedNodes c
  let (s, growth) := State.saturate c ⟨∅, .ofList (seedObjects c), seeds⟩
  let taint : Taint := {
    seeds := .ofList seeds
    nodes := s.nodes
    allocations := s.nodes.filter fun n => c.flow.kind? n = some .addr
    objects := s.objects }
  (taint, ⟨taint.seeds.size, growth.length, taint.nodes.size, taint.allocations.size,
    taint.objects.size, growth⟩)

end PointerTriage.Taint
