import PointerTriage.Program.Draft
import PointerTriage.Snapshot.Build

namespace PointerTriage

namespace Snapshot

/-- The names met in the first pass, with what each stands for. Those of values and blocks belong to a
function. -/
structure Scope where
  functions : List (String × FunctionId)
  globals : List (String × ValueId)
  locals : List ((FunctionId × String) × ValueId)
  blocks : List ((FunctionId × String) × BlockId)

namespace Scope

def empty : Scope := ⟨[], [], [], []⟩

/-- A name is entered once. -/
def enter {κ α : Type} [DecidableEq κ] (fault : NameFault) (names : List (κ × α)) (name : κ) (a : α) :
    Except NameFault (List (κ × α)) :=
  if name ∈ names.map (·.1) then .error fault else .ok (names ++ [(name, a)])

def lookup? {κ α : Type} [DecidableEq κ] (names : List (κ × α)) (name : κ) : Option α :=
  (names.find? (·.1 == name)).map (·.2)

def function (c : Scope) (name : String) : Except NameFault FunctionId :=
  match lookup? c.functions name with
  | some f => .ok f
  | none => .error (.unknownFunction name)

/-- A local value of the function, else a global. -/
def value (c : Scope) (f : FunctionId) (name : String) : Except NameFault ValueId :=
  match (lookup? c.locals (f, name)).or (lookup? c.globals name) with
  | some v => .ok v
  | none => .error (.unknownValue name f)

def block (c : Scope) (f : FunctionId) (label : String) : Except NameFault BlockId :=
  match lookup? c.blocks (f, label) with
  | some b => .ok b
  | none => .error (.unknownBlock label f)

def reference (c : Scope) (ref : String) : Except NameFault ValueId :=
  match splitColon ref.toList with
  | some (function, name) => do c.value (← c.function (String.ofList function)) (String.ofList name)
  | none =>
    match lookup? c.globals ref with
    | some v => .ok v
    | none => .error (.unknownGlobal ref)

end Scope

/-- The draft and the names after a part of the first pass, with the instructions whose operands are
left to the second. -/
structure Reading where
  draft : ProgramDraft
  scope : Scope
  pending : List (FunctionId × ValueId × Instruction)

namespace Reading

def addFunction (r : Reading) (f : Function) : Except NameFault Reading := do
  let (draft, id) := r.draft.function f.name f.returns
  let functions ← Scope.enter (.duplicateFunction f.name) r.scope.functions f.name id
  return { r with draft, scope := { r.scope with functions } }

def addGlobal (r : Reading) (g : Global) : Except NameFault Reading := do
  let (draft, id) := r.draft.global g.name g.shape g.constant
  let globals ← Scope.enter (.duplicateGlobal g.name) r.scope.globals g.name id
  return { r with draft, scope := { r.scope with globals } }

def addParam (f : FunctionId) (r : Reading) (p : Param) : Except NameFault Reading := do
  let (draft, id) := r.draft.param f p.shape
  let locals ← Scope.enter (.duplicateValue p.name f) r.scope.locals (f, p.name) id
  return { r with draft := draft.setName id p.name, scope := { r.scope with locals } }

def addBlock (f : FunctionId) (function : String) (r : Reading) (b : Block) :
    Except NameFault Reading := do
  let (draft, id) := r.draft.block f
  let blocks ← Scope.enter (.duplicateBlock b.label function) r.scope.blocks (f, b.label) id
  return { r with draft, scope := { r.scope with blocks } }

/-- The instruction has no operands yet. -/
def addInstruction (f : FunctionId) (b : BlockId) (r : Reading) (i : Instruction) :
    Except NameFault Reading := do
  let opcode ← i.operation.opcode r.scope.function
  let (draft, id) := r.draft.instruction b opcode (i.shape.getD i.operation.shape) []
  let pending := r.pending ++ [(f, id, i)]
  match i.name with
  | none => return { r with draft, pending }
  | some name =>
    let locals ← Scope.enter (.duplicateValue name f) r.scope.locals (f, name) id
    return ⟨draft.setName id name, { r.scope with locals }, pending⟩

def addCode (f : FunctionId) (r : Reading) (b : Block) : Except NameFault Reading := do
  b.instructions.foldlM (addInstruction f (← r.scope.block f b.label)) r

def addBody (r : Reading) (f : Function) : Except NameFault Reading := do
  let id ← r.scope.function f.name
  let r ← f.params.foldlM (addParam id) r
  let r ← f.blocks.foldlM (addBlock id f.name) r
  f.blocks.foldlM (addCode id) r

end Reading

def firstDraft (s : Snapshot) : ProgramDraft :=
  match s.allocators with
  | some names => ProgramDraft.empty.withAllocators names
  | none => .empty

def firstPass (s : Snapshot) : Except NameFault Reading := do
  let r ← s.functions.foldlM Reading.addFunction ⟨s.firstDraft, .empty, []⟩
  let r ← s.globals.foldlM Reading.addGlobal r
  s.functions.foldlM Reading.addBody r

namespace Scope

/-- An operand after others, which makes a value if it is a constant. -/
def addOperand (c : Scope) (f : FunctionId) (operands : ProgramDraft × List ValueId) :
    Operand → Except NameFault (ProgramDraft × List ValueId)
  | .int i =>
    let (d, v) := operands.1.int i
    .ok (d, operands.2 ++ [v])
  | .null =>
    let (d, v) := operands.1.nullPointer
    .ok (d, operands.2 ++ [v])
  | .name n => return (operands.1, operands.2 ++ [← c.value f n])

def addTarget (c : Scope) (call : ValueId) (d : ProgramDraft) (name : String) :
    Except NameFault ProgramDraft :=
  return d.target call (← c.function name)

def addOperands (c : Scope) (d : ProgramDraft) (entry : FunctionId × ValueId × Instruction) :
    Except NameFault ProgramDraft := do
  let (f, v, i) := entry
  let (d, operands) ← i.operands.foldlM (c.addOperand f) (d, [])
  i.operation.targets.foldlM (c.addTarget v) (d.setOperands v operands)

def addSuccessor (c : Scope) (f : FunctionId) (b : BlockId) (d : ProgramDraft) (label : String) :
    Except NameFault ProgramDraft :=
  return d.successor b (← c.block f label)

def addSuccessors (c : Scope) (f : FunctionId) (d : ProgramDraft) (b : Block) :
    Except NameFault ProgramDraft := do
  b.successors.foldlM (c.addSuccessor f (← c.block f b.label)) d

def addEdges (c : Scope) (d : ProgramDraft) (f : Function) : Except NameFault ProgramDraft := do
  f.blocks.foldlM (c.addSuccessors (← c.function f.name)) d

def loop (c : Scope) (l : Loop) : Except NameFault PointerTriage.Loop := do
  let f ← c.function l.function
  let blocks ← l.blocks.mapM (c.block f)
  return {
    function := f
    header := ← c.block f l.header
    latch := ← l.latch.mapM (c.block f)
    predecessor := ← l.predecessor.mapM (c.block f)
    blocks }

def addLoop (c : Scope) (d : ProgramDraft) (l : Loop) : Except NameFault ProgramDraft :=
  return d.loop (← c.loop l)

def addPointsTo (c : Scope) (d : ProgramDraft) (refs : String × String) :
    Except NameFault ProgramDraft :=
  return d.pointsTo (← c.reference refs.1) (← c.reference refs.2)

def addFlow (c : Scope) (d : ProgramDraft) (refs : String × String) :
    Except NameFault ProgramDraft :=
  return d.flow (← c.reference refs.1) (← c.reference refs.2)

end Scope

def secondPass (s : Snapshot) (r : Reading) : Except NameFault ProgramDraft := do
  let d ← r.pending.foldlM r.scope.addOperands r.draft
  let d ← s.functions.foldlM r.scope.addEdges d
  let d ← s.loops.foldlM r.scope.addLoop d
  let d ← s.pointsTo.foldlM r.scope.addPointsTo d
  s.flows.foldlM r.scope.addFlow d

/-- The draft of a snapshot, in two passes: whatever has a name is added first, so that names may be
used before they are given. -/
def draft (s : Snapshot) : Except NameFault ProgramDraft := do
  s.secondPass (← s.firstPass)

end Snapshot

end PointerTriage
