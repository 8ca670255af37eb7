import PointerTriage.Program.Basic
import PointerTriage.Settings.Stages
import PointerTriage.Snapshot.Basic

namespace PointerTriage

/-- A name that is given twice or not at all. -/
inductive NameFault where
  | duplicateFunction (name : String)
  | duplicateGlobal (name : String)
  | duplicateValue (name : String) (function : FunctionId)
  | duplicateBlock (label function : String)
  | unknownFunction (name : String)
  | unknownGlobal (reference : String)
  | unknownValue (name : String) (function : FunctionId)
  | unknownBlock (label : String) (function : FunctionId)
  deriving DecidableEq, Repr

def NameFault.message : NameFault → String
  | .duplicateFunction name => s!"duplicate function '{name}'"
  | .duplicateGlobal name => s!"duplicate global '{name}'"
  | .duplicateValue name f => s!"duplicate value name '{name}' in f{f}"
  | .duplicateBlock label function => s!"duplicate block '{label}' in {function}"
  | .unknownFunction name => s!"unknown function '{name}'"
  | .unknownGlobal reference => s!"unknown global '{reference}'"
  | .unknownValue name f => s!"unknown value '{name}' in f{f}"
  | .unknownBlock label f => s!"unknown block '{label}' in f{f}"

/-- Why a snapshot is no program. -/
inductive BuildError where
  | name (fault : NameFault)
  | graph (fault : GraphFault)
  deriving DecidableEq, Repr

namespace Snapshot

/-- A block with its id and the ids of its instructions. -/
structure NumberedBlock where
  source : Block
  id : BlockId
  instructions : List (Instruction × ValueId)

structure NumberedFunction where
  source : Function
  id : FunctionId
  params : List (Param × ValueId)
  blocks : List NumberedBlock

/-- Numbers blocks from the first free block and value. -/
def numberBlocks (block value : Nat) : List Block → List NumberedBlock
  | [] => []
  | b :: bs =>
    ⟨b, block, b.instructions.zipIdx value⟩ ::
      numberBlocks (block + 1) (value + b.instructions.length) bs

def Block.count (bs : List Block) : Nat := (bs.map (·.instructions.length)).foldr (· + ·) 0

/-- The number of values that a function defines. -/
def Function.count (f : Function) : Nat := f.params.length + Block.count f.blocks

def numberFunctions (function block value : Nat) : List Function → List NumberedFunction
  | [] => []
  | f :: fs =>
    ⟨f, function, f.params.zipIdx value, numberBlocks block (value + f.params.length) f.blocks⟩ ::
      numberFunctions (function + 1) (block + f.blocks.length) (value + f.count) fs

/-- Functions, blocks and values are numbered in order: globals first, then the parameters and
instructions of each function. Constants among the operands come after them. -/
def numbered (s : Snapshot) : List NumberedFunction := numberFunctions 0 0 s.globals.length s.functions

/-- The first value that is neither a global nor defined by a function. -/
def firstConstant (s : Snapshot) : ValueId :=
  s.globals.length + (s.functions.map Function.count).foldr (· + ·) 0

namespace NumberedFunction

def instructions (f : NumberedFunction) : List (Instruction × ValueId) :=
  f.blocks.flatMap NumberedBlock.instructions

def locals (f : NumberedFunction) : List (String × ValueId) :=
  f.params.map (fun (p, v) => (p.name, v)) ++
    f.instructions.filterMap fun (i, v) => i.name.map (·, v)

def local? (f : NumberedFunction) (name : String) : Option ValueId :=
  (f.locals.find? (·.1 == name)).map (·.2)

def block (f : NumberedFunction) (label : String) : Except NameFault BlockId :=
  match f.blocks.find? (·.source.label == label) with
  | some b => .ok b.id
  | none => .error (.unknownBlock label f.id)

end NumberedFunction

def functionId (s : Snapshot) (name : String) : Except NameFault FunctionId :=
  match s.functions.findIdx? (·.name == name) with
  | some f => .ok f
  | none => .error (.unknownFunction name)

def numberedFunction (s : Snapshot) (name : String) : Except NameFault NumberedFunction :=
  match s.numbered.find? (·.source.name == name) with
  | some f => .ok f
  | none => .error (.unknownFunction name)

def global? (s : Snapshot) (name : String) : Option ValueId :=
  s.globals.findIdx? (·.name == name)

/-- A local value of the function, else a global. -/
def value (s : Snapshot) (f : NumberedFunction) (name : String) : Except NameFault ValueId :=
  match (f.local? name).or (s.global? name) with
  | some v => .ok v
  | none => .error (.unknownValue name f.id)

/-- What comes before and after the first colon. -/
def splitColon : List Char → Option (List Char × List Char)
  | [] => none
  | c :: cs => if c = ':' then some ([], cs) else (splitColon cs).map fun (a, b) => (c :: a, b)

def reference (s : Snapshot) (ref : String) : Except NameFault ValueId :=
  match splitColon ref.toList with
  | some (function, name) => do
    s.value (← s.numberedFunction (String.ofList function)) (String.ofList name)
  | none =>
    match s.global? ref with
    | some v => .ok v
    | none => .error (.unknownGlobal ref)

/-- Refuses the first name that is in `seen` or occurred before. -/
def checkDistinct (fault : String → NameFault) (seen : List String) :
    List String → Except NameFault Unit
  | [] => .ok ()
  | n :: ns => if n ∈ seen then .error (fault n) else checkDistinct fault (n :: seen) ns

def checkCallee (s : Snapshot) (i : Instruction) : Except NameFault Unit :=
  match i.operation.callee? with
  | some name => (s.functionId name).map fun _ => ()
  | none => .ok ()

/-- Callees are known and names new, instruction by instruction. -/
def checkInstructions (s : Snapshot) (f : FunctionId) (seen : List String) :
    List Instruction → Except NameFault Unit
  | [] => .ok ()
  | i :: is => do
    s.checkCallee i
    match i.name with
    | none => s.checkInstructions f seen is
    | some n =>
      if n ∈ seen then .error (.duplicateValue n f) else s.checkInstructions f (n :: seen) is

def checkFunction (s : Snapshot) (f : NumberedFunction) : Except NameFault Unit := do
  let params := f.source.params.map Param.name
  checkDistinct (.duplicateValue · f.id) [] params
  checkDistinct (.duplicateBlock · f.source.name) [] (f.source.blocks.map Block.label)
  s.checkInstructions f.id params (f.source.blocks.flatMap Block.instructions)

def checkNames (s : Snapshot) : Except NameFault Unit := do
  checkDistinct .duplicateFunction [] (s.functions.map Function.name)
  checkDistinct .duplicateGlobal [] (s.globals.map Global.name)
  s.numbered.forM s.checkFunction

/-- The opcode of an operation, where names of functions are looked up by `function`. -/
def Operation.opcode (function : String → Except NameFault FunctionId) :
    Operation → Except NameFault Opcode
  | .alloca allocated => .ok (.alloca allocated)
  | .call none _ => .ok (.call none)
  | .call (some name) _ => return .call (some (← function name))
  | .load => .ok .load
  | .store => .ok .store
  | .gep => .ok .getElementPtr
  | .icmp => .ok .icmp
  | .fcmp => .ok .fcmp
  | .cast => .ok .cast
  | .phi => .ok .phi
  | .binary => .ok .binary
  | .ret => .ok .ret
  | .br => .ok .branch
  | .other => .ok .other

def opcode (s : Snapshot) (operation : Operation) : Except NameFault Opcode :=
  operation.opcode s.functionId

/-- Operands with the constants among them, which are numbered from `next` on. -/
def operands (s : Snapshot) (f : NumberedFunction) (next : ValueId) :
    List Operand → Except NameFault (List ValueId × List Constant)
  | [] => .ok ([], [])
  | .int i :: ops => do
    let (vs, cs) ← s.operands f (next + 1) ops
    return (next :: vs, .int i :: cs)
  | .null :: ops => do
    let (vs, cs) ← s.operands f (next + 1) ops
    return (next :: vs, .nullPointer :: cs)
  | .name n :: ops => do
    let v ← s.value f n
    let (vs, cs) ← s.operands f next ops
    return (v :: vs, cs)

/-- Values with the constants they use and the recorded targets of the calls among them. -/
structure Linked where
  values : List Value
  constants : List Constant
  targets : List (ValueId × FunctionId)

def Linked.append (a b : Linked) : Linked :=
  ⟨a.values ++ b.values, a.constants ++ b.constants, a.targets ++ b.targets⟩

def linkInstruction (s : Snapshot) (f : NumberedFunction) (block : BlockId) (next : ValueId)
    (i : Instruction) (v : ValueId) : Except NameFault Linked := do
  let opcode ← s.opcode i.operation
  let (vs, cs) ← s.operands f next i.operands
  let targets ← i.operation.targets.mapM s.functionId
  let value : Value := ⟨v, i.name, i.shape.getD i.operation.shape, .instruction opcode block, vs⟩
  return ⟨[value], cs, targets.map (v, ·)⟩

/-- Links a list whose items number their constants one after the other. -/
def linkEach (link : ValueId → α → Except NameFault Linked) (next : ValueId) :
    List α → Except NameFault Linked
  | [] => .ok ⟨[], [], []⟩
  | a :: as => do
    let one ← link next a
    return one.append (← linkEach link (next + one.constants.length) as)

def linkBlock (s : Snapshot) (f : NumberedFunction) (next : ValueId) (b : NumberedBlock) :
    Except NameFault Linked :=
  linkEach (fun next (i, v) => s.linkInstruction f b.id next i v) next b.instructions

def linkFunction (s : Snapshot) (next : ValueId) (f : NumberedFunction) :
    Except NameFault Linked := do
  let params := f.params.zipIdx.map fun ((p, v), index) =>
    (⟨v, some p.name, p.shape, .argument f.id index, []⟩ : Value)
  let body ← linkEach (s.linkBlock f) next f.blocks
  return { body with values := params ++ body.values }

def globalValues (s : Snapshot) : List Value :=
  s.globals.zipIdx.map fun (g, v) =>
    ⟨v, some g.name, .pointerTo g.shape, .global g.shape g.constant, []⟩

def constantValue (c : Constant) (v : ValueId) : Value :=
  let shape : Shape := match c with
    | .int _ => .int 64
    | .nullPointer => .untyped
    | .other => .other
  ⟨v, none, shape, .constant c, []⟩

/-- A block with its successors, each once. -/
def linkSuccessors (f : NumberedFunction) (b : NumberedBlock) :
    Except NameFault PointerTriage.Block := do
  let successors ← b.source.successors.mapM f.block
  return ⟨b.id, f.id, b.instructions.map (·.2), successors.eraseDups⟩

def linkLoop (s : Snapshot) (l : Loop) : Except NameFault PointerTriage.Loop := do
  let f ← s.numberedFunction l.function
  let blocks ← l.blocks.mapM f.block
  return {
    function := f.id
    header := ← f.block l.header
    latch := ← l.latch.mapM f.block
    predecessor := ← l.predecessor.mapM f.block
    blocks }

def linkPair (s : Snapshot) (refs : String × String) : Except NameFault (ValueId × ValueId) :=
  return (← s.reference refs.1, ← s.reference refs.2)

def functionEntry (f : NumberedFunction) : PointerTriage.Function :=
  ⟨f.id, f.source.name, f.params.map (·.2), f.blocks.map NumberedBlock.id, f.source.returns⟩

/-- The tables of a snapshot and the facts of its host. -/
def link (s : Snapshot) : Except NameFault (Tables × HostFacts) := do
  s.checkNames
  let linked ← linkEach s.linkFunction s.firstConstant s.numbered
  let blocks ← s.numbered.mapM fun f => f.blocks.mapM (linkSuccessors f)
  let loops ← s.loops.mapM s.linkLoop
  let pointsTo ← s.pointsTo.mapM s.linkPair
  let flows ← s.flows.mapM s.linkPair
  let constants := (linked.constants.zipIdx s.firstConstant).map fun (c, v) => constantValue c v
  let tables : Tables := {
    values := (s.globalValues ++ linked.values ++ constants).toArray
    functions := (s.numbered.map functionEntry).toArray
    blocks := blocks.flatten.toArray
    loops }
  return (tables, ⟨s.allocators.getD Settings.defaultAllocators, pointsTo, flows, linked.targets⟩)

def build (s : Snapshot) : Except BuildError Built :=
  match s.link with
  | .error fault => .error (.name fault)
  | .ok (tables, host) =>
    match Built.ofTables tables host with
    | .error fault => .error (.graph fault)
    | .ok b => .ok b

end Snapshot

end PointerTriage
