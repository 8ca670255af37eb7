import PointerTriage.Ir.Basic

namespace PointerTriage

/-- Why tables or host facts do not make a program. -/
inductive GraphFault where
  | misplacedValue (slot : Nat) (value : ValueId)
  | unknownOperand (value operand : ValueId)
  | unknownOwner (argument : ValueId) (function : FunctionId)
  | unknownHome (instruction : ValueId) (block : BlockId)
  | unknownCallee (call : ValueId) (function : FunctionId)
  | misplacedFunction (slot : Nat) (function : FunctionId)
  | unknownParameter (function : String) (value : ValueId)
  | unknownBlock (function : String) (block : BlockId)
  | malformedBlock (slot : Nat)
  | unknownInstruction (block : BlockId) (instruction : ValueId)
  | unknownSuccessor (block successor : BlockId)
  | unknownLoopBlocks (header : BlockId)
  | targetOnNonCall (site : ValueId)
  | emptyBlock (block : BlockId) (function : String)
  deriving DecidableEq, Repr

def GraphFault.message : GraphFault → String
  | .misplacedValue slot v => s!"value at slot {slot} carries id v{v}"
  | .unknownOperand v op => s!"v{v} references unknown operand v{op}"
  | .unknownOwner v f => s!"argument v{v} belongs to unknown function f{f}"
  | .unknownHome v b => s!"instruction v{v} sits in unknown block b{b}"
  | .unknownCallee v f => s!"call v{v} targets unknown function f{f}"
  | .misplacedFunction slot f => s!"function at slot {slot} carries id f{f}"
  | .unknownParameter name v => s!"function '{name}' has unknown parameter v{v}"
  | .unknownBlock name b => s!"function '{name}' has unknown block b{b}"
  | .malformedBlock slot => s!"malformed block at slot {slot}"
  | .unknownInstruction b v => s!"block b{b} lists unknown instruction v{v}"
  | .unknownSuccessor b s => s!"block b{b} branches to unknown block b{s}"
  | .unknownLoopBlocks h => s!"loop with header b{h} references unknown blocks"
  | .targetOnNonCall v => s!"call target recorded on non-call v{v}"
  | .emptyBlock b name => s!"block b{b} of function '{name}' has no instructions"

structure Tables where
  values : Array Value
  functions : Array Function
  blocks : Array Block
  loops : List Loop
  deriving Repr

namespace Tables

def hasValue (t : Tables) (v : ValueId) : Bool := v < t.values.size

def hasFunction (t : Tables) (f : FunctionId) : Bool := f < t.functions.size

def hasBlock (t : Tables) (b : BlockId) : Bool := b < t.blocks.size

/-- Applies a check to each entry and its slot, in order. -/
def checkEach (check : Nat → α → Except GraphFault Unit) (slot : Nat) :
    List α → Except GraphFault Unit
  | [] => .ok ()
  | a :: as => do
    check slot a
    checkEach check (slot + 1) as

/-- Refuses the first id that is not in its table. -/
def checkIds (has : Nat → Bool) (fault : Nat → GraphFault) (ids : List Nat) :
    Except GraphFault Unit :=
  match ids.find? (!has ·) with
  | some bad => .error (fault bad)
  | none => .ok ()

def checkKind (t : Tables) (v : Value) : Except GraphFault Unit :=
  match v.kind with
  | .argument f _ => checkIds t.hasFunction (.unknownOwner v.id) [f]
  | .instruction opcode b => do
    checkIds t.hasBlock (.unknownHome v.id) [b]
    match opcode with
    | .call callee => checkIds t.hasFunction (.unknownCallee v.id) callee.toList
    | _ => .ok ()
  | _ => .ok ()

def checkValue (t : Tables) (slot : Nat) (v : Value) : Except GraphFault Unit := do
  if v.id ≠ slot then throw (.misplacedValue slot v.id)
  checkIds t.hasValue (.unknownOperand v.id) v.operands
  t.checkKind v

def checkFunction (t : Tables) (slot : Nat) (f : Function) : Except GraphFault Unit := do
  if f.id ≠ slot then throw (.misplacedFunction slot f.id)
  checkIds t.hasValue (.unknownParameter f.name) f.params
  checkIds t.hasBlock (.unknownBlock f.name) f.blocks

def checkBlock (t : Tables) (slot : Nat) (b : Block) : Except GraphFault Unit := do
  if b.id ≠ slot ∨ !t.hasFunction b.function then throw (.malformedBlock slot)
  checkIds t.hasValue (.unknownInstruction b.id) b.instructions
  checkIds t.hasBlock (.unknownSuccessor b.id) b.successors

def checkLoop (t : Tables) (_ : Nat) (l : Loop) : Except GraphFault Unit :=
  let blocks := l.header :: (l.latch.toList ++ l.predecessor.toList ++ l.blocks)
  if blocks.all t.hasBlock && t.hasFunction l.function then .ok ()
  else .error (.unknownLoopBlocks l.header)

def check (t : Tables) : Except GraphFault Unit := do
  checkEach t.checkValue 0 t.values.toList
  checkEach t.checkFunction 0 t.functions.toList
  checkEach t.checkBlock 0 t.blocks.toList
  checkEach t.checkLoop 0 t.loops

/-- Enters `user` at one of its operands, unless it is the latest entry there. -/
def addUser (user : ValueId) (table : Array (List ValueId)) (operand : ValueId) :
    Array (List ValueId) :=
  table.modify operand fun users => if users.head? = some user then users else user :: users

/-- For each value its users, latest first. -/
def usersLatestFirst (values : Array Value) : Array (List ValueId) :=
  values.toList.foldl (fun table v => v.operands.foldl (addUser v.id) table)
    (Array.replicate values.size [])

end Tables

/-- Checked tables, with the users of each value in ascending order. -/
structure Ir where
  tables : Tables
  userTable : Array (List ValueId)

namespace Ir

def ofTables (t : Tables) : Except GraphFault Ir := do
  t.check
  return ⟨t, (Tables.usersLatestFirst t.values).map List.reverse⟩

def values (ir : Ir) : List Value := ir.tables.values.toList

def functions (ir : Ir) : List Function := ir.tables.functions.toList

def blocks (ir : Ir) : List Block := ir.tables.blocks.toList

def loops (ir : Ir) : List Loop := ir.tables.loops

def valueCount (ir : Ir) : Nat := ir.tables.values.size

def value? (ir : Ir) (v : ValueId) : Option Value := ir.tables.values[v]?

def function? (ir : Ir) (f : FunctionId) : Option Function := ir.tables.functions[f]?

def block? (ir : Ir) (b : BlockId) : Option Block := ir.tables.blocks[b]?

/-- The last function of that name. -/
def functionNamed? (ir : Ir) (name : String) : Option Function :=
  ir.functions.reverse.find? (·.name == name)

/-- The values that have `v` among their operands. -/
def users (ir : Ir) (v : ValueId) : List ValueId := ir.userTable[v]?.getD []

def opcode? (ir : Ir) (v : ValueId) : Option Opcode := (ir.value? v).bind Value.opcode?

def blockOf? (ir : Ir) (v : ValueId) : Option BlockId := (ir.value? v).bind Value.block?

/-- The function whose block holds the instruction. -/
def ownerOf? (ir : Ir) (v : ValueId) : Option FunctionId :=
  ((ir.blockOf? v).bind ir.block?).map Block.function

def constant? (ir : Ir) (v : ValueId) : Option Constant := (ir.value? v).bind Value.constant?

def isConstant (ir : Ir) (v : ValueId) : Bool := (ir.constant? v).isSome

def isNullPointer (ir : Ir) (v : ValueId) : Bool := ir.constant? v = some .nullPointer

def constantInt? (ir : Ir) (v : ValueId) : Option Int :=
  match ir.constant? v with
  | some (.int i) => some i
  | _ => none

def isCall (ir : Ir) (v : ValueId) : Bool := (ir.opcode? v).any Opcode.isCall

/-- An address computation whose indices are all constants. -/
def isConstantGep (ir : Ir) (v : ValueId) : Bool :=
  match ir.value? v, ir.opcode? v with
  | some value, some .getElementPtr => (value.operands.drop 1).all ir.isConstant
  | _, _ => false

/-- Operands that may carry data of the run. -/
def isRuntime (ir : Ir) (v : ValueId) : Bool := !ir.isConstant v && !ir.isConstantGep v

def callee? (ir : Ir) (v : ValueId) : Option FunctionId :=
  match ir.opcode? v with
  | some (.call callee) => callee
  | _ => none

def calleeName? (ir : Ir) (v : ValueId) : Option String :=
  ((ir.callee? v).bind ir.function?).map Function.name

def allocated? (ir : Ir) (v : ValueId) : Option Shape := (ir.value? v).bind Value.allocated?

def operand? (ir : Ir) (v : ValueId) (i : Nat) : Option ValueId :=
  (ir.value? v).bind (·.operands[i]?)

def isGlobal (ir : Ir) (v : ValueId) : Bool :=
  match (ir.value? v).map Value.kind with
  | some (.global ..) => true
  | _ => false

end Ir

end PointerTriage
