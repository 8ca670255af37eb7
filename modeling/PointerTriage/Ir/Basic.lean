import PointerTriage.Shape.Basic

namespace PointerTriage

/-- An id is the index of its entry in the table of its kind. -/
abbrev ValueId := Nat
abbrev ObjectId := Nat
abbrev NodeId := Nat
abbrev LocationId := Nat
abbrev FunctionId := Nat
abbrev BlockId := Nat

inductive Constant where
  | int (i : Int)
  | nullPointer
  | other
  deriving Repr, DecidableEq

/-- Operands by opcode: `store` has the value and the pointer, `load` the pointer, `call` the
arguments, `getElementPtr` the base and the indices, comparisons both sides, `cast` its source, and
`alloca` an optional element count. -/
inductive Opcode where
  | alloca (allocated : Shape)
  /-- An indirect call names no callee. -/
  | call (callee : Option FunctionId)
  | load
  | store
  | getElementPtr
  | icmp
  | fcmp
  | cast
  | phi
  | binary
  | ret
  | branch
  | other
  deriving Repr

namespace Opcode

def isCmp : Opcode → Bool
  | .icmp | .fcmp => true
  | _ => false

def isMemoryAccess : Opcode → Bool
  | .load | .store => true
  | _ => false

def isCall : Opcode → Bool
  | .call _ => true
  | _ => false

def mnemonic : Opcode → String
  | .alloca _ => "alloca"
  | .call _ => "call"
  | .load => "load"
  | .store => "store"
  | .getElementPtr => "getelementptr"
  | .icmp => "icmp"
  | .fcmp => "fcmp"
  | .cast => "cast"
  | .phi => "phi"
  | .binary => "binop"
  | .ret => "ret"
  | .branch => "br"
  | .other => "inst"

end Opcode

inductive ValueKind where
  | argument (function : FunctionId) (index : Nat)
  /-- The value is the address of the variable. -/
  | global (shape : Shape) (constant : Bool)
  | constant (c : Constant)
  | instruction (opcode : Opcode) (block : BlockId)
  deriving Repr

structure Value where
  id : ValueId
  name : Option String
  shape : Shape
  kind : ValueKind
  operands : List ValueId
  deriving Repr

namespace Value

def opcode? (v : Value) : Option Opcode :=
  match v.kind with
  | .instruction opcode _ => some opcode
  | _ => none

def block? (v : Value) : Option BlockId :=
  match v.kind with
  | .instruction _ block => some block
  | _ => none

def constant? (v : Value) : Option Constant :=
  match v.kind with
  | .constant c => some c
  | _ => none

/-- The type of the memory that an allocation hands out: of a stack slot or global what it holds, of a
call what it returns. -/
def allocated? (v : Value) : Option Shape :=
  match v.kind with
  | .instruction (.alloca shape) _ => some shape
  | .instruction (.call _) _ => some v.shape
  | .global shape _ => some shape
  | _ => none

end Value

structure Function where
  id : FunctionId
  name : String
  params : List ValueId
  /-- The entry block comes first; a declaration has none. -/
  blocks : List BlockId
  returns : Shape
  deriving Repr

def Function.isDeclaration (f : Function) : Bool := f.blocks.isEmpty

structure Block where
  id : BlockId
  function : FunctionId
  instructions : List ValueId
  successors : List BlockId
  deriving Repr

/-- A natural loop. -/
structure Loop where
  function : FunctionId
  header : BlockId
  latch : Option BlockId
  /-- The one block outside the loop that leads to the header, if there is one. -/
  predecessor : Option BlockId
  blocks : List BlockId
  deriving Repr

end PointerTriage
