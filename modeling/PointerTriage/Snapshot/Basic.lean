import PointerTriage.Shape.Basic

namespace PointerTriage

namespace Snapshot

structure Global where
  name : String
  shape : Shape
  constant : Bool
  deriving Repr

structure Param where
  name : String
  shape : Shape
  deriving Repr

inductive Operand where
  | int (i : Int)
  /-- A local value of the function or else a global. -/
  | name (s : String)
  | null
  deriving DecidableEq, Repr

inductive Operation where
  | alloca (allocated : Shape)
  /-- A call with its direct callee and the functions an indirect one may reach. -/
  | call (callee : Option String) (targets : List String)
  | load
  | store
  | gep
  | icmp
  | fcmp
  | cast
  | phi
  | binary
  | ret
  | br
  | other
  deriving Repr

namespace Operation

/-- The type of an instruction that names none. -/
def shape : Operation → Shape
  | .alloca allocated => .pointerTo allocated
  | .icmp | .fcmp => .int 1
  | .store | .ret | .br => .void
  | .load | .gep | .cast => .untyped
  | .call .. | .phi | .binary | .other => .other

def callee? : Operation → Option String
  | .call callee _ => callee
  | _ => none

def targets : Operation → List String
  | .call _ targets => targets
  | _ => []

end Operation

structure Instruction where
  name : Option String
  operation : Operation
  shape : Option Shape
  operands : List Operand
  deriving Repr

structure Block where
  label : String
  instructions : List Instruction
  successors : List String
  deriving Repr

structure Function where
  name : String
  returns : Shape
  params : List Param
  blocks : List Block
  deriving Repr

structure Loop where
  function : String
  header : String
  latch : Option String
  predecessor : Option String
  blocks : List String
  deriving Repr

end Snapshot

/-- References in facts are `function:value`, or the name of a global. -/
structure Snapshot where
  globals : List Snapshot.Global
  functions : List Snapshot.Function
  loops : List Snapshot.Loop
  /-- A pointer and an allocation site it may point to. -/
  pointsTo : List (String × String)
  /-- Flows through memory. -/
  flows : List (String × String)
  /-- Functions that return fresh memory, if they are not the usual ones. -/
  allocators : Option (List String)
  deriving Repr

end PointerTriage
