import PointerTriage.Ir.Json
import PointerTriage.Json.Reader
import PointerTriage.Json.Writer
import PointerTriage.Snapshot.Basic

namespace PointerTriage.Snapshot
open PointerTriage.Json

def texts? : Json → Option (List String) := listOf? text?

def pairs (first second : String) (facts : List (String × String)) : Json :=
  .list (facts.map fun (a, b) => .record [(first, .text a), (second, .text b)])

def pair? (first second : String) (j : Json) : Option (String × String) := do
  let es ← fields? true [first, second] j
  return (← required es first text?, ← required es second text?)

namespace Global

def toJson (g : Global) : Json :=
  .record [("name", .text g.name), ("value_type", g.shape.toJson), ("constant", .bool g.constant)]

def ofJson? (j : Json) : Option Global := do
  let es ← fields? true ["name", "value_type", "constant"] j
  return {
    name := ← required es "name" text?
    shape := ← required es "value_type" (Shape.ofJson? false)
    constant := ← withDefault es "constant" bool? false }

end Global

namespace Param

def toJson (p : Param) : Json := .record [("name", .text p.name), ("ty", p.shape.toJson)]

def ofJson? (j : Json) : Option Param := do
  let es ← fields? true ["name", "ty"] j
  return ⟨← required es "name" text?, ← required es "ty" (Shape.ofJson? false)⟩

end Param

namespace Operand

def toJson : Operand → Json
  | .int i => .integer i
  | .name s => .text s
  | .null => .null

def ofJson? : Json → Option Operand
  | .text s => some (.name s)
  | .null => some .null
  | j => (int64? j).map .int

end Operand

namespace Operation

def names : List String :=
  ["alloca", "call", "load", "store", "gep", "icmp", "fcmp", "cast", "phi", "binary", "ret", "br",
    "other"]

def name : Operation → String
  | .alloca _ => "alloca"
  | .call .. => "call"
  | .load => "load"
  | .store => "store"
  | .gep => "gep"
  | .icmp => "icmp"
  | .fcmp => "fcmp"
  | .cast => "cast"
  | .phi => "phi"
  | .binary => "binary"
  | .ret => "ret"
  | .br => "br"
  | .other => "other"

def payload : Operation → List (String × Json)
  | .alloca allocated => [("allocated", allocated.toJson)]
  | .call callee targets =>
    ("callee", .option .text callee) ::
      if targets.isEmpty then [] else [("targets", .texts targets)]
  | _ => []

def bareNamed? : String → Option Operation
  | "load" => some .load
  | "store" => some .store
  | "gep" => some .gep
  | "icmp" => some .icmp
  | "fcmp" => some .fcmp
  | "cast" => some .cast
  | "phi" => some .phi
  | "binary" => some .binary
  | "ret" => some .ret
  | "br" => some .br
  | "other" => some .other
  | _ => none

def ofJson? (j : Json) : Option Operation := do
  let (name, content) ← tagged? true "op" names j
  match name with
  | "alloca" =>
    let es ← fields? false ["allocated"] content
    return .alloca (← required es "allocated" (Shape.ofJson? true))
  | "call" =>
    let es ← fields? false ["callee", "targets"] content
    return .call (← withDefault es "callee" (option? text?) none)
      (← withDefault es "targets" texts? [])
  | name => bareNamed? name

end Operation

namespace Instruction

def toJson (i : Instruction) : Json :=
  .record ([("name", .option .text i.name), ("op", .text i.operation.name)] ++ i.operation.payload ++
    [("ty", .option Shape.toJson i.shape), ("operands", .list (i.operands.map Operand.toJson))])

def ownFields : List String := ["name", "ty", "operands"]

/-- An instruction shares its object with its operation. -/
def ofJson? : Json → Option Instruction
  | .record entries => do
    let own := entries.filter (ownFields.contains ·.1)
    let es ← fields? true ownFields (.record own)
    return {
      name := ← withDefault es "name" (option? text?) none
      operation := ← Operation.ofJson? (.record (entries.filter (!ownFields.contains ·.1)))
      shape := ← withDefault es "ty" (option? (Shape.ofJson? false)) none
      operands := ← withDefault es "operands" (listOf? Operand.ofJson?) [] }
  | _ => none

end Instruction

namespace Block

def toJson (b : Block) : Json :=
  .record [("label", .text b.label), ("instructions", .list (b.instructions.map Instruction.toJson)),
    ("successors", .texts b.successors)]

def ofJson? (j : Json) : Option Block := do
  let es ← fields? true ["label", "instructions", "successors"] j
  return {
    label := ← required es "label" text?
    instructions := ← required es "instructions" (listOf? Instruction.ofJson?)
    successors := ← withDefault es "successors" texts? [] }

end Block

namespace Function

def toJson (f : Function) : Json :=
  .record [("name", .text f.name), ("return_type", f.returns.toJson),
    ("params", .list (f.params.map Param.toJson)), ("blocks", .list (f.blocks.map Block.toJson))]

def ofJson? (j : Json) : Option Function := do
  let es ← fields? true ["name", "return_type", "params", "blocks"] j
  return {
    name := ← required es "name" text?
    returns := ← withDefault es "return_type" (Shape.ofJson? false) .void
    params := ← withDefault es "params" (listOf? Param.ofJson?) []
    blocks := ← withDefault es "blocks" (listOf? Block.ofJson?) [] }

end Function

namespace Loop

def toJson (l : Loop) : Json :=
  .record [("function", .text l.function), ("header", .text l.header),
    ("latch", .option .text l.latch), ("predecessor", .option .text l.predecessor),
    ("blocks", .texts l.blocks)]

def ofJson? (j : Json) : Option Loop := do
  let es ← fields? true ["function", "header", "latch", "predecessor", "blocks"] j
  return {
    function := ← required es "function" text?
    header := ← required es "header" text?
    latch := ← withDefault es "latch" (option? text?) none
    predecessor := ← withDefault es "predecessor" (option? text?) none
    blocks := ← withDefault es "blocks" texts? [] }

end Loop

def toJson (s : Snapshot) : Json :=
  .record [
    ("globals", .list (s.globals.map Global.toJson)),
    ("functions", .list (s.functions.map Function.toJson)),
    ("loops", .list (s.loops.map Loop.toJson)),
    ("points_to", pairs "pointer" "site" s.pointsTo),
    ("indirect_edges", pairs "from" "to" s.flows),
    ("allocators", .option .texts s.allocators)]

/-- Unknown keys are refused, except in types and instructions. -/
def ofJson? (j : Json) : Option Snapshot := do
  let es ← fields? true
    ["globals", "functions", "loops", "points_to", "indirect_edges", "allocators"] j
  return {
    globals := ← withDefault es "globals" (listOf? Global.ofJson?) []
    functions := ← required es "functions" (listOf? Function.ofJson?)
    loops := ← withDefault es "loops" (listOf? Loop.ofJson?) []
    pointsTo := ← withDefault es "points_to" (listOf? (pair? "pointer" "site")) []
    flows := ← withDefault es "indirect_edges" (listOf? (pair? "from" "to")) []
    allocators := ← withDefault es "allocators" (option? texts?) none }

def parse? (s : String) : Option Snapshot := (Json.parse? s).bind ofJson?

def write (s : Snapshot) : String := s.toJson.pretty

end PointerTriage.Snapshot
