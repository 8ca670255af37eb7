import PointerTriage.Ir.Basic
import PointerTriage.Shape.Json

namespace PointerTriage
open Json

def idBound : Nat := 4294967296

def id? : Json → Option Nat := natBelow? idBound

def ids? : Json → Option (List Nat) := listOf? id?

def int64? : Json → Option Int := intBetween? (-9223372036854775808) 9223372036854775807

namespace Constant

def entry : Constant → String × Json
  | .int i => ("int", .integer i)
  | .nullPointer => ("null_pointer", .null)
  | .other => ("other", .null)

/-- The name of the constant and, for an integer, its value. -/
def ofEntries? : List (String × Json) → Option Constant
  | [("int", j)] => (int64? j).map .int
  | [("null_pointer", j)] => (nothing? j).map fun _ => .nullPointer
  | [("other", j)] => (nothing? j).map fun _ => .other
  | _ => none

end Constant

namespace Opcode

def names : List String :=
  ["alloca", "call", "load", "store", "get_element_ptr", "i_cmp", "f_cmp", "cast", "phi", "binary",
    "ret", "branch", "other"]

def toJson : Opcode → Json
  | .alloca shape => .record [("op", .text "alloca"), ("allocated", shape.toJson)]
  | .call callee => .record [("op", .text "call"), ("callee", .option .nat callee)]
  | .load => .record [("op", .text "load")]
  | .store => .record [("op", .text "store")]
  | .getElementPtr => .record [("op", .text "get_element_ptr")]
  | .icmp => .record [("op", .text "i_cmp")]
  | .fcmp => .record [("op", .text "f_cmp")]
  | .cast => .record [("op", .text "cast")]
  | .phi => .record [("op", .text "phi")]
  | .binary => .record [("op", .text "binary")]
  | .ret => .record [("op", .text "ret")]
  | .branch => .record [("op", .text "branch")]
  | .other => .record [("op", .text "other")]

def bareNamed? : String → Option Opcode
  | "load" => some .load
  | "store" => some .store
  | "get_element_ptr" => some .getElementPtr
  | "i_cmp" => some .icmp
  | "f_cmp" => some .fcmp
  | "cast" => some .cast
  | "phi" => some .phi
  | "binary" => some .binary
  | "ret" => some .ret
  | "branch" => some .branch
  | "other" => some .other
  | _ => none

/-- The callee of a call. An object may leave it out, a list may not. -/
def callee? : Json → Option (Option FunctionId)
  | .list [j] => option? id? j
  | .list _ => none
  | content => do withDefault (← fields? false ["callee"] content) "callee" (option? id?) none

def ofJson? (inner : Bool) (j : Json) : Option Opcode := do
  let (name, content) ← tagged? inner "op" names j
  match name with
  | "alloca" =>
    let es ← fields? false ["allocated"] content
    return .alloca (← required es "allocated" (Shape.ofJson? true))
  | "call" => return .call (← callee? content)
  | name =>
    bare? content
    bareNamed? name

end Opcode

namespace ValueKind

def names : List String := ["argument", "global", "constant", "instruction"]

def toJson : ValueKind → Json
  | .argument f i =>
    .record [("kind", .text "argument"), ("function", .nat f), ("index", .nat i)]
  | .global shape fixed =>
    .record [("kind", .text "global"), ("value_type", shape.toJson), ("constant", .bool fixed)]
  | .constant c => .record [("kind", .text "constant"), c.entry]
  | .instruction opcode block =>
    .record [("kind", .text "instruction"), ("opcode", opcode.toJson), ("block", .nat block)]

def ofJson? (j : Json) : Option ValueKind := do
  let (name, content) ← tagged? false "kind" names j
  match name with
  | "argument" =>
    let es ← fields? false ["function", "index"] content
    return .argument (← required es "function" id?)
      (← required es "index" (natBelow? 18446744073709551616))
  | "global" =>
    let es ← fields? false ["value_type", "constant"] content
    return .global (← required es "value_type" (Shape.ofJson? true)) (← required es "constant" bool?)
  | "constant" =>
    match content with
    | .record es => (Constant.ofEntries? es).map .constant
    | _ => none
  | _ =>
    let es ← fields? false ["opcode", "block"] content
    return .instruction (← required es "opcode" (Opcode.ofJson? true)) (← required es "block" id?)

end ValueKind

def Value.toJson (v : Value) : Json :=
  .record ([("id", .nat v.id)] ++ (v.name.map fun n => ("name", .text n)).toList ++
    [("ty", v.shape.toJson), ("kind", v.kind.toJson), ("operands", .nats v.operands)])

def Value.ofJson? (j : Json) : Option Value := do
  let es ← fields? false ["id", "name", "ty", "kind", "operands"] j
  return {
    id := ← required es "id" id?
    name := ← withDefault es "name" (option? text?) none
    shape := ← required es "ty" (Shape.ofJson? false)
    kind := ← required es "kind" ValueKind.ofJson?
    operands := ← withDefault es "operands" ids? [] }

def Function.ofJson? (j : Json) : Option Function := do
  let es ← fields? false ["id", "name", "params", "blocks", "return_type"] j
  return {
    id := ← required es "id" id?
    name := ← required es "name" text?
    params := ← required es "params" ids?
    blocks := ← required es "blocks" ids?
    returns := ← required es "return_type" (Shape.ofJson? false) }

def Block.ofJson? (j : Json) : Option Block := do
  let es ← fields? false ["id", "function", "instructions", "successors"] j
  return {
    id := ← required es "id" id?
    function := ← required es "function" id?
    instructions := ← required es "instructions" ids?
    successors := ← required es "successors" ids? }

namespace Loop

def toJson (l : Loop) : Json :=
  .record [("function", .nat l.function), ("header", .nat l.header),
    ("latch", .option .nat l.latch), ("predecessor", .option .nat l.predecessor),
    ("blocks", .nats l.blocks)]

def ofJson? (j : Json) : Option Loop := do
  let es ← fields? false ["function", "header", "latch", "predecessor", "blocks"] j
  return {
    function := ← required es "function" id?
    header := ← required es "header" id?
    latch := ← withDefault es "latch" (option? id?) none
    predecessor := ← withDefault es "predecessor" (option? id?) none
    blocks := ← withDefault es "blocks" ids? [] }

end Loop

end PointerTriage
