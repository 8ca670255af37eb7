import PointerTriage.Ir.Tables

namespace PointerTriage

namespace Value

def label (v : Value) (id : ValueId) : String :=
  match v.name with
  | some n => "%" ++ n
  | none => s!"%v{id}"

def globalLabel (v : Value) : String := "@" ++ v.name.getD "global"

end Value

namespace Ir

def operandText (ir : Ir) (id : ValueId) : String :=
  match ir.value? id with
  | none => s!"<unknown v{id}>"
  | some v =>
    match v.kind with
    | .constant (.int i) => toString i
    | .constant .nullPointer => "null"
    | .global .. => v.globalLabel
    | _ => v.label id

def instructionHead (ir : Ir) (v : Value) (id : ValueId) : Opcode → String
  | .alloca shape => v.label id ++ " = alloca " ++ shape.text
  | .call callee =>
    let target := ((callee.bind ir.function?).map Function.name).getD "<indirect>"
    v.label id ++ " = call " ++ v.shape.text ++ " @" ++ target
  | .store => "store"
  | .branch => "br"
  | .ret => "ret"
  | opcode => v.label id ++ " = " ++ opcode.mnemonic ++ " " ++ v.shape.text

/-- One line on a value: what it is, its type and its operands. -/
def describe (ir : Ir) (id : ValueId) : String :=
  match ir.value? id with
  | none => s!"<unknown v{id}>"
  | some v =>
    match v.kind with
    | .argument f index =>
      let owner := ((ir.function? f).map Function.name).getD "?"
      v.label id ++ s!" = arg #{index} of " ++ owner
    | .global shape _ => v.globalLabel ++ " = global " ++ shape.text
    | .constant (.int i) => v.shape.text ++ " " ++ toString i
    | .constant .nullPointer => "null"
    | .constant .other => v.shape.text ++ " <const>"
    | .instruction opcode _ =>
      let head := ir.instructionHead v id opcode
      if v.operands.isEmpty then head
      else head ++ " " ++ ", ".intercalate (v.operands.map ir.operandText)

end Ir

end PointerTriage
