import PointerTriage.HostFacts

namespace PointerTriage

inductive Constraint where
  /-- What `source` points to, `target` points to. -/
  | copy (source target : ValueId)
  /-- What `value` points to is kept in what `pointer` points to. -/
  | store (value pointer : ValueId)
  /-- What is kept in what `pointer` points to, `result` points to. -/
  | load (pointer result : ValueId)
  deriving DecidableEq, Repr

/-- The `ret` instructions in blocks of a function. -/
def Ir.rets (ir : Ir) (f : FunctionId) : List Value :=
  ir.values.filter fun v =>
    match v.kind with
    | .instruction .ret block => (ir.block? block).any (·.function == f)
    | _ => false

namespace Constraint

/-- Arguments flow to parameters, and what a function returns to the call. -/
def ofCall (ir : Ir) (call : Value) (target : FunctionId) : List Constraint :=
  match ir.function? target with
  | none => []
  | some f =>
    (call.operands.zip f.params).map (fun (a, p) => .copy a p) ++
      (ir.rets target).flatMap fun r => r.operands.head?.toList.map (.copy · call.id)

def copiesOf (ir : Ir) (host : HostFacts) (v : Value) : List Constraint :=
  match v.opcode? with
  | some .getElementPtr | some .cast => v.operands.head?.toList.map (.copy · v.id)
  | some .phi => v.operands.map (.copy · v.id)
  | some (.call callee) =>
    if ir.allocates host.allocators v.id then []
    else (callee.toList ++ host.targetsOf v.id).flatMap (ofCall ir v)
  | _ => []

def accessesOf (v : Value) : List Constraint :=
  match v.opcode?, v.operands with
  | some .store, value :: pointer :: _ => [.store value pointer]
  | some .load, pointer :: _ => [.load pointer v.id]
  | _, _ => []

def copies (ir : Ir) (host : HostFacts) : List Constraint := ir.values.flatMap (copiesOf ir host)

def accesses (ir : Ir) : List Constraint := ir.values.flatMap accessesOf

end Constraint

end PointerTriage
