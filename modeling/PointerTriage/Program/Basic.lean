import PointerTriage.ControlFlow.Build
import PointerTriage.Ir.Text
import PointerTriage.PointsTo.Solver
import PointerTriage.ValueFlow.Build

namespace PointerTriage

structure Program where
  ir : Ir
  flow : ValueFlow
  control : ControlFlow

namespace Program

/-- The type of the memory that an allocation node hands out. -/
def allocated? (p : Program) (n : NodeId) : Option Shape :=
  match p.flow.node? n with
  | some ⟨.addr, v⟩ => p.ir.allocated? v
  | _ => none

def entryOf? (p : Program) (name : String) : Option LocationId :=
  (p.ir.functionNamed? name).bind (p.control.entry? ·.id)

end Program

namespace ValueFlow.NodeKind

def label : NodeKind → String
  | .addr => "Addr"
  | .load => "Load"
  | .store => "Store"
  | .gep => "Gep"
  | .copy => "Copy"
  | .cmp => "Cmp"
  | .phi => "Phi"
  | .actualReturn => "ActualReturn"
  | .formalParam => "FormalParam"
  | .formalReturn => "FormalReturn"
  | .other => "Other"

end ValueFlow.NodeKind

def Program.describe (p : Program) (n : NodeId) : String :=
  match p.flow.node? n with
  | some node => node.kind.label ++ s!" n{n}: " ++ p.ir.describe node.value
  | none => s!"<unknown n{n}>"

/-- A program with the facts that its analyses ask for. -/
structure Built where
  program : Program
  pointsTo : PointsTo
  calls : CallGraph

def Built.ofTables (t : Tables) (host : HostFacts) : Except GraphFault Built := do
  let ir ← Ir.ofTables t
  host.checkTargets ir
  let calls := host.targets.foldl (fun g (site, f) => g.addTarget site f) (CallGraph.ofIr ir)
  let (pointsTo, _) := PointsTo.solve ir host
  let flow := ValueFlow.ofIr ir host pointsTo calls
  let control ← ControlFlow.ofIr ir calls flow
  return ⟨⟨ir, flow, control⟩, pointsTo, calls⟩

end PointerTriage
