import PointerTriage.Ir.Tables

namespace PointerTriage

structure HostFacts where
  /-- Functions whose calls return fresh memory. -/
  allocators : List String
  /-- A pointer and an allocation site it may point to. -/
  pointsTo : List (ValueId × ValueId)
  /-- Flows through memory, from a value to a value. -/
  flows : List (ValueId × ValueId)
  /-- An indirect call and a function it may reach. -/
  targets : List (ValueId × FunctionId)
  deriving Repr

/-- Globals, stack slots and calls of allocators hand out memory. -/
def Ir.allocates (ir : Ir) (allocators : List String) (v : ValueId) : Bool :=
  match (ir.value? v).map Value.kind with
  | some (.global ..) | some (.instruction (.alloca _) _) => true
  | some (.instruction (.call _) _) => (ir.calleeName? v).any allocators.contains
  | _ => false

namespace HostFacts

def targetsOf (host : HostFacts) (site : ValueId) : List FunctionId :=
  (host.targets.filter (·.1 == site)).map (·.2)

def checkTarget (ir : Ir) (target : ValueId × FunctionId) : Except GraphFault Unit :=
  if !ir.isCall target.1 then .error (.targetOnNonCall target.1)
  else if (ir.function? target.2).isNone then .error (.unknownCallee target.1 target.2)
  else .ok ()

/-- Targets are functions, recorded on calls. -/
def checkTargets (host : HostFacts) (ir : Ir) : Except GraphFault Unit :=
  host.targets.forM (checkTarget ir)

end HostFacts

end PointerTriage
