import PointerTriage.Context

namespace PointerTriage

structure Taint where
  seeds : IdSet
  nodes : IdSet
  /-- The tainted nodes that are allocations. -/
  allocations : IdSet
  objects : IdSet
  deriving DecidableEq, Repr

namespace Taint

def isValueTainted (t : Taint) (p : Program) (v : ValueId) : Bool :=
  (p.flow.def? v).any (· ∈ t.nodes)

/-- The allocations of data pointers among the tainted ones. -/
def flagged (t : Taint) (p : Program) : List ValueId :=
  (t.allocations.toList.filter fun n => (p.allocated? n).any Shape.isDataPointer).filterMap
    p.flow.value?

end Taint

end PointerTriage
