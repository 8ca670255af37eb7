import PointerTriage.IdMap
import PointerTriage.Ir.Tables
import PointerTriage.Ranking.Basic

namespace PointerTriage

inductive Access where
  | load
  | store
  deriving DecidableEq, Repr

namespace Access

def label : Access → String
  | .load => "Load"
  | .store => "Store"

/-- A load of a data pointer, or a store of one. -/
def ofDataPointer? (ir : Ir) (v : Value) : Option Access :=
  match v.opcode? with
  | some .store =>
    if (v.operands.head?.bind ir.value?).any (·.shape.isDataPointer) then some .store else none
  | some .load => if v.shape.isDataPointer then some .load else none
  | _ => none

end Access

/-- The protected accesses, in the order of the values. -/
def Ranking.accessesToProtect (r : Ranking) (ir : Ir) :
    Settings.Protection → List (ValueId × Access)
  | .none => []
  | .full =>
    (IdMap.ofList (ir.values.filterMap fun v =>
      (Access.ofDataPointer? ir v).map (v.id, ·))).entries
  | .prioritized =>
    (IdMap.ofList (r.selected.flatMap fun o =>
      o.loads.toList.map (·, .load) ++ o.stores.toList.map (·, .store))).entries

end PointerTriage
