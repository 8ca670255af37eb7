import PointerTriage.IdSet
import PointerTriage.Ir.Tables

namespace PointerTriage

structure CallSite where
  site : ValueId
  callees : IdSet
  arguments : List ValueId

structure CallGraph where
  sites : List CallSite

namespace CallGraph

def siteOf? (v : Value) : Option CallSite :=
  match v.opcode? with
  | some (.call callee) => some ⟨v.id, .ofList callee.toList, v.operands⟩
  | _ => none

/-- The direct calls of a program. -/
def ofIr (ir : Ir) : CallGraph := ⟨ir.values.filterMap siteOf?⟩

def addTarget (g : CallGraph) (site : ValueId) (callee : FunctionId) : CallGraph :=
  ⟨g.sites.map fun s => if s.site = site then { s with callees := s.callees.insert callee } else s⟩

def find? (g : CallGraph) (site : ValueId) : Option CallSite := g.sites.find? (·.site == site)

def callees (g : CallGraph) (site : ValueId) : List FunctionId :=
  ((g.find? site).map (·.callees.toList)).getD []

def arguments (g : CallGraph) (site : ValueId) : List ValueId :=
  ((g.find? site).map CallSite.arguments).getD []

end CallGraph

end PointerTriage
