import PointerTriage.Program.Basic
import PointerTriage.Settings.Draft

namespace PointerTriage

/-- Answers about what values may point to. -/
structure PointsToAnswers where
  objects : ValueId → IdSet
  pointers : ObjectId → IdSet
  site? : ObjectId → Option ValueId

def PointsTo.answers (p : PointsTo) : PointsToAnswers where
  objects := p.objects
  pointers := p.pointers
  site? := p.site?

/-- Answers about calls. -/
structure CallAnswers where
  sites : List ValueId
  callees : ValueId → List FunctionId
  arguments : ValueId → List ValueId

def CallGraph.answers (g : CallGraph) : CallAnswers where
  sites := g.sites.map CallSite.site
  callees := g.callees
  arguments := g.arguments

structure Context where
  program : Program
  pointsTo : PointsToAnswers
  calls : CallAnswers
  settings : Settings

namespace Built

def context (b : Built) (settings : Settings) : Context :=
  ⟨b.program, b.pointsTo.answers, b.calls.answers, settings⟩

end Built

namespace Context

def ir (c : Context) : Ir := c.program.ir

def flow (c : Context) : ValueFlow := c.program.flow

def control (c : Context) : ControlFlow := c.program.control

def def? (c : Context) (v : ValueId) : Option NodeId := c.flow.def? v

/-- The names of the functions that a call may reach. -/
def calleeNames (c : Context) (site : ValueId) : List String :=
  (c.calls.callees site).filterMap fun f => (c.ir.function? f).map Function.name

end Context

end PointerTriage
