import PointerTriage.Protection
import PointerTriage.Report
import PointerTriage.Rules.Check
import PointerTriage.Taint.Propagate

namespace PointerTriage

/-- Allocations of data pointers, constant variables apart. -/
def Program.dataPointers (p : Program) : List ValueId :=
  (p.flow.nodes.toList.filter (·.kind == .addr)).map ValueFlow.Node.value |>.filter fun v =>
    let isConstantGlobal := match (p.ir.value? v).map Value.kind with
      | some (.global _ true) => true
      | _ => false
    !isConstantGlobal && (p.ir.allocated? v).any Shape.isDataPointer

structure Outcome where
  ranking : Ranking
  accesses : List (ValueId × Access)
  findings : List Findings
  taint : Taint
  effort : Taint.Effort
  report : Report
  /-- Allocations of data pointers in the program. -/
  dataPointers : Nat
  /-- Those that are tainted. -/
  inputDependent : Nat

namespace Outcome

def run (c : Context) (checks : List Rules.Check) : Outcome :=
  let (taint, effort) := Taint.run c
  let findings := checks.map (·.run c taint)
  let ranking := Ranking.rank c findings
  { ranking
    accesses := ranking.accessesToProtect c.ir c.settings.ranking.protection
    findings, taint, effort
    report := .build c ranking findings
    dataPointers := c.program.dataPointers.length
    inputDependent := (taint.flagged c.program).length }

def protectedLoads (o : Outcome) : Nat := (o.accesses.filter (·.2 == .load)).length

def protectedStores (o : Outcome) : Nat := (o.accesses.filter (·.2 == .store)).length

/-- The flagged values that stand for selected candidates. -/
def selectedValues (o : Outcome) : IdSet :=
  .ofList (o.ranking.selected.flatMap (·.values.toList))

/-- The text of an outcome; rules are reported one by one if the settings ask for it. -/
def text (o : Outcome) (c : Context) : String :=
  let selected := o.ranking.selected
  o.report.rankedText ++
    s!"== selected ({selected.length}) ==\n" ++
    String.join (selected.map fun r => r.candidate.describe c ++ "\n") ++
    s!"== protected ({o.protectedLoads} loads, {o.protectedStores} stores) ==\n" ++
    String.join (o.accesses.map fun (v, a) => a.label ++ " " ++ c.ir.describe v ++ "\n") ++
    if c.settings.rules.logEach then o.report.rulesText else ""

end Outcome

end PointerTriage
