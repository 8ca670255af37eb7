import PointerTriage.Json.Basic
import PointerTriage.Outcome.Basic

namespace PointerTriage

def IdSet.toJson (s : IdSet) : Json := .nats s.toList

def Candidate.toJson : Candidate → Json
  | .object o => .record [("kind", .text "object"), ("id", .nat o)]
  | .value v => .record [("kind", .text "value"), ("id", .nat v)]

def RankedObject.toJson (o : RankedObject) : Json :=
  .record [
    ("candidate", o.candidate.toJson),
    ("rule_count", .nat o.ruleCount),
    ("usage_count", .nat o.usageCount),
    ("rules", .texts (o.rules.map Rule.name)),
    ("values", o.values.toJson),
    ("loads", o.loads.toJson),
    ("stores", o.stores.toJson)]

def Ranking.toJson (r : Ranking) : Json :=
  .record [("ranked", .list (r.ranked.map RankedObject.toJson)), ("top_k", .nat r.topK)]

def Access.name : Access → String
  | .load => "load"
  | .store => "store"

def Access.listJson (accesses : List (ValueId × Access)) : Json :=
  .list (accesses.map fun (v, a) => .record [("value", .nat v), ("access", .text a.name)])

/-- Each flagged value has priority 1. -/
def Findings.toJson (f : Findings) : Json :=
  let notes := f.flagged.entries.filterMap fun (v, note) => note.map (toString v, .text ·)
  .record [
    ("rule", .text f.rule.name),
    ("priorities", .record (f.values.map fun v => (toString v, .nat 1))),
    ("details", .record notes)]

def Taint.toJson (t : Taint) : Json :=
  .record [
    ("seeds", t.seeds.toJson),
    ("tainted", t.nodes.toJson),
    ("unsafe_nodes", t.allocations.toJson),
    ("tainted_objects", t.objects.toJson)]

def Taint.Effort.toJson (e : Taint.Effort) : Json :=
  .record [
    ("seeds", .nat e.seeds),
    ("iterations", .nat e.rounds),
    ("tainted_nodes", .nat e.nodes),
    ("unsafe_nodes", .nat e.allocations),
    ("tainted_objects", .nat e.objects),
    ("growth", .nats e.growth)]

def Report.toJson (r : Report) : Json :=
  .record [
    ("ranked", .texts r.ranked),
    ("rules", .list (r.rules.map fun (rule, text) =>
      .record [("rule", .text rule.name), ("text", .text text)]))]

def Outcome.toJson (o : Outcome) : Json :=
  .record [
    ("ranking", o.ranking.toJson),
    ("protected", Access.listJson o.accesses),
    ("rule_results", .list (o.findings.map Findings.toJson)),
    ("taint", .record [("snapshot", o.taint.toJson), ("stats", o.effort.toJson)]),
    ("report", o.report.toJson),
    ("stats", .record [
      ("total_data_pointers", .nat o.dataPointers),
      ("input_dependent", .nat o.inputDependent),
      ("candidates", .nat o.ranking.ranked.length),
      ("selected", .nat o.ranking.selected.length),
      ("protected_loads", .nat o.protectedLoads),
      ("protected_stores", .nat o.protectedStores)])]

end PointerTriage
