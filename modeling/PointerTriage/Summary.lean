import PointerTriage.Context
import PointerTriage.Text.Quoted

namespace PointerTriage

def Settings.Preset.label : Settings.Preset → String
  | .fast => "Fast"
  | .balanced => "Balanced"
  | .thorough => "Thorough"
  | .custom => "Custom"

def Context.summary (c : Context) : String :=
  s!"AnalysisContext \x7b values: {c.ir.valueCount}, vfg_nodes: {c.flow.nodes.size}, " ++
    s!"preset: {c.settings.preset.label} \x7d"

def Settings.rulesSummary (s : Settings) : String :=
  let rules := ", ".intercalate (s.enabled.map fun r => Text.quoted r.name)
  s!"RuleRegistry \x7b rules: [{rules}], parallel: {s.rules.parallel} \x7d"

def Settings.runSummary (s : Settings) : String :=
  "PrioritizationPipeline \x7b config: " ++ Text.quoted s.describe ++ ", registry: " ++
    s.rulesSummary ++ " \x7d"

end PointerTriage
