import PointerTriage.Ranking.Rank

namespace PointerTriage

namespace Candidate

def describe (c : Context) : Candidate → String
  | .object o =>
    match c.pointsTo.site? o with
    | some site => s!"o{o}: " ++ c.ir.describe site
    | none => s!"o{o}"
  | .value v => c.ir.describe v

end Candidate

structure Report where
  ranked : List String
  rules : List (Rule × String)
  deriving DecidableEq, Repr

namespace Report

def padLeft (width : Nat) (s : String) : String :=
  String.ofList (List.replicate (width - s.length) ' ') ++ s

/-- A star marks what is selected. -/
def line (c : Context) (topK index : Nat) (o : RankedObject) : String :=
  let marker := if index < topK then "*" else " "
  let number := padLeft 3 (toString (index + 1))
  let rules := ", ".intercalate (o.rules.map Rule.name)
  s!"{marker} {number}. " ++ o.candidate.describe c ++
    s!"  rules={o.ruleCount} usage={o.usageCount} [{rules}]"

/-- Distances from the entry of the configured function. -/
def depths (c : Context) : List (LocationId × Nat) :=
  ((c.program.entryOf? c.settings.taint.entry).map c.control.depths).getD []

def build (c : Context) (ranking : Ranking) (findings : List Findings) : Report :=
  let depths := depths c
  { ranked := ranking.ranked.zipIdx.map fun (o, i) => line c ranking.topK i o
    rules := findings.map fun f => (f.rule, f.report c.program depths) }

def rankedText (r : Report) : String :=
  s!"== ranked ({r.ranked.length}) ==\n" ++ String.join (r.ranked.map (· ++ "\n"))

def rulesText (r : Report) : String := String.join (r.rules.map (·.2))

def text (r : Report) : String := r.rankedText ++ r.rulesText

end Report

end PointerTriage
