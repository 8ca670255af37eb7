import PointerTriage.Ranking.Basic
import PointerTriage.Rules.Findings
import PointerTriage.Users

namespace PointerTriage

namespace Candidate

/-- What a value stands for: its objects, or itself if it has none. -/
def resolve (c : Context) (v : ValueId) : List Candidate :=
  match (c.pointsTo.objects v).toList with
  | [] => [.value v]
  | objects => objects.map .object

def users (c : Context) : Candidate → IdSet
  | .object o => c.usersOfObject o
  | .value v => c.users v

def loads (c : Context) (k : Candidate) : IdSet :=
  (k.users c).filter fun u => match c.ir.opcode? u with
    | some .load => true
    | _ => false

def stores (c : Context) (k : Candidate) : IdSet :=
  (k.users c).filter fun u => match c.ir.opcode? u with
    | some .store => true
    | _ => false

end Candidate

namespace Ranking

/-- A rule that flags a value which stands for a candidate. -/
structure Vote where
  candidate : Candidate
  value : ValueId
  rule : Rule
  deriving DecidableEq

def votes (c : Context) (findings : List Findings) : List Vote :=
  findings.flatMap fun f =>
    f.values.flatMap fun v => (Candidate.resolve c v).map (⟨·, v, f.rule⟩)

def rankedObject (c : Context) (votes : List Vote) (k : Candidate) : RankedObject :=
  let own := votes.filter (·.candidate == k)
  let rules := Rule.all.filter fun r => r.votes && own.any (·.rule == r)
  let loads := k.loads c
  let stores := k.stores c
  { candidate := k
    ruleCount := rules.length
    usageCount := loads.size + stores.size
    rules
    values := .ofList (own.map Vote.value)
    loads
    stores }

def rank (c : Context) (findings : List Findings) : Ranking :=
  let votes := votes c findings
  let candidates := (votes.map Vote.candidate).eraseDups
  let ranked := sort (candidates.map (rankedObject c votes))
  ⟨ranked, share ranked.length c.settings.ranking.percentile⟩

end Ranking

end PointerTriage
