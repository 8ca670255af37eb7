import PointerTriage.BoundCheck.Score
import PointerTriage.BoundCheck.Search

namespace PointerTriage.BoundCheck

structure Estimate where
  node : NodeId
  kind : BoundKind
  lower : Option Int
  upper : Option Int
  cmpCount : Nat
  totalPaths : Nat
  relevantPaths : Nat
  score : Int
  truncated : Bool
  deriving DecidableEq, Repr

def Estimate.isGuarded (e : Estimate) : Bool := 0 < e.relevantPaths

/-- The constants among the comparisons give the bounds. -/
def classify (c : Context) (cmps : List LocationId) : BoundKind × Option Int × Option Int :=
  let constants := cmps.filterMap (constantRhs? c)
  match constants.min?, constants.max? with
  | some lo, some hi => (.constant, some lo, some hi)
  | _, _ => (if cmps.isEmpty then .none else .variable, none, none)

def estimate (c : Context) (n : NodeId) : Estimate :=
  let found := cmps c n
  let (kind, lower, upper) := classify c found
  let search := paths c n
  let relevant := relevantCmps c search.leaves (dependencies c n)
  let guarded := (search.leaves.filter (·.any (· ∈ relevant))).length
  let total := search.leaves.length
  { node := n, kind, lower, upper
    cmpCount := found.length
    totalPaths := total
    relevantPaths := guarded
    score := score c.settings.bound.weights total guarded kind
    truncated := search.truncated }

end PointerTriage.BoundCheck
