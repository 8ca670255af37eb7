import PointerTriage.Settings.Stages

namespace PointerTriage.BoundCheck
open Decimal (Binary64)
open Settings (Weights)

/-- The numeric bound that the comparisons before a node suggest. -/
inductive BoundKind where
  /-- There is no comparison. -/
  | none
  /-- Some comparison is against a constant. -/
  | constant
  /-- There are comparisons, none against a constant. -/
  | variable
  deriving DecidableEq, Repr, Inhabited

namespace BoundKind

def weight (w : Weights) : BoundKind → Int
  | .none => w.noneBound
  | .constant => w.constantBound
  | .variable => w.variableBound

def name : BoundKind → String
  | .none => "none"
  | .constant => "constant"
  | .variable => "variable"

end BoundKind

def minScore : Int := -2147483648

def maxScore : Int := 2147483647

/-- Scores stay within 32 bits. -/
def clamp (i : Int) : Int := max minScore (min maxScore i)

/-- `before + scale · share · weight`, cut to an integer. -/
def accumulate (before scale : Int) (share : Binary64) (weight : Int) : Int :=
  (.ofInt before + .ofInt scale * share * .ofInt weight : Binary64).truncate minScore maxScore

/-- Higher means better guarded. Without paths only the kind of bound counts. -/
def score (w : Weights) (total relevant : Nat) (kind : BoundKind) : Int :=
  let paths :=
    if total = 0 then 0
    else
      let all := Binary64.ofNat total
      let some := Binary64.ofNat (min relevant total)
      let unguarded := accumulate 0 w.scale ((all - some) / all) w.noCmp
      accumulate unguarded w.scale (some / all) w.yesCmp
  clamp (paths + kind.weight w)

end PointerTriage.BoundCheck
