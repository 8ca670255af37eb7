import PointerTriage.IdSet
import PointerTriage.Settings.Stages

namespace PointerTriage
open Decimal (Binary64)

/-- What a flagged value stands for. A value that points to nothing stands for itself. -/
inductive Candidate where
  | object (o : Nat)
  | value (v : Nat)
  deriving DecidableEq, Repr, Inhabited

def Candidate.text : Candidate → String
  | .object o => s!"o{o}"
  | .value v => s!"v{v}"

/-- Objects come before values. -/
def Candidate.order : Candidate → Candidate → Ordering
  | .object a, .object b => compare a b
  | .object _, .value _ => .lt
  | .value _, .object _ => .gt
  | .value a, .value b => compare a b

structure RankedObject where
  candidate : Candidate
  /-- Distinct voting rules that flag the candidate. -/
  ruleCount : Nat
  /-- Loads and stores that use it. -/
  usageCount : Nat
  rules : List Rule
  /-- Flagged values that stand for it. -/
  values : IdSet
  loads : IdSet
  stores : IdSet
  deriving DecidableEq, Repr

/-- More rules first, then more accesses, then the smaller candidate. -/
def RankedObject.order (a b : RankedObject) : Ordering :=
  (compare b.ruleCount a.ruleCount).then <|
    (compare b.usageCount a.usageCount).then (a.candidate.order b.candidate)

def RankedObject.accesses (a : RankedObject) : List Nat := a.loads.toList ++ a.stores.toList

structure Ranking where
  ranked : List RankedObject
  /-- How many of the first are selected. -/
  topK : Nat
  deriving DecidableEq, Repr

namespace Ranking

def sort (objects : List RankedObject) : List RankedObject :=
  objects.mergeSort fun a b => (a.order b).isLE

def selected (r : Ranking) : List RankedObject := r.ranked.take r.topK

/-- The share `p` percent of `n`, rounded with a half up, at least one and at most `n`. -/
def share (n : Nat) (p : Binary64) : Nat :=
  if n = 0 then 0
  else
    let k := (.ofNat n * p / .ofNat 100 : Binary64).roundHalfAway 0 18446744073709551615
    max 1 (min n k.toNat)

end Ranking

end PointerTriage
