namespace PointerTriage.Graph

structure Edge (κ : Type) where
  source : Nat
  target : Nat
  kind : κ
  deriving DecidableEq, Repr

variable {κ : Type}

/-- An edge that is there already, or that has an unknown end, is not added. -/
def addEdge [DecidableEq κ] (size : Nat) (edges : List (Edge κ)) (e : Edge κ) : List (Edge κ) :=
  if e.source < size ∧ e.target < size ∧ e ∉ edges then edges ++ [e] else edges

def addEdges [DecidableEq κ] (size : Nat) (edges new : List (Edge κ)) : List (Edge κ) :=
  new.foldl (addEdge size) edges

def outOf (admits : κ → Bool) (edges : List (Edge κ)) (n : Nat) : List Nat :=
  (edges.filter fun e => e.source == n && admits e.kind).map Edge.target

def into (admits : κ → Bool) (edges : List (Edge κ)) (n : Nat) : List Nat :=
  (edges.filter fun e => e.target == n && admits e.kind).map Edge.source

end PointerTriage.Graph
