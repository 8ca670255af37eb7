namespace PointerTriage.Graph

variable {α : Type}

/-- What a walk found: the leaves it met, first met first. A walk that runs out of visits also lists
the node it would have visited next. -/
structure Unfolding (α : Type) where
  leaves : List α
  visits : Nat
  truncated : Bool
  deriving DecidableEq, Repr

/-- Takes the first of a queue, kept as its front and its reversed back. -/
def pop? (front back : List α) : Option (α × List α × List α) :=
  match front with
  | a :: front => some (a, front, back)
  | [] =>
    match back.reverse with
    | a :: front => some (a, front, [])
    | [] => none

/-- Walks on from a queue, with the leaves that were met so far, latest first. -/
def unfoldFrom (children : α → List α) (budget visits : Nat) (front back met : List α) :
    Unfolding α :=
  match pop? front back with
  | none => ⟨met.reverse, visits, false⟩
  | some (a, front, back) =>
    match budget with
    | 0 => ⟨(a :: met).reverse, visits, true⟩
    | budget + 1 =>
      match children a with
      | [] => unfoldFrom children budget (visits + 1) front back (a :: met)
      | cs => unfoldFrom children budget (visits + 1) front (cs.reverse ++ back) met

/-- Unfolds a tree, given by the children of its nodes, level by level up to a number of visits. -/
def unfold (children : α → List α) (budget : Nat) (root : α) : Unfolding α :=
  unfoldFrom children budget 0 [root] [] []

end PointerTriage.Graph
