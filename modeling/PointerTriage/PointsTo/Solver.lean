import PointerTriage.PointsTo.Basic
import PointerTriage.PointsTo.Constraint

namespace PointerTriage.PointsTo

/-- Points-to sets, and what is kept in each object. -/
structure State where
  pointsTo : Relation
  memory : Relation

namespace State

def size (s : State) : Nat := s.pointsTo.size + s.memory.size

def apply (s : State) : Constraint → State
  | .copy source target =>
    { s with pointsTo := s.pointsTo.insertAll target (s.pointsTo.image source) }
  | .store value pointer =>
    let stored := s.pointsTo.image value
    let memory := (s.pointsTo.image pointer).toList.foldl (fun m o => m.insertAll o stored) s.memory
    { s with memory }
  | .load pointer result =>
    let held := (s.pointsTo.image pointer).toList.map s.memory.image
    { s with pointsTo := held.foldl (fun r objects => r.insertAll result objects) s.pointsTo }

/-- Each constraint is applied to what the earlier ones left. -/
def pass (constraints : List Constraint) (s : State) : State := constraints.foldl apply s

/-- Runs passes as long as the room left under `capacity` shrinks; the number counts all passes. -/
def saturate (constraints : List Constraint) (capacity : Nat) (s : State) : State × Nat :=
  let s' := s.pass constraints
  if capacity - s'.size < capacity - s.size then
    let (t, n) := saturate constraints capacity s'
    (t, n + 1)
  else (s', 1)
termination_by capacity - s.size

end State

/-- One object for each value that allocates, and the host's facts about them. -/
def ofSites (ir : Ir) (host : HostFacts) : PointsTo :=
  let sites := ir.values.filter (ir.allocates host.allocators ·.id)
  let own := sites.foldl (fun p v =>
    let (p, o) := p.addLocation v.id
    match v.allocated? with
    | some shape => p.setShape o shape
    | none => p) empty
  host.pointsTo.foldl (fun p (pointer, site) =>
    match own.locationAt? site with
    | some o => p.add pointer o
    | none => p) own

/-- An upper bound on the number of pairs: a row for each site, host fact and constraint and a row for
each object, with all objects in each row. -/
def capacity (start : PointsTo) (constraints : List Constraint) : Nat :=
  let n := start.locations.length
  (start.relation.rows.length + constraints.length + n) * n

structure Effort where
  sites : Nat
  copies : Nat
  accesses : Nat
  passes : Nat
  deriving DecidableEq, Repr

def solve (ir : Ir) (host : HostFacts) : PointsTo × Effort :=
  let start := ofSites ir host
  let copies := Constraint.copies ir host
  let accesses := Constraint.accesses ir
  let constraints := copies ++ accesses
  let (s, passes) :=
    State.saturate constraints (capacity start constraints) ⟨start.relation, .empty⟩
  (start.addAll s.pointsTo.pairs,
    ⟨start.locations.length, copies.length, accesses.length, passes⟩)

end PointerTriage.PointsTo
