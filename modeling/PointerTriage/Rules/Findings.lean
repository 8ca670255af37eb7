import PointerTriage.IdMap
import PointerTriage.Program.Basic
import PointerTriage.Settings.Rule

namespace PointerTriage

/-- The values that a rule flags, with a note on each that has one. -/
structure Findings where
  rule : Rule
  flagged : IdMap (Option String)

namespace Findings

def empty (r : Rule) : Findings := ⟨r, .empty⟩

/-- A value is flagged once; its first note stays. -/
def flag (f : Findings) (v : ValueId) (note : Option String) : Findings :=
  { f with flagged := f.flagged.insert v note }

def ofFlags (r : Rule) (flags : List (ValueId × Option String)) : Findings :=
  flags.foldl (fun f (v, note) => f.flag v note) (empty r)

def values (f : Findings) : List ValueId := f.flagged.keys

/-- The distance of a value's location from the entry. -/
def depth? (p : Program) (depths : List (LocationId × Nat)) (v : ValueId) : Option Nat :=
  ((p.flow.def? v).bind p.control.location?).bind fun l =>
    (depths.find? (·.1 == l)).map (·.2)

/-- Known depths come first, then smaller ids. -/
def rowOrder : Option Nat × ValueId → Option Nat × ValueId → Bool
  | (some d, v), (some e, w) => d < e || (d == e && v ≤ w)
  | (some _, _), (none, _) => true
  | (none, _), (some _, _) => false
  | (none, v), (none, w) => v ≤ w

def rowText (f : Findings) (p : Program) (row : Option Nat × ValueId) : String :=
  let depth := (row.1.map toString).getD "-"
  let note := match f.flagged.get? row.2 with
    | some (some text) => "  ; " ++ text
    | _ => ""
  s!"[{depth}] " ++ p.ir.describe row.2 ++ note ++ "\n"

/-- A heading, and a line for each flagged value, nearest to the entry first. -/
def report (f : Findings) (p : Program) (depths : List (LocationId × Nat)) : String :=
  let rows := (f.values.map fun v => (depth? p depths v, v)).mergeSort rowOrder
  s!"== {f.rule.name} ({rows.length} flagged) ==\n" ++ String.join (rows.map (f.rowText p))

end Findings

end PointerTriage
