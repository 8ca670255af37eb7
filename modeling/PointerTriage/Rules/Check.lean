import PointerTriage.BoundCheck.Estimate
import PointerTriage.Rules.Findings
import PointerTriage.Taint.Basic
import PointerTriage.Users

namespace PointerTriage.Rules
open BoundCheck

abbrev Flag := ValueId × Option String

/-- All tainted allocations of data pointers. -/
def baseline (c : Context) (t : Taint) : List Flag := (t.flagged c.program).map (·, none)

def boundNote (e : Estimate) : String :=
  let bounds := match e.lower, e.upper with
    | some lo, some hi => s!" [{lo}, {hi}]"
    | _, _ => ""
  s!"bound={e.kind.name}{bounds} paths={e.relevantPaths}/{e.totalPaths} score={e.score}"

/-- Those that no comparison guards. -/
def unguarded (c : Context) (t : Taint) : List Flag :=
  (t.flagged c.program).filterMap fun v =>
    (c.def? v).bind fun n =>
      let e := estimate c n
      if e.isGuarded then none else some (v, some (boundNote e))

/-- Tainted calls of an allocator with an operand that is not constant. -/
def allocatorCalls (c : Context) (t : Taint) : List Value :=
  c.ir.values.filter fun v =>
    v.opcode?.any Opcode.isCall &&
      (c.calleeNames v.id).any c.settings.rules.allocators.contains &&
      v.operands.any (!c.ir.isConstant ·) && t.isValueTainted c.program v.id

/-- Those that no comparison with a variable bounds. -/
def unboundedAlloc (c : Context) (t : Taint) : List Flag :=
  (allocatorCalls c t).filterMap fun v =>
    (c.def? v.id).bind fun n =>
      let found := (paths c n).leaves
      if (relevantCmps c found (dependencies c n)).toList.any (hasVariableRhs c) then none
      else some (v.id, some s!"paths={found.length}")

/-- Stack slots and variables that may hold a data pointer. -/
def holdsPointer (v : Value) : Bool :=
  match v.kind with
  | .instruction (.alloca _) _ => true
  | .global shape constant => !constant && shape.isDataPointer
  | _ => false

/-- Memory in which a pointer lies behind a buffer. -/
def pointerAfterBuffer (c : Context) : List Flag :=
  (c.ir.values.filter holdsPointer).filterMap fun v =>
    match v.allocated? with
    | some shape =>
      if shape.pointerAfterBuffer then some (v.id, some ("type " ++ shape.text)) else none
    | none => none

/-- Tainted allocations with a user that meets a condition; the first such user is the witness. -/
def byUser (c : Context) (t : Taint) (isWitness : ValueId → Bool) : List Flag :=
  (t.flagged c.program).filterMap fun v =>
    ((c.users v).toList.find? isWitness).map fun w => (v, some ("via " ++ c.ir.describe w))

/-- A comparison with something else than the null pointer. -/
def comparesBounds (c : Context) (u : ValueId) : Bool :=
  (c.ir.opcode? u).any Opcode.isCmp && (c.ir.operand? u 1).any (!c.ir.isNullPointer ·)

/-- An access in the header or latch of a loop, or a comparison there or right before the loop. -/
def controlsLoop (c : Context) (u : ValueId) : Bool :=
  match c.ir.opcode? u, c.ir.blockOf? u with
  | some opcode, some block =>
    let inside := c.ir.loops.any fun l => l.header == block || l.latch == some block
    let before := c.ir.loops.any fun l => l.predecessor == some block
    if opcode.isMemoryAccess then inside else opcode.isCmp && (inside || before)
  | _, _ => false

/-- The sizes on both sides of a cast: of two pointers, those of what they point to. -/
def castSizes? (source target : Shape) : Option (Nat × Nat) :=
  if source.isPointer && target.isPointer then do
    return (← (← source.pointee?).size?, ← (← target.pointee?).size?)
  else do return (← source.size?, ← target.size?)

/-- A cast between types of different size. -/
def resizes (ir : Ir) (u : ValueId) : Bool :=
  match ir.value? u with
  | some v =>
    match v.opcode? with
    | some .cast =>
      ((v.operands.head?.bind ir.value?).bind fun s => castSizes? s.shape v.shape).any
        fun (a, b) => a != b
    | _ => false
  | none => false

/-- The arguments of calls of vulnerable functions that carry data of the run. -/
def vulnerableArguments (c : Context) : List ValueId :=
  let sites := c.calls.sites.filter fun site =>
    (c.calleeNames site).any c.settings.rules.vulnerable.contains
  (sites.flatMap c.calls.arguments).filter c.ir.isRuntime

def vulnerableArgument (c : Context) (t : Taint) : List Flag :=
  let arguments := vulnerableArguments c
  byUser c t arguments.contains

/-- What a rule flags in a program with given taint. -/
structure Check where
  rule : Rule
  flags : Context → Taint → List Flag

namespace Check

def ofRule (r : Rule) : Check :=
  ⟨r, match r with
    | .baseline => baseline
    | .boundCheck => unguarded
    | .cmpExistence => fun c t => byUser c t (comparesBounds c)
    | .loopUsage => fun c t => byUser c t (controlsLoop c)
    | .typeShape => fun c _ => pointerAfterBuffer c
    | .vulnerableArg => vulnerableArgument
    | .resizingCast => fun c t => byUser c t (resizes c.ir)
    | .unboundedAlloc => unboundedAlloc⟩

def run (k : Check) (c : Context) (t : Taint) : Findings := .ofFlags k.rule (k.flags c t)

end Check

/-- The checks that settings ask for, in the fixed order of the rules. -/
def checks (s : Settings) : List Check := s.enabled.map Check.ofRule

end PointerTriage.Rules
