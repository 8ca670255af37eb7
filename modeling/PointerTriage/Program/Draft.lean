import PointerTriage.Program.Basic
import PointerTriage.Settings.Stages

namespace PointerTriage

/-- A program in the making. Ids are checked when it is built, so a step may name entries that do
not exist. -/
structure ProgramDraft where
  tables : Tables
  host : HostFacts
  deriving Repr

namespace ProgramDraft

def empty : ProgramDraft := ⟨⟨#[], #[], #[], []⟩, ⟨Settings.defaultAllocators, [], [], []⟩⟩

def withAllocators (d : ProgramDraft) (names : List String) : ProgramDraft :=
  { d with host := { d.host with allocators := names } }

def onFunction (d : ProgramDraft) (f : FunctionId) (change : Function → Function) : ProgramDraft :=
  { d with tables := { d.tables with functions := d.tables.functions.modify f change } }

def onBlock (d : ProgramDraft) (b : BlockId) (change : Block → Block) : ProgramDraft :=
  { d with tables := { d.tables with blocks := d.tables.blocks.modify b change } }

def onValue (d : ProgramDraft) (v : ValueId) (change : Value → Value) : ProgramDraft :=
  { d with tables := { d.tables with values := d.tables.values.modify v change } }

def function (d : ProgramDraft) (name : String) (returns : Shape) : ProgramDraft × FunctionId :=
  let id := d.tables.functions.size
  let functions := d.tables.functions.push ⟨id, name, [], [], returns⟩
  ({ d with tables := { d.tables with functions } }, id)

def value (d : ProgramDraft) (kind : ValueKind) (shape : Shape) (operands : List ValueId) :
    ProgramDraft × ValueId :=
  let id := d.tables.values.size
  let values := d.tables.values.push ⟨id, none, shape, kind, operands⟩
  ({ d with tables := { d.tables with values } }, id)

def param (d : ProgramDraft) (f : FunctionId) (shape : Shape) : ProgramDraft × ValueId :=
  let index := ((d.tables.functions[f]?).map (·.params.length)).getD 0
  let (d, v) := d.value (.argument f index) shape []
  (d.onFunction f fun function => { function with params := function.params ++ [v] }, v)

def block (d : ProgramDraft) (f : FunctionId) : ProgramDraft × BlockId :=
  let id := d.tables.blocks.size
  let blocks := d.tables.blocks.push ⟨id, f, [], []⟩
  let d := { d with tables := { d.tables with blocks } }
  (d.onFunction f fun function => { function with blocks := function.blocks ++ [id] }, id)

/-- A successor that is listed already is not listed again. -/
def successor (d : ProgramDraft) (b target : BlockId) : ProgramDraft :=
  d.onBlock b fun block =>
    if target ∈ block.successors then block
    else { block with successors := block.successors ++ [target] }

def loop (d : ProgramDraft) (l : Loop) : ProgramDraft :=
  { d with tables := { d.tables with loops := d.tables.loops ++ [l] } }

def setName (d : ProgramDraft) (v : ValueId) (name : String) : ProgramDraft :=
  d.onValue v ({ · with name := some name })

def setOperands (d : ProgramDraft) (v : ValueId) (operands : List ValueId) : ProgramDraft :=
  d.onValue v ({ · with operands })

def global (d : ProgramDraft) (name : String) (shape : Shape) (constant : Bool) :
    ProgramDraft × ValueId :=
  let (d, v) := d.value (.global shape constant) (.pointerTo shape) []
  (d.setName v name, v)

def int (d : ProgramDraft) (i : Int) : ProgramDraft × ValueId :=
  d.value (.constant (.int i)) (.int 64) []

def nullPointer (d : ProgramDraft) : ProgramDraft × ValueId :=
  d.value (.constant .nullPointer) .untyped []

def otherConstant (d : ProgramDraft) (shape : Shape) : ProgramDraft × ValueId :=
  d.value (.constant .other) shape []

def instruction (d : ProgramDraft) (b : BlockId) (opcode : Opcode) (shape : Shape)
    (operands : List ValueId) : ProgramDraft × ValueId :=
  let (d, v) := d.value (.instruction opcode b) shape operands
  (d.onBlock b fun block => { block with instructions := block.instructions ++ [v] }, v)

def alloca (d : ProgramDraft) (b : BlockId) (shape : Shape) (count : Option ValueId) :
    ProgramDraft × ValueId :=
  d.instruction b (.alloca shape) (.pointerTo shape) count.toList

def store (d : ProgramDraft) (b : BlockId) (stored pointer : ValueId) : ProgramDraft × ValueId :=
  d.instruction b .store .void [stored, pointer]

/-- A comparison, by `icmp` or `fcmp`. -/
def compare (d : ProgramDraft) (b : BlockId) (opcode : Opcode) (lhs rhs : ValueId) :
    ProgramDraft × ValueId :=
  d.instruction b opcode (.int 1) [lhs, rhs]

def ret (d : ProgramDraft) (b : BlockId) (result : Option ValueId) : ProgramDraft × ValueId :=
  d.instruction b .ret .void result.toList

/-- The targets of a branch become successors of its block. -/
def branch (d : ProgramDraft) (b : BlockId) (condition : Option ValueId) (targets : List BlockId) :
    ProgramDraft × ValueId :=
  let (d, v) := d.instruction b .branch .void condition.toList
  (targets.foldl (fun d target => d.successor b target) d, v)

def pointsTo (d : ProgramDraft) (pointer site : ValueId) : ProgramDraft :=
  { d with host := { d.host with pointsTo := d.host.pointsTo ++ [(pointer, site)] } }

def flow (d : ProgramDraft) (source target : ValueId) : ProgramDraft :=
  { d with host := { d.host with flows := d.host.flows ++ [(source, target)] } }

def target (d : ProgramDraft) (call : ValueId) (callee : FunctionId) : ProgramDraft :=
  { d with host := { d.host with targets := d.host.targets ++ [(call, callee)] } }

def build (d : ProgramDraft) : Except GraphFault Built := Built.ofTables d.tables d.host

end ProgramDraft

end PointerTriage
