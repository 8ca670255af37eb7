import PointerTriage.Decimal.Text
import PointerTriage.Settings.Error

namespace PointerTriage.Settings
open Decimal (Binary64)

/-- Named starting points; `custom` starts where `balanced` does. -/
inductive Preset where
  | fast
  | balanced
  | thorough
  | custom
  deriving DecidableEq, Repr, Inhabited

namespace Preset

def all : List Preset := [.fast, .balanced, .thorough, .custom]

def name : Preset → String
  | .fast => "fast"
  | .balanced => "balanced"
  | .thorough => "thorough"
  | .custom => "custom"

/-- Found regardless of the case of ASCII letters. -/
def ofName (s : String) : Except Error Preset :=
  match all.find? (·.name.toList == s.toList.map Char.toLower) with
  | some p => .ok p
  | none => .error (.unknownPreset s)

end Preset

def require (holds : Bool) (e : Error) : Except Error Unit :=
  if holds then .ok () else .error e

/-- A library function whose arguments from `argStart` on receive untrusted data. -/
structure InputFunction where
  name : String
  argStart : Nat
  taintReturn : Bool
  deriving DecidableEq, Repr

/-- A library function that copies from one argument to another. -/
structure CopyFunction where
  name : String
  dstArg : Nat
  srcArg : Nat
  deriving DecidableEq, Repr

def defaultInputs : List InputFunction :=
  [⟨"__isoc99_scanf", 1, false⟩, ⟨"__isoc99_fscanf", 2, false⟩, ⟨"freaduntil", 0, false⟩,
    ⟨"fread", 0, false⟩, ⟨"read", 0, false⟩, ⟨"fgets", 0, false⟩, ⟨"recv", 0, false⟩]

def defaultCopies : List CopyFunction :=
  ["memcpy", "memmove", "strcpy", "strncpy", "strcat", "strncat"].map fun name => ⟨name, 0, 1⟩

def defaultVulnerable : List String :=
  ["strcpy", "strncpy", "memcpy", "memmove", "strcat", "strncat", "sprintf", "gets", "read"]

def defaultAllocators : List String := ["malloc", "calloc", "realloc"]

/-- Where untrusted data comes from and how it is copied. -/
structure Taint where
  /-- The function whose parameters are untrusted. -/
  entry : String
  inputs : List InputFunction
  copies : List CopyFunction
  deriving DecidableEq, Repr

namespace Taint

def ofPreset (_ : Preset) : Taint := ⟨"main", defaultInputs, defaultCopies⟩

def findInput? (t : Taint) (name : String) : Option InputFunction :=
  t.inputs.find? (·.name == name)

def findCopy? (t : Taint) (name : String) : Option CopyFunction :=
  t.copies.find? (·.name == name)

def isNameless (s : String) : Bool := (Text.stripBlank s.toList).isEmpty

def check (t : Taint) : Except Error Unit :=
  if isNameless t.entry then .error (.conflict .noEntry)
  else if t.inputs.isEmpty then .error (.conflict .noInputs)
  else match t.inputs.find? (isNameless ·.name) with
    | some f => .error (.conflict (.namelessInput f.argStart))
    | none =>
      match t.copies.find? (fun f => f.dstArg == f.srcArg) with
      | some f => .error (.conflict (.selfCopy f.name f.dstArg))
      | none => .ok ()

end Taint

/-- How much each part of a bound-check score counts. -/
structure Weights where
  scale : Int
  noCmp : Int
  yesCmp : Int
  noneBound : Int
  variableBound : Int
  constantBound : Int
  deriving DecidableEq, Repr

def defaultWeights : Weights := ⟨5, -3, 1, -2, -2, 1⟩

/-- Limits of the backward search for guarding comparisons. -/
structure Bound where
  /-- Comparisons that the walk over the control flow collects. -/
  maxBackwardCmps : Nat
  maxPathLength : Nat
  /-- Comparisons on a path before it stops growing. -/
  maxPathsWithCmps : Nat
  maxExploredPaths : Nat
  /-- Whether relevance follows stores to loads, or def-use chains only. -/
  followIndirectEdges : Bool
  weights : Weights
  deriving DecidableEq, Repr

namespace Bound

def ofPreset : Preset → Bound
  | .fast => ⟨1, 25, 1, 1024, true, defaultWeights⟩
  | .balanced | .custom => ⟨2, 50, 2, 4096, true, defaultWeights⟩
  | .thorough => ⟨4, 100, 4, 16384, true, defaultWeights⟩

def backwardCmps : Range :=
  ⟨"max_backward_cmps", "1", "1000", "At least one comparison must be collectable"⟩

def pathLength : Range :=
  ⟨"max_path_length", "1", "10000", "A path holds at least the node itself"⟩

def pathsWithCmps : Range :=
  ⟨"max_paths_with_cmps", "1", "1000", "Paths must be allowed to reach one comparison"⟩

def exploredPaths : Range :=
  ⟨"max_explored_paths", "1", "1000000", "Path enumeration must be finite"⟩

def weightScale : Range := ⟨"weights.scale", "1", "1000", "Scale multiplies path fractions"⟩

def within (range : Range) (value most : Nat) : Except Error Unit :=
  require (1 ≤ value && value ≤ most) (.outOfRange range (toString value))

def check (b : Bound) : Except Error Unit := do
  within backwardCmps b.maxBackwardCmps 1000
  within pathLength b.maxPathLength 10000
  within pathsWithCmps b.maxPathsWithCmps 1000
  within exploredPaths b.maxExploredPaths 1000000
  require (1 ≤ b.weights.scale && b.weights.scale ≤ 1000)
    (.outOfRange weightScale (toString b.weights.scale))

end Bound

/-- Which rules run, and the functions they look at. -/
structure Rules where
  rules : List Rule
  vulnerable : List String
  allocators : List String
  parallel : Bool
  logEach : Bool
  deriving DecidableEq, Repr

namespace Rules

def ofPreset (p : Preset) : Rules :=
  ⟨Rule.all, defaultVulnerable, defaultAllocators, p != .fast, false⟩

/-- The baseline always runs. -/
def isEnabled (h : Rules) (r : Rule) : Bool := r == .baseline || h.rules.contains r

def check (h : Rules) : Except Error Unit := require (!h.rules.isEmpty) (.conflict .noRules)

end Rules

/-- Which loads and stores are protected. -/
inductive Protection where
  | none
  /-- All accesses to data pointers. -/
  | full
  /-- The accesses of the selected objects. -/
  | prioritized
  deriving DecidableEq, Repr, Inhabited

namespace Protection

def name : Protection → String
  | .none => "none"
  | .full => "full"
  | .prioritized => "dpp"

def ofName (s : String) : Except Error Protection :=
  match String.ofList (s.toList.map Char.toLower) with
  | "none" => .ok .none
  | "full" => .ok .full
  | "dpp" | "prioritized" => .ok .prioritized
  | _ => .error (.conflict (.unknownProtection s))

end Protection

structure Ranking where
  /-- The share of ranked objects to select, above 0 and at most 100. -/
  percentile : Binary64
  protection : Protection
  deriving DecidableEq

namespace Ranking

def hundred : Binary64 := .ofNat 100

def ofPreset (_ : Preset) : Ranking := ⟨hundred, .prioritized⟩

def share : Range :=
  ⟨"top_k_percentile", "0 (exclusive)", "100",
    "Percentile is not clamped; pass a value in (0, 100]"⟩

def check (r : Ranking) : Except Error Unit :=
  require ((Binary64.zero false).lt r.percentile && !hundred.lt r.percentile)
    (.outOfRange share (toString r.percentile))

end Ranking

end PointerTriage.Settings
