import PointerTriage.Text.Blank

namespace PointerTriage

inductive Rule where
  /-- Supplies candidates and never votes. -/
  | baseline
  | boundCheck
  | cmpExistence
  | loopUsage
  | typeShape
  | vulnerableArg
  | resizingCast
  | unboundedAlloc
  deriving DecidableEq, Repr, Inhabited

namespace Rule

def all : List Rule :=
  [.baseline, .boundCheck, .cmpExistence, .loopUsage, .typeShape, .vulnerableArg, .resizingCast,
    .unboundedAlloc]

def name : Rule → String
  | .baseline => "baseline"
  | .boundCheck => "bound-check"
  | .cmpExistence => "cmp-existence"
  | .loopUsage => "loop-usage"
  | .typeShape => "type-shape"
  | .vulnerableArg => "vulnerable-arg"
  | .resizingCast => "unsafe-cast"
  | .unboundedAlloc => "unbounded-alloc"

def votes (r : Rule) : Bool := r != .baseline

/-- The rule with exactly this name. -/
def named? (s : String) : Option Rule := all.find? (·.name == s)

/-- Lower case as far as names made of ASCII letters can tell: the Kelvin sign is the one other
character whose lower case is an ASCII letter. -/
def lower (c : Char) : Char := if c = '\u212a' then 'k' else c.toLower

/-- Names are found regardless of case, of blanks around them, and with `_` for `-`. -/
def ofName? (s : String) : Option Rule :=
  let key := (Text.stripBlank s.toList).map fun c => if c = '_' then '-' else lower c
  named? (String.ofList key)

def isAll (s : String) : Bool :=
  (Text.stripBlank s.toList).map Char.toLower = ['a', 'l', 'l']

/-- The rules that a list of names selects, each once, after those in `before`; the name `all` selects
every rule. The result of an unknown name is that name. -/
def selectAfter (before : List Rule) : List String → Except String (List Rule)
  | [] => .ok before
  | s :: names =>
    if isAll s then .ok all
    else match ofName? s with
      | none => .error s
      | some r => selectAfter (if r ∈ before then before else before ++ [r]) names

def select (names : List String) : Except String (List Rule) := selectAfter [] names

end Rule

end PointerTriage
