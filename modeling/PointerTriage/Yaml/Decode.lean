import PointerTriage.Yaml.Basic
import PointerTriage.Yaml.Core

namespace PointerTriage.Yaml

def Node.isEmpty : Node → Bool
  | .scalar .plain _ "" => true
  | _ => false

/-- Reading, with the number of times that an alias may still be followed. -/
abbrev Reading := StateT Nat Option

namespace Document

/-- The node itself, or what it is an alias of. -/
def resolve (d : Document) : Node → Reading Node
  | .alias a => fun patience =>
    match patience with
    | 0 => none
    | patience + 1 => (d.target? a).map (·, patience)
  | n => pure n

/-- A text takes any scalar. -/
def text (d : Document) (n : Node) : Reading String := do
  match ← d.resolve n with
  | .scalar _ _ s => pure s
  | _ => failure

/-- The value of a scalar that may stand for a value of a type: a plain one, or a literal one that says
so. -/
def typed (d : Document) (type : String) (value? : String → Option α) (n : Node) : Reading α := do
  match ← d.resolve n with
  | .scalar .plain _ s => value? s
  | .scalar .literal (some tag) s => if tag = .standard type then value? s else failure
  | _ => failure

def bool (d : Document) : Node → Reading Bool := d.typed "bool" Core.bool?

def natBelow (d : Document) (bound : Nat) : Node → Reading Nat :=
  d.typed "int" fun s => (Core.natural? s).filter (· < bound)

def intBetween (d : Document) (lo hi : Int) : Node → Reading Int :=
  d.typed "int" fun s => (Core.integer? s).filter fun i => lo ≤ i && i ≤ hi

def double (d : Document) : Node → Reading Decimal.Binary64 := d.typed "float" Core.double?

/-- The items of a list. Where nothing is written there are none. -/
def listOf (d : Document) (f : Node → Reading α) (n : Node) : Reading (List α) := do
  match ← d.resolve n with
  | .list items => items.mapM f
  | n => if n.isEmpty then pure [] else failure

/-- An empty scalar and the words for nothing stand for no value, unless they are quoted or have a tag. -/
def option (d : Document) (f : Node → Reading α) (n : Node) : Reading (Option α) := do
  match ← d.resolve n with
  | .scalar .plain (some tag) s =>
    if tag = .standard "null" then (if Core.isNull s then pure none else failure)
    else some <$> f (.scalar .plain (some tag) s)
  | .scalar .plain none s =>
    if s = "" || Core.isNull s then pure none else some <$> f (.scalar .plain none s)
  | n => some <$> f n

/-- The name of a variant that carries nothing: a scalar, or a local tag on nothing. -/
def variant (d : Document) (n : Node) : Reading String := do
  match ← d.resolve n with
  | .scalar style tag s =>
    match tag.bind Tag.localName? with
    | some name => if style = .plain && (s = "" || Core.isNull s) then pure name else failure
    | none => pure s
  | _ => failure

/-- The entries of a record with the fields `names`. A field occurs once; other keys are refused when
the record is `closed` and dropped otherwise. Where nothing is written there are no entries. -/
def fields (d : Document) (closed : Bool) (names : List String) (n : Node) :
    Reading (List (String × Node)) := do
  match ← d.resolve n with
  | .mapping entries =>
    let entries ← entries.mapM fun (k, v) => return (← d.text k, v)
    let known := entries.filter (names.contains ·.1)
    if (known.map (·.1)).Nodup ∧ (closed → known.length = entries.length) then pure known
    else failure
  | n => if n.isEmpty then pure [] else failure

/-- What a reading of the whole document gives. -/
def read? (d : Document) (f : Node → Reading α) : Option α := (f d.root).run' d.patience

end Document

namespace Record

def get? (entries : List (String × Node)) (key : String) : Option Node :=
  (entries.find? (·.1 == key)).map (·.2)

def required (entries : List (String × Node)) (key : String) (f : Node → Reading α) : Reading α := do
  f (← get? entries key)

def withDefault (entries : List (String × Node)) (key : String) (default : α)
    (f : Node → Reading α) : Reading α :=
  match get? entries key with
  | none => pure default
  | some n => f n

end Record

end PointerTriage.Yaml
