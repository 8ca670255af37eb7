namespace PointerTriage.Yaml

inductive Style where
  | plain
  | single
  | double
  | literal
  | folded
  deriving DecidableEq, Repr, Inhabited

/-- What a tag says about a scalar. Escapes may leave bytes that are no text. -/
structure Tag where
  bytes : List UInt8
  deriving DecidableEq, Repr, Inhabited

namespace Tag

def ofText (s : String) : Tag := ⟨s.toUTF8.toList⟩

/-- Tags of the types that every document knows start like this. -/
def standardStart : Tag := ofText "tag:yaml.org,2002:"

def append (t u : Tag) : Tag := ⟨t.bytes ++ u.bytes⟩

def standard (name : String) : Tag := standardStart.append (ofText name)

/-- A local tag starts with an exclamation mark; its name is what follows, if that is text. -/
def localName? (t : Tag) : Option String :=
  match t.bytes with
  | 0x21 :: name => String.fromUTF8? ⟨name.toArray⟩
  | _ => none

end Tag

inductive Node where
  | scalar (style : Style) (tag : Option Tag) (text : String)
  | list (items : List Node)
  | mapping (entries : List (Node × Node))
  /-- Stands for the node with that anchor. -/
  | alias (anchor : Nat)
  deriving Inhabited, Repr

namespace Node

def plain (s : String) : Node := .scalar .plain none s

/-- What is written where a node is left out. -/
def missing : Node := plain ""

mutual

/-- The number of scalars, aliases, and starts and ends of collections. -/
def size : Node → Nat
  | .scalar .. => 1
  | .alias _ => 1
  | .list items => 2 + itemsSize items
  | .mapping entries => 2 + entriesSize entries

def itemsSize : List Node → Nat
  | [] => 0
  | n :: ns => n.size + itemsSize ns

def entriesSize : List (Node × Node) → Nat
  | [] => 0
  | (k, n) :: es => k.size + n.size + entriesSize es

end

end Node

/-- A tree and the nodes that its aliases stand for. -/
structure Document where
  root : Node
  anchors : List (Nat × Node)
  deriving Repr

namespace Document

def ofNode (n : Node) : Document := ⟨n, []⟩

def target? (d : Document) (anchor : Nat) : Option Node :=
  (d.anchors.find? (·.1 == anchor)).map (·.2)

/-- How often an alias may be followed while the document is read: a short text must not stand for
endless data. -/
def patience (d : Document) : Nat := 100 * d.root.size

end Document

end PointerTriage.Yaml
