import PointerTriage.Yaml.Token

namespace PointerTriage.Yaml

inductive ListKind where
  | block
  /-- A list as a value, not indented further than its key. -/
  | inline
  | flow
  deriving DecidableEq, Repr

inductive MapKind where
  | block
  | flow
  /-- One entry in a bracketed list, without braces. -/
  | pair
  deriving DecidableEq, Repr

inductive Phase where
  /-- Between two items. -/
  | next
  /-- An item starts. -/
  | item
  | key
  /-- The value of a key may start. -/
  | mark (key : Node)
  | value (key : Node)

/-- An open collection; the latest item comes first. -/
inductive Frame where
  | list (kind : ListKind) (phase : Phase) (anchor : Option Nat) (before : List Node)
  | mapping (kind : MapKind) (phase : Phase) (anchor : Option Nat) (before : List (Node × Node))

/-- How much may still be left out. -/
def Frame.weight : Frame → Nat
  | .list _ .next _ _ => 1
  | .mapping _ .next _ _ => 1
  | .mapping _ (.mark _) _ _ => 2
  | _ => 3

/-- Where the reader is when no collection is open. -/
inductive Place where
  | start
  /-- The root comes next; after a mark it may be left out. -/
  | root (marked : Bool)
  | done (root : Node)

/-- Anchors by name. A name has a number, which is how many names there were before it. A number stands
for the node that got it last. -/
structure Anchors where
  numbers : List (String × Nat) := []
  /-- The number of each anchored node in the order in which they start, latest first. -/
  starts : List Nat := []
  /-- The nodes that are complete, each by how many anchored nodes started before it. -/
  nodes : List (Nat × Node) := []

namespace Anchors

/-- An anchored node starts: its place in the order of starts. -/
def begin (a : Anchors) (name : String) : Nat × Anchors :=
  let number := a.numbers.length
  (a.starts.length, { a with
    numbers := (name, number) :: a.numbers.filter (·.1 ≠ name)
    starts := number :: a.starts })

def number? (a : Anchors) (name : String) : Option Nat :=
  (a.numbers.find? (·.1 = name)).map (·.2)

def complete (a : Anchors) (anchor : Option Nat) (n : Node) : Anchors :=
  match anchor with
  | some i => { a with nodes := (i, n) :: a.nodes }
  | none => a

/-- The node of each number, the latest to start first. -/
def targets (a : Anchors) : List (Nat × Node) :=
  a.starts.reverse.zipIdx.reverse.filterMap fun (number, i) =>
    (a.nodes.find? (·.1 = i)).map fun n => (number, n.2)

end Anchors

structure Reader where
  versioned : Bool := false
  handles : List (String × Tag) := []
  anchors : Anchors := {}
  /-- The anchor of the node that comes next. -/
  anchor : Option Nat := none
  tag : Option Tag := none
  place : Place := .start
  stack : List Frame := []

namespace Reader

/-- A token that cannot start a node where one may be left out stands for a missing node and is
looked at again. -/
inductive Step where
  /-- The token has been used. -/
  | used (r : Reader)
  /-- The token is to be looked at again. -/
  | again (r : Reader)

def pending (r : Reader) : Bool := r.anchor.isSome || r.tag.isSome

/-- What a tag with a handle stands for. -/
def fullTag? (r : Reader) (handle : String) (suffix : Tag) : Option Tag :=
  if handle = "" then some suffix
  else
    let handles := r.handles ++ [("!", .ofText "!"), ("!!", .standardStart)]
    (handles.find? (·.1 = handle)).map fun (_, start) => start.append suffix

/-- A complete node goes to the collection that is open, or is the whole document. -/
def put (r : Reader) (n : Node) : List Frame → Option Reader
  | [] => some { r with place := .done n, stack := [] }
  | .list kind .item a before :: stack =>
    some { r with stack := .list kind .next a (n :: before) :: stack }
  | .mapping kind .key a before :: stack =>
    some { r with stack := .mapping kind (.mark n) a before :: stack }
  | .mapping kind .item a before :: stack =>
    some { r with stack := .mapping kind .next a ((n, .missing) :: before) :: stack }
  | .mapping .pair (.value k) _ _ :: stack => r.put (.mapping [(k, n)]) stack
  | .mapping kind (.value k) a before :: stack =>
    some { r with stack := .mapping kind .next a ((k, n) :: before) :: stack }
  | _ => none

/-- Puts a node with its anchor. -/
def deliver (r : Reader) (anchor : Option Nat) (n : Node) (stack : List Frame) : Option Reader :=
  ({ r with anchors := r.anchors.complete anchor n, anchor := none, tag := none }).put n stack

def used (r : Option Reader) : Option Step := r.map .used

def again (r : Option Reader) : Option Step := r.map .again

def deliverMissing (r : Reader) : Option Reader := r.deliver none .missing r.stack

/-- Opens a collection; it takes the anchor, and its tag says nothing. -/
def enter (r : Reader) (frame : Option Nat → Frame) : Option Step :=
  some (.used { r with stack := frame r.anchor :: r.stack, anchor := none, tag := none })

/-- A node starts. A node that has only an anchor or a tag is an empty scalar. -/
def begin (r : Reader) (block inline : Bool) (t : Token) : Option Step :=
  let empty := if r.pending then again (r.deliver r.anchor (.scalar .plain r.tag "") r.stack) else none
  match t with
  | .alias name =>
    if r.pending then none
    else (r.anchors.number? name).bind fun a => used (r.deliver none (.alias a) r.stack)
  | .anchor name =>
    if r.anchor.isSome then none
    else
      let (i, anchors) := r.anchors.begin name
      some (.used { r with anchors, anchor := some i })
  | .tag handle suffix =>
    if r.tag.isSome then none
    else (r.fullTag? handle suffix).map fun tag => .used { r with tag := some tag }
  | .scalar style text => used (r.deliver r.anchor (.scalar style r.tag text) r.stack)
  | .flowSequenceStart => r.enter fun a => .list .flow .item a []
  | .flowMappingStart => r.enter fun a => .mapping .flow .item a []
  | .blockSequenceStart => if block then r.enter fun a => .list .block .next a [] else empty
  | .blockMappingStart => if block then r.enter fun a => .mapping .block .next a [] else empty
  | .blockEntry => if inline then r.enter fun a => .list .inline .item a [] else empty
  | _ => empty

def stepList (r : Reader) (kind : ListKind) (phase : Phase) (anchor : Option Nat) (before : List Node)
    (stack : List Frame) (t : Token) : Option Step :=
  let moved (phase : Phase) : Reader := { r with stack := .list kind phase anchor before :: stack }
  let close (_ : Unit) := r.deliver anchor (.list before.reverse) stack
  match kind, phase with
  | .block, .next =>
    match t with
    | .blockEntry => some (.used (moved .item))
    | .blockEnd => used (close ())
    | _ => none
  | .block, .item =>
    if t = .blockEntry || t = .blockEnd then again r.deliverMissing else r.begin true false t
  | .inline, .next => if t = .blockEntry then some (.used (moved .item)) else again (close ())
  | .inline, .item =>
    if t = .blockEntry || t = .key || t = .value || t = .blockEnd then again r.deliverMissing
    else r.begin true false t
  | .flow, .next =>
    match t with
    | .flowEntry => some (.used (moved .item))
    | .flowSequenceEnd => used (close ())
    | _ => none
  | .flow, .item =>
    match t with
    | .flowSequenceEnd => used (close ())
    | .key => some (.used { r with stack := .mapping .pair .key none [] :: r.stack })
    | _ => r.begin false false t
  | _, _ => none

def stepMapping (r : Reader) (kind : MapKind) (phase : Phase) (anchor : Option Nat)
    (before : List (Node × Node)) (stack : List Frame) (t : Token) : Option Step :=
  let moved (phase : Phase) : Reader := { r with stack := .mapping kind phase anchor before :: stack }
  let close (_ : Unit) := r.deliver anchor (.mapping before.reverse) stack
  match kind, phase with
  | _, .mark k =>
    if t = .value then some (.used (moved (.value k))) else again (moved (.value k)).deliverMissing
  | .block, .next =>
    match t with
    | .key => some (.used (moved .key))
    | .blockEnd => used (close ())
    | _ => none
  | .block, _ =>
    if t = .key || t = .value || t = .blockEnd then again r.deliverMissing else r.begin true true t
  | .flow, .next =>
    match t with
    | .flowEntry => some (.used (moved .item))
    | .flowMappingEnd => used (close ())
    | _ => none
  | .flow, .item =>
    match t with
    | .key => some (.used (moved .key))
    | .flowMappingEnd => used (close ())
    | _ => r.begin false false t
  | .flow, .key =>
    if t = .value || t = .flowEntry || t = .flowMappingEnd then again r.deliverMissing
    else r.begin false false t
  | .flow, .value _ =>
    if t = .flowEntry || t = .flowMappingEnd then again r.deliverMissing else r.begin false false t
  -- a key that is left out takes the token with it
  | .pair, .key =>
    if t = .value || t = .flowEntry || t = .flowSequenceEnd then used r.deliverMissing
    else r.begin false false t
  | .pair, .value _ =>
    if t = .flowEntry || t = .flowSequenceEnd then again r.deliverMissing else r.begin false false t
  | .pair, _ => none

/-- Outside of all collections. Directives need a mark after them, and there is one document. -/
def stepOutside (r : Reader) (t : Token) : Option Step :=
  match r.place with
  | .start =>
    match t with
    | .versionDirective => if r.versioned then none else some (.used { r with versioned := true })
    | .tagDirective handle start =>
      if r.handles.any (·.1 = handle) then none
      else some (.used { r with handles := (handle, start) :: r.handles })
    | .documentStart => some (.used { r with place := .root true })
    | .textEnd => none
    | _ =>
      if r.versioned || !r.handles.isEmpty then none
      else ({ r with place := .root false }).begin true false t
  | .root marked =>
    if marked && !r.pending && (t = .documentStart || t = .documentEnd || t = .textEnd) then
      again r.deliverMissing
    else r.begin true false t
  | .done _ => if t = .documentEnd || t = .textEnd then some (.used r) else none

def step (r : Reader) (t : Token) : Option Step :=
  match r.stack with
  | [] => r.stepOutside t
  | .list kind phase anchor before :: stack =>
    if r.pending then r.begin (kind ≠ .flow) false t
    else r.stepList kind phase anchor before stack t
  | .mapping kind phase anchor before :: stack =>
    if r.pending then r.begin (kind = .block) (kind = .block) t
    else r.stepMapping kind phase anchor before stack t

/-- Falls with every look at the same token. -/
def weight (r : Reader) : Nat :=
  (r.stack.map Frame.weight).foldr (· + ·) 0 + match r.place with
    | .done _ => 0
    | _ => 1

def run (r : Reader) (ts : List Token) : Option Reader :=
  match ts with
  | [] => some r
  | t :: rest =>
    match r.step t with
    | none => none
    | some (.used r') => run r' rest
    | some (.again r') => if r'.weight < r.weight then run r' (t :: rest) else none
termination_by (ts.length, r.weight)

end Reader

def Document.ofTokens? (ts : List Token) : Option Document :=
  match Reader.run {} ts with
  | some ⟨_, _, anchors, _, _, .done root, _⟩ => some ⟨root, anchors.targets⟩
  | _ => none

/-- The one document of a text. -/
def Document.parse? (s : String) : Option Document := (tokens? s).bind Document.ofTokens?

end PointerTriage.Yaml
