import PointerTriage.Json.Token

namespace PointerTriage.Json

inductive Frame where
  | list (before : List Json)
  | record (before : List (String × Json))
  /-- A record, while the value of `key` is being read. -/
  | field (before : List (String × Json)) (key : String)

inductive Phase where
  | value
  | valueOrClose
  | key
  | keyOrClose
  | colon
  | next

/-- The open containers, and what may come next. -/
inductive State where
  | reading (phase : Phase) (stack : List Frame)
  | finished (j : Json)

/-- Containers nest at most this deep. -/
def maxDepth : Nat := 127

/-- A complete value goes to the container that is open, or is the whole text. -/
def deliver (j : Json) : List Frame → Option State
  | [] => some (.finished j)
  | .list before :: stack => some (.reading .next (.list (j :: before) :: stack))
  | .field before key :: stack => some (.reading .next (.record ((key, j) :: before) :: stack))
  | .record _ :: _ => none

def enter (phase : Phase) (frame : Frame) (stack : List Frame) : Option State :=
  if stack.length < maxDepth then some (.reading phase (frame :: stack)) else none

def startValue (stack : List Frame) : Token → Option State
  | .atom j => deliver j stack
  | .text s => deliver (.text s) stack
  | .openList => enter .valueOrClose (.list []) stack
  | .openRecord => enter .keyOrClose (.record []) stack
  | _ => none

def close (stack : List Frame) : Token → Option State
  | .closeList =>
    match stack with
    | .list before :: rest => deliver (.list before.reverse) rest
    | _ => none
  | .closeRecord =>
    match stack with
    | .record before :: rest => deliver (.record before.reverse) rest
    | _ => none
  | _ => none

def startKey (stack : List Frame) : Token → Option State
  | .text key =>
    match stack with
    | .record before :: rest => some (.reading .colon (.field before key :: rest))
    | _ => none
  | _ => none

def step : State → Token → Option State
  | .finished _, _ => none
  | .reading .value stack, t => startValue stack t
  | .reading .valueOrClose stack, t =>
    match t with
    | .closeList => close stack t
    | _ => startValue stack t
  | .reading .key stack, t => startKey stack t
  | .reading .keyOrClose stack, t =>
    match t with
    | .closeRecord => close stack t
    | _ => startKey stack t
  | .reading .colon stack, t =>
    match t with
    | .colon => some (.reading .value stack)
    | _ => none
  | .reading .next stack, t =>
    match t, stack with
    | .comma, .list _ :: _ => some (.reading .value stack)
    | .comma, .record _ :: _ => some (.reading .key stack)
    | _, _ => close stack t

def run : State → List Token → Option State
  | s, [] => some s
  | s, t :: ts => (step s t).bind (run · ts)

def ofTokens? (ts : List Token) : Option Json :=
  match run (.reading .value []) ts with
  | some (.finished j) => some j
  | _ => none

def parse? (s : String) : Option Json := (tokens? s).bind ofTokens?

end PointerTriage.Json
