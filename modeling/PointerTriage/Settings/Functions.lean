import PointerTriage.Settings.Stages

namespace PointerTriage.Settings
open Text Decimal

structure Functions where
  inputs : List InputFunction
  vulnerable : List String
  deriving DecidableEq, Repr

namespace Functions

def empty : Functions := ⟨[], []⟩

def isEmpty (fs : Functions) : Bool := fs.inputs.isEmpty && fs.vulnerable.isEmpty

def append (fs gs : Functions) : Functions :=
  ⟨fs.inputs ++ gs.inputs, fs.vulnerable ++ gs.vulnerable⟩

/-- A decimal number of at most 64 bits, with an optional plus sign. -/
def argument? (cs : List Char) : Option Nat :=
  let ds := match cs with
    | '+' :: ds => ds
    | ds => ds
  (natural? ds).filter (· < Nat.pow 2 64)

/-- What follows the last token that a line may have. -/
def finish (fs : Functions) : List (List Char) → Except LineFault Functions
  | [] => .ok fs
  | extra :: _ => .error (.trailing (String.ofList extra))

/-- The entry of a line that starts with `tag` and `name`. -/
def entry (tag name : String) (rest : List (List Char)) : Except LineFault Functions :=
  match tag with
  | "IF" =>
    match rest with
    | [] => .ok ⟨[⟨name, 0, false⟩], []⟩
    | k :: rest =>
      match argument? k with
      | none => .error (.badArgument (String.ofList k))
      | some n => finish ⟨[⟨name, n, false⟩], []⟩ rest
  | "VULN" => finish ⟨[], [name]⟩ rest
  | tag => .error (.unknownTag tag)

/-- A line is `IF name`, `IF name k` or `VULN name`; what follows `#` is a comment. -/
def readLine (line : List Char) : Except LineFault Functions :=
  match words (line.takeWhile (· != '#')) with
  | [] => .ok empty
  | [_] => .error .missingName
  | tag :: name :: rest => entry (String.ofList tag) (String.ofList name) rest

/-- Reads lines of which the first has the number `line`. -/
def readFrom (line : Nat) : List (List Char) → Except Error Functions
  | [] => .ok empty
  | l :: ls => do
    match readLine l with
    | .error fault => .error (.badLine line fault)
    | .ok fs => return fs.append (← readFrom (line + 1) ls)

def parse (s : String) : Except Error Functions := readFrom 1 (lines s.toList)

end Functions

end PointerTriage.Settings
