import PointerTriage.Decimal.Text

namespace PointerTriage.Yaml.Core
open Decimal (Binary64)

def isNull (s : String) : Bool := s ∈ ["null", "Null", "NULL", "~"]

def bool? (s : String) : Option Bool :=
  if s ∈ ["true", "True", "TRUE"] then some true
  else if s ∈ ["false", "False", "FALSE"] then some false
  else none

def digit? (base : Nat) (c : Char) : Option Nat :=
  let value :=
    if c.isDigit then some (c.toNat - '0'.toNat)
    else if 'a' ≤ c && c ≤ 'f' then some (c.toNat - 'a'.toNat + 10)
    else if 'A' ≤ c && c ≤ 'F' then some (c.toNat - 'A'.toNat + 10)
    else none
  value.filter (· < base)

/-- At least one digit and nothing else. -/
def digits? (base : Nat) (cs : List Char) : Option Nat :=
  if cs.isEmpty then none
  else (cs.mapM (digit? base)).map (·.foldl (fun n d => base * n + d) 0)

/-- A decimal number has no needless zeros in front; with another base it says so. -/
def magnitude? : List Char → Option Nat
  | '0' :: 'x' :: cs => digits? 16 cs
  | '0' :: 'o' :: cs => digits? 8 cs
  | '0' :: 'b' :: cs => digits? 2 cs
  | '0' :: _ :: _ => none
  | cs => digits? 10 cs

def withoutPlus : List Char → List Char
  | '+' :: cs => cs
  | cs => cs

/-- A number without a minus sign. -/
def natural? (s : String) : Option Nat := magnitude? (withoutPlus s.toList)

def negative? (s : String) : Option Int :=
  match s.toList with
  | '-' :: cs => (magnitude? cs).map fun n => -(n : Int)
  | _ => none

def integer? (s : String) : Option Int :=
  match natural? s with
  | some n => some n
  | none => negative? s

/-- A decimal number, which must be within range, or a word for an infinity or for no number. -/
def double? (s : String) : Option Binary64 :=
  let unsigned := String.ofList (withoutPlus s.toList)
  if unsigned ∈ [".inf", ".Inf", ".INF"] then some (.infinite false)
  else if s ∈ ["-.inf", "-.Inf", "-.INF"] then some (.infinite true)
  else if s ∈ [".nan", ".NaN", ".NAN"] then some .nan
  else
    match s.toList with
    | '+' :: '+' :: _ | '+' :: '-' :: _ => none
    | _ =>
      match Decimal.double? unsigned with
      | some (.finite negative m e h) => some (.finite negative m e h)
      | _ => none

/-- Digits with a zero in front look like a number and are none. -/
def isPadded (s : String) : Bool :=
  match Decimal.splitSign s.toList with
  | (_, '0' :: d :: ds) => (d :: ds).all Char.isDigit
  | _ => false

def isNumber (s : String) : Bool :=
  ((natural? s).any (· < Nat.pow 2 128)) || ((negative? s).any (-(Nat.pow 2 127 : Int) ≤ ·)) ||
    (double? s).isSome

/-- Whether a text, written as a plain scalar, would stand for something else. -/
def isMisread (s : String) : Bool :=
  s = "" || isNull s || (bool? s).isSome || isNumber s || isPadded s

end PointerTriage.Yaml.Core
