import PointerTriage.Decimal.Shortest

namespace PointerTriage.Decimal

def digitValue (c : Char) : Nat := c.toNat - '0'.toNat

def naturalOf (ds : List Char) : Nat :=
  ds.foldl (fun n d => 10 * n + digitValue d) 0

/-- Digits with nothing before or after them, at least one. -/
def natural? (ds : List Char) : Option Nat :=
  if ds ≠ [] ∧ ds.all Char.isDigit then some (naturalOf ds) else none

/-- An optional sign, then what follows it. -/
def splitSign : List Char → Bool × List Char
  | '-' :: cs => (true, cs)
  | '+' :: cs => (false, cs)
  | cs => (false, cs)

/-- The exponent part of a literal: nothing, or `e` with an optionally signed number. -/
def exponent? : List Char → Option Int
  | [] => some 0
  | c :: cs =>
    if c = 'e' ∨ c = 'E' then
      let (negative, ds) := splitSign cs
      (natural? ds).map (Binary64.signed negative)
    else none

/-- A decimal literal: digits with an optional point, at least one digit, optional exponent. -/
def literal? (cs : List Char) : Option Scientific :=
  let whole := cs.takeWhile Char.isDigit
  let rest := cs.dropWhile Char.isDigit
  let (part, rest) := match rest with
    | '.' :: more => (more.takeWhile Char.isDigit, more.dropWhile Char.isDigit)
    | rest => ([], rest)
  if whole.isEmpty ∧ part.isEmpty then none
  else (exponent? rest).map fun e => ⟨naturalOf (whole ++ part), e - part.length⟩

def lowerAscii (cs : List Char) : List Char := cs.map Char.toLower

/-- A double in its usual spelling: a signed literal, `inf`, `infinity` or `nan` in any case. -/
def double? (s : String) : Option Binary64 :=
  let (negative, cs) := splitSign s.toList
  match literal? cs with
  | some d => some (d.toBinary64 negative)
  | none =>
    let word := String.ofList (lowerAscii cs)
    if word = "inf" ∨ word = "infinity" then some (.infinite negative)
    else if word = "nan" then some .nan
    else none

/-- How doubles are written. -/
structure Style where
  tie : Tie
  /-- Positional notation is used while the point is at most so far right of the first digit. -/
  widest : Option Nat
  /-- Positional notation is used while at most so many zeros follow the point. -/
  deepest : Option Nat
  /-- Whole numbers end in `.0`. -/
  pointed : Bool
  nan : String
  infinity : String

/-- Always positional, whole numbers without a point. -/
def plainStyle : Style := ⟨.up, none, none, false, "NaN", "inf"⟩

/-- Digits `ds` with the point after the first `point` of them. -/
def positional (style : Style) (ds : List Char) (point : Int) : List Char :=
  let n : Int := ds.length
  if n ≤ point then
    ds ++ List.replicate (point - n).toNat '0' ++ (if style.pointed then ['.', '0'] else [])
  else if 0 < point then ds.take point.toNat ++ ['.'] ++ ds.drop point.toNat
  else ['0', '.'] ++ List.replicate (-point).toNat '0' ++ ds

def withExponent (ds : List Char) (point : Int) : List Char :=
  let head := match ds with
    | d :: e :: rest => d :: '.' :: e :: rest
    | ds => ds
  head ++ ['e'] ++ (toString (point - 1)).toList

def Style.fits (style : Style) (point : Int) : Bool :=
  (match style.widest with | some w => point ≤ w | none => true) &&
  (match style.deepest with | some z => -(z : Int) ≤ point | none => true)

def Binary64.write (style : Style) : Binary64 → String
  | .nan => style.nan
  | .infinite negative => (if negative then "-" else "") ++ style.infinity
  | .finite negative m e _ =>
    let digits :=
      if m = 0 then positional style ['0'] 1
      else
        let d := Binary64.shortest style.tie m e
        let ds := (toString d.coefficient).toList
        let point : Int := ds.length + d.exponent
        if style.fits point then positional style ds point else withExponent ds point
    (if negative then "-" else "") ++ String.ofList digits

instance : ToString Binary64 := ⟨Binary64.write plainStyle⟩

end PointerTriage.Decimal
