import PointerTriage.Json.Basic

namespace PointerTriage.Json
open Decimal

/-- Digits are taken into a significand while it stays below `2 ^ 64`, and the others are left. -/
def absorb (n : Nat) : List Char → Nat × List Char
  | [] => (n, [])
  | d :: ds =>
    let m := 10 * n + digitValue d
    if m < 2 ^ 64 then absorb m ds else (n, d :: ds)

/-- A double times a power of ten. What is too large for a double is no number, what is too small is
zero. -/
def scale? (x : Binary64) (exponent : Int) : Option Binary64 :=
  if x = .zero false ∨ x = .zero true then some x
  else if 308 < exponent then none
  else if exponent < -308 then scale? (x.div (.ofNat (Nat.pow 10 308))) (exponent + 308)
  else if exponent < 0 then some (x.div (.ofNat (Nat.pow 10 exponent.natAbs)))
  else
    match x.mul (.ofNat (Nat.pow 10 exponent.natAbs)) with
    | .infinite _ => none
    | y => some y
termination_by exponent.natAbs

/-- The digits after a point, at least one, and what follows them. -/
def fraction? : List Char → Option (List Char × List Char)
  | '.' :: cs =>
    let part := cs.takeWhile Char.isDigit
    if part.isEmpty then none else some (part, cs.dropWhile Char.isDigit)
  | cs => some ([], cs)

/-- Digits that do not go into the significand count for their places before the point, and not at all
after it. -/
def real? (whole rest : List Char) : Option Binary64 := do
  let (part, rest) ← fraction? rest
  let exponent ← exponent? rest
  let (n, above) := absorb 0 whole
  let (n, below) := absorb n part
  scale? (.ofNat n) (exponent + above.length + below.length - part.length)

/-- Without a point or an exponent a number is an integer while it fits into 64 bits, `-0` apart. -/
def number? (cs : List Char) : Option Json :=
  let negative := cs.head? = some '-'
  let cs := if negative then cs.drop 1 else cs
  let whole := cs.takeWhile Char.isDigit
  let rest := cs.dropWhile Char.isDigit
  if whole.isEmpty ∨ (whole.head? = some '0' ∧ whole.length > 1) then none
  else
    let n := naturalOf whole
    if rest.isEmpty ∧ negative ∧ 0 < n ∧ n ≤ Nat.pow 2 63 then some (.integer (-(n : Int)))
    else if rest.isEmpty ∧ ¬negative ∧ n < Nat.pow 2 64 then some (.integer n)
    else (real? whole rest).map fun x => .real (if negative then x.neg else x)

end PointerTriage.Json
