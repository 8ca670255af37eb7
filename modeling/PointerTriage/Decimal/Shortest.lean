import PointerTriage.Decimal.Binary64

namespace PointerTriage.Decimal

/-- The number `coefficient · 10 ^ exponent`. -/
structure Scientific where
  coefficient : Nat
  exponent : Int
  deriving DecidableEq, Repr

namespace Scientific

/-- How many decimal digits a number has. -/
def digitCount (n : Nat) : Nat := (toString n).length

/-- Magnitudes of more than 310 digits are infinite, those below `10 ^ -400` vanish, so no larger
power of ten is computed. -/
def toBinary64 (negative : Bool) (d : Scientific) : Binary64 :=
  let top : Int := digitCount d.coefficient + d.exponent
  if d.coefficient = 0 then .zero negative
  else if top > 310 then .infinite negative
  else if top < -400 then .zero negative
  else if d.exponent < 0 then
    Binary64.nearest negative d.coefficient (Nat.pow 10 d.exponent.natAbs)
  else Binary64.nearest negative (d.coefficient * Nat.pow 10 d.exponent.natAbs) 1

/-- The same number without zeros at the end of the coefficient. -/
def normalize (d : Scientific) : Scientific :=
  if h : d.coefficient ≠ 0 ∧ d.coefficient % 10 = 0 then
    normalize ⟨d.coefficient / 10, d.exponent + 1⟩
  else d
termination_by d.coefficient
decreasing_by omega

end Scientific

/-- Which of two decimals is taken when a double is half way between them: the upper one, or the one
with an even last digit. -/
inductive Tie where
  | up
  | even
  deriving DecidableEq, Repr

namespace Binary64

/-- The decimal with exactly the value `mantissa · 2 ^ exponent`. -/
def exact (mantissa : Nat) (exponent : Int) : Scientific :=
  if exponent < 0 then ⟨mantissa * Nat.pow 5 exponent.natAbs, exponent⟩
  else ⟨mantissa * Nat.pow 2 exponent.natAbs, 0⟩

/-- The two neighbours of a positive decimal among those with `digits` digits. -/
def neighbours (d : Scientific) (digits : Nat) : Scientific × Scientific :=
  let excess := Scientific.digitCount d.coefficient - digits
  let short := d.coefficient / Nat.pow 10 excess
  (⟨short, d.exponent + excess⟩, ⟨short + 1, d.exponent + excess⟩)

/-- Whether the lower neighbour is taken when both would do: it is nearer, or the tie goes to it. -/
def takesLower (tie : Tie) (d : Scientific) (digits : Nat) : Bool :=
  let unit := Nat.pow 10 (Scientific.digitCount d.coefficient - digits)
  let excess := 2 * (d.coefficient % unit)
  match tie with
  | .up => excess < unit
  | .even => excess < unit || (excess = unit && d.coefficient / unit % 2 = 0)

/-- Of the two neighbours the one that reads back, the nearer if both do. -/
def reading? (tie : Tie) (x : Binary64) (d : Scientific) (digits : Nat) : Option Scientific :=
  let (below, above) := neighbours d digits
  let below? := below.toBinary64 false = x
  let above? := above.toBinary64 false = x
  if below? ∧ above? then if takesLower tie d digits then some below else some above
  else if below? then some below
  else if above? then some above
  else none

/-- The decimal with the fewest digits that reads back as the given magnitude. -/
def shortest (tie : Tie) (mantissa : Nat) (exponent : Int) : Scientific :=
  let d := exact mantissa exponent
  let x := pack false mantissa exponent
  (((List.range 17).findSome? fun i => reading? tie x d (i + 1)).getD d).normalize

end Binary64

end PointerTriage.Decimal
