import PointerTriage.Yaml.Glyph

namespace PointerTriage.Yaml
open Glyph

/-- The white space between two words of a scalar. Within a line it counts as it is; one line break
counts as a space, and of more the first does not count. -/
structure Gap where
  blanks : List Char
  /-- Line breaks, in order. -/
  breaks : List Char

namespace Gap

def fold (g : Gap) : List Char :=
  match g.breaks with
  | [] => g.blanks
  | ['\n'] => [' ']
  | '\n' :: more => more
  | breaks => breaks

def crossesLine (g : Gap) : Bool := !g.breaks.isEmpty

end Gap

/-- Reads white space. Blanks after a line break do not count; a tab among them, left of column
`indent`, is refused. -/
def gap? (indent : Int) (crossed : Bool) : Input → Option (Gap × Input)
  | [] => some (⟨[], []⟩, [])
  | g :: gs =>
    if isBlank g.char then
      if crossed && g.char = '\t' && g.column < indent then none
      else (gap? indent crossed gs).map fun (gap, rest) =>
        (if crossed then gap else { gap with blanks := g.char :: gap.blanks }, rest)
    else if isBreak g.char then
      (gap? indent true gs).map fun (gap, rest) => (⟨[], g.char :: gap.breaks⟩, rest)
    else some (⟨[], []⟩, g :: gs)

def isFlowIndicator (c : Char) : Bool := c ∈ [',', '[', ']', '\x7b', '\x7d']

/-- The characters of a plain scalar up to white space or what ends the scalar. -/
def plainWord? (inFlow : Bool) : Input → Option (List Char × Input)
  | [] => some ([], [])
  | g :: gs =>
    let next := Input.peek gs
    if isSpace g.char then some ([], g :: gs)
    else if inFlow && g.char = ':' && (isFlowIndicator next || next = '?') then none
    else if (g.char = ':' && isSpace next) || (inFlow && isFlowIndicator g.char) then
      some ([], g :: gs)
    else (plainWord? inFlow gs).map fun (cs, rest) => (g.char :: cs, rest)

/-- A plain scalar after `pending` white space, and whether a line break follows it. -/
def plainFrom (inFlow : Bool) (indent : Int) (pending : Gap) (gs : Input) :
    Option (List Char × Bool × Input) :=
  if gs.atDocumentMark || gs.peek = '#' then some ([], pending.crossesLine, gs)
  else do
    let (word, rest) ← plainWord? inFlow gs
    if word.isEmpty then return ([], pending.crossesLine, gs)
    else if isBlank rest.peek || isBreak rest.peek then
      let (gap, after) ← gap? indent false rest
      if !inFlow && after.column < indent then
        return (pending.fold ++ word, gap.crossesLine, after)
      else if after.left < gs.left then
        let (more, crossed, rest) ← plainFrom inFlow indent gap after
        return (pending.fold ++ word ++ more, crossed, rest)
      else none
    else return (pending.fold ++ word, false, rest)
termination_by gs.left

/-- A plain scalar in a block of the given indentation. -/
def plain? (inFlow : Bool) (indent : Int) (gs : Input) : Option (String × Bool × Input) := do
  let (cs, crossed, rest) ← plainFrom inFlow indent ⟨[], []⟩ gs
  return (String.ofList cs, crossed, rest)

def hexValue? (c : Char) : Option Nat :=
  if c.isDigit then some (c.toNat - '0'.toNat)
  else if 'a' ≤ c && c ≤ 'f' then some (c.toNat - 'a'.toNat + 10)
  else if 'A' ≤ c && c ≤ 'F' then some (c.toNat - 'A'.toNat + 10)
  else none

/-- The number that some hexadecimal digits write. -/
def hexNumber? (cs : List Char) : Option Nat :=
  cs.foldl (fun n c => do return (← n) * 16 + (← hexValue? c)) (some 0)

def codePoint? (n : Nat) : Option Char :=
  if n < 0xD800 || (0xDFFF < n && n ≤ 0x10FFFF) then some (Char.ofNat n) else none

/-- Characters with a short escape. -/
def escapes : List (Char × Char) :=
  [('0', '\x00'), ('a', '\x07'), ('b', '\x08'), ('t', '\t'), ('\t', '\t'), ('n', '\n'),
    ('v', '\x0b'), ('f', '\x0c'), ('r', '\r'), ('e', '\x1b'), (' ', ' '), ('"', '"'), ('/', '/'),
    ('\\', '\\'), ('N', '\u0085'), ('_', '\u00a0'), ('L', '\u2028'), ('P', '\u2029')]

/-- The number of hexadecimal digits of a long escape. -/
def escapeWidth? : Char → Option Nat
  | 'x' => some 2
  | 'u' => some 4
  | 'U' => some 8
  | _ => none

/-- The character of an escape, given what follows the backslash. -/
def escape? (gs : Input) : Option (Char × Input) :=
  match escapeWidth? gs.peek with
  | some width => do
    let c ← codePoint? (← hexNumber? (((gs.drop 1).take width).map Glyph.char))
    return (c, gs.drop (1 + width))
  | none => do
    let (_, c) ← escapes.find? (·.1 == gs.peek)
    return (c, gs.drop 1)

/-- What stands at a place inside a quoted scalar. -/
inductive QuotedPart where
  /-- White space or the closing quote. -/
  | stop
  /-- A line break that does not count. -/
  | escapedBreak (rest : Input)
  | char (c : Char) (rest : Input)

def quotedPart? (double : Bool) (gs : Input) : Option QuotedPart :=
  let c := gs.peek
  if isSpace c then some .stop
  else if double then
    if c = '"' then some .stop
    else if c = '\\' then
      if isBreak (gs.charAt 1) then some (.escapedBreak (gs.drop 2))
      else (escape? (gs.drop 1)).map fun (c, rest) => .char c rest
    else some (.char c (gs.drop 1))
  else if c = '\'' then
    if gs.charAt 1 = '\'' then some (.char c (gs.drop 2)) else some .stop
  else some (.char c (gs.drop 1))

/-- The characters of a quoted scalar up to white space or the closing quote, and whether an escaped
line break ends them. -/
def quotedWord? (double : Bool) (gs : Input) : Option (List Char × Bool × Input) :=
  match quotedPart? double gs with
  | none => none
  | some .stop => some ([], false, gs)
  | some (.escapedBreak rest) => some ([], true, rest)
  | some (.char c rest) =>
    if rest.left < gs.left then
      (quotedWord? double rest).map fun (cs, escaped, rest) => (c :: cs, escaped, rest)
    else none
termination_by gs.left

/-- A quoted scalar after its opening quote. -/
def quotedFrom (double : Bool) (gs : Input) : Option (List Char × Input) :=
  if gs.atDocumentMark || isEnd gs.peek then none
  else do
    let (word, escaped, rest) ← quotedWord? double gs
    if rest.peek = (if double then '"' else '\'') then return (word, rest.drop 1)
    else
      let (gap, after) ← gap? 0 escaped rest
      -- After an escaped line break every further one counts.
      let white := if escaped then gap.breaks else gap.fold
      if after.left < gs.left then
        let (more, rest) ← quotedFrom double after
        return (word ++ white ++ more, rest)
      else none
termination_by gs.left

def quoted? (double : Bool) (gs : Input) : Option (String × Input) := do
  let (cs, rest) ← quotedFrom double gs
  return (String.ofList cs, rest)

inductive Chomp where
  | strip
  | clip
  | keep

def chomp? : Char → Option Chomp
  | '+' => some .keep
  | '-' => some .strip
  | _ => none

/-- The marks after the indicator of a block scalar: how it ends and how far it is indented. -/
def blockHeader? (gs : Input) : Option (Chomp × Nat × Input) :=
  let digit? (gs : Input) : Option (Nat × Input) :=
    if gs.peek.isDigit then
      if gs.peek = '0' then none else some (gs.peek.toNat - '0'.toNat, gs.drop 1)
    else some (0, gs)
  match chomp? gs.peek with
  | some chomp => (digit? (gs.drop 1)).map fun (n, rest) => (chomp, n, rest)
  | none => (digit? gs).map fun (n, rest) =>
    match chomp? rest.peek with
    | some chomp => if 0 < n then (chomp, n, rest.drop 1) else (.clip, n, rest)
    | none => (.clip, n, rest)

/-- Skips indentation and empty lines. Indentation `0` means that it is not known yet; then the
greatest indentation seen is given back too. -/
def emptyLines? (indent seen : Nat) : Input → Option (List Char × Nat × Input)
  | [] => some ([], seen, [])
  | g :: gs =>
    let inside := indent = 0 || g.column < indent
    if inside && g.char = ' ' then emptyLines? indent (max seen (g.column + 1)) gs
    else if inside && g.char = '\t' then none
    else if isBreak g.char then
      (emptyLines? indent (max seen g.column) gs).map fun (breaks, seen, rest) =>
        (g.char :: breaks, seen, rest)
    else some ([], max seen g.column, g :: gs)

/-- The lines of a block scalar, after a line that ended in `last` and some empty ones. -/
def blockLines? (literal : Bool) (indent : Nat) (afterBlank : Bool) (last empty : List Char)
    (gs : Input) : Option (List Char × List Char × List Char × Input) :=
  if gs.column = indent && !isEnd gs.peek then do
    let startsBlank := isBlank gs.peek
    let folded := !literal && last = ['\n'] && !afterBlank && !startsBlank
    let joined := if folded then (if empty.isEmpty then [' '] else []) else last
    let (line, rest) := gs.span (!isBreakOrEnd ·)
    let ending := if isBreak rest.peek then [rest.peek] else []
    let (empty', _, after) ← emptyLines? indent 0 (rest.drop ending.length)
    if after.left < gs.left then
      let (text, last, tail, rest) ← blockLines? literal indent startsBlank ending empty' after
      return (joined ++ empty ++ line ++ text, last, tail, rest)
    else none
  else some ([], last, empty, gs)
termination_by gs.left

/-- A block scalar after its indicator, inside a block of the given indentation. -/
def block? (literal : Bool) (outer : Int) (gs : Input) : Option (String × Input) := do
  let (chomp, increment, gs) ← blockHeader? gs
  let gs := gs.skip isBlank
  let gs := if gs.peek = '#' then gs.skip (!isBreakOrEnd ·) else gs
  if !isBreakOrEnd gs.peek then none
  let gs := if isBreak gs.peek then gs.drop 1 else gs
  let given := if increment = 0 then 0 else increment + outer.toNat
  let (empty, seen, gs) ← emptyLines? given 0 gs
  let indent := if given = 0 then max seen (max (outer + 1).toNat 1) else given
  let (text, last, tail, rest) ← blockLines? literal indent false [] empty gs
  let ending := match chomp with
    | .strip => []
    | .clip => last
    | .keep => last ++ tail
  return (String.ofList (text ++ ending), rest)

end PointerTriage.Yaml
