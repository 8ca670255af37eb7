import PointerTriage.Yaml.Basic
import PointerTriage.Yaml.Core
import PointerTriage.Yaml.Glyph

namespace PointerTriage.Yaml

namespace Writer
open Glyph

/-- The characters that are written as they are. -/
def isPrintable (c : Char) : Bool :=
  let n := c.toNat
  n = 10 || (32 ≤ n && n ≤ 126) || (160 ≤ n && n < 0xFFFE && n ≠ 0xFEFF) || 0x10000 ≤ n

def isLineBreak (c : Char) : Bool := isBreak c || c = '\r' || c = '\u0085'

/-- A blank, a line break or the end of the text. -/
def isGap : Option Char → Bool
  | none => true
  | some c => isBlank c || isLineBreak c || isEnd c

def hasPair (p q : Char → Bool) : List Char → Bool
  | a :: b :: cs => (p a && q b) || hasPair p q (b :: cs)
  | _ => false

/-- Whether the first character, before `next`, starts something else than plain text. -/
def startsOther (c : Char) (next : Option Char) : Bool :=
  c ∈ ['#', ',', '[', ']', '{', '}', '&', '*', '!', '|', '>', '\'', '"', '%', '@', '\x60'] ||
    (c ∈ ['?', ':', '-'] && isGap next)

/-- Whether plain text would end before a later character: at a colon before a gap, or at a comment. -/
def endsEarly (before : Char) : List Char → Bool
  | [] => false
  | c :: cs => (c = ':' && isGap cs.head?) || (c = '#' && isGap (some before)) || endsEarly c cs

def isDocumentMark (cs : List Char) : Bool :=
  cs.take 3 = ['-', '-', '-'] || cs.take 3 = ['.', '.', '.']

def allowsPlain (cs : List Char) : Bool :=
  match cs with
  | [] => true
  | c :: rest =>
    !isDocumentMark cs && !startsOther c rest.head? && !endsEarly c rest &&
      cs.all (fun c => isPrintable c && !isLineBreak c) && c ≠ ' ' && cs.getLast? ≠ some ' '

def allowsSingle (cs : List Char) : Bool :=
  cs.all isPrintable && !hasPair (· = ' ') isLineBreak cs && !hasPair isLineBreak (· = ' ') cs

def allowsBlock (cs : List Char) : Bool :=
  cs.all isPrintable && !hasPair (· = ' ') isLineBreak cs && cs.getLast? ≠ some ' '

/-- How a text is written. -/
def styleOf (s : String) : Style :=
  let cs := s.toList
  if cs.contains '\n' then (if allowsBlock cs then .literal else .double)
  else if !Core.isMisread s && allowsPlain cs then .plain
  else if allowsSingle cs then .single
  else .double

def hexDigit (n : Nat) : Char :=
  if n < 10 then Char.ofNat ('0'.toNat + n) else Char.ofNat ('A'.toNat + (n - 10))

/-- The last `width` hexadecimal digits. -/
def hex : Nat → Nat → List Char
  | 0, _ => []
  | width + 1, n => hex width (n / 16) ++ [hexDigit (n % 16)]

def escapes : List (Char × Char) :=
  [('\x00', '0'), ('\x07', 'a'), ('\x08', 'b'), ('\t', 't'), ('\n', 'n'), ('\x0b', 'v'), ('\x0c', 'f'),
    ('\r', 'r'), ('\x1b', 'e'), ('"', '"'), ('\\', '\\'), ('\u0085', 'N'), ('\u2028', 'L'),
    ('\u2029', 'P')]

def escape (c : Char) : List Char :=
  match escapes.find? (·.1 = c) with
  | some (_, letter) => ['\\', letter]
  | none =>
    if isPrintable c then [c]
    else if c.toNat < 0x100 then '\\' :: 'x' :: hex 2 c.toNat
    else if c.toNat < 0x10000 then '\\' :: 'u' :: hex 4 c.toNat
    else '\\' :: 'U' :: hex 8 c.toNat

def blanks (n : Nat) : List Char := List.replicate n ' '

/-- Lines of a block; `fresh` says that nothing is on the line yet. Empty lines are not indented. -/
def lines (indent : Nat) (fresh : Bool) : List Char → List Char
  | [] => []
  | c :: cs =>
    if isLineBreak c then c :: lines indent true cs
    else (if fresh then blanks indent else []) ++ c :: lines indent false cs

/-- The inside of single quotes; a line break in it is followed by the indentation. -/
def quoted (indent : Nat) (fresh : Bool) : List Char → List Char
  | [] => if fresh then blanks indent else []
  | c :: cs =>
    if isLineBreak c then c :: quoted indent true cs
    else
      (if fresh then blanks indent else []) ++ (if c = '\'' then ['\'', '\''] else [c]) ++
        quoted indent false cs

/-- The width of the indentation is given when the first line does not show it. -/
def indentHint (cs : List Char) : List Char :=
  if cs.head?.any (fun c => c = ' ' || isLineBreak c) then ['2'] else []

/-- What becomes of the line breaks at the end: all but one are there only if they are asked for. -/
def chompHint (cs : List Char) : List Char :=
  match cs.reverse with
  | [] => ['-']
  | [c] => if isLineBreak c then ['+'] else ['-']
  | c :: b :: _ => if !isLineBreak c then ['-'] else if isLineBreak b then ['+'] else []

/-- A scalar and the end of its line. -/
def scalar (indent : Nat) (style : Style) (s : String) : List Char :=
  let cs := s.toList
  match style with
  | .plain => cs ++ ['\n']
  | .single => '\'' :: quoted indent false cs ++ ['\'', '\n']
  | .double => '"' :: cs.flatMap escape ++ ['"', '\n']
  | .literal | .folded =>
    '|' :: indentHint cs ++ chompHint cs ++ '\n' :: lines indent true cs ++
      (if cs.getLast?.any isLineBreak then [] else ['\n'])

/-- A byte of a tag. -/
def tagByte (b : UInt8) : List Char :=
  let c := Char.ofNat b.toNat
  if isWord c then [c] else '%' :: hex 2 b.toNat

/-- A tag before a scalar. -/
def tagged (tag : Option Tag) (cs : List Char) : List Char :=
  match tag with
  | some tag => '!' :: '<' :: tag.bytes.flatMap tagByte ++ '>' :: ' ' :: cs
  | none => cs

/-- A key on the line of its value: a scalar without lines of its own. -/
def simpleKey? : Node → Option (List Char)
  | .scalar .plain tag s => some (tagged tag s.toList)
  | .scalar .single tag s => some (tagged tag ('\'' :: quoted 0 false s.toList ++ ['\'']))
  | .scalar _ tag s => some (tagged tag ('"' :: s.toList.flatMap escape ++ ['"']))
  | _ => none

mutual

/-- A node after a mark or at the start of the text; its lines but the first are indented. -/
def inner (indent : Nat) : Node → List Char
  | .scalar style tag s => tagged tag (scalar indent style s)
  | .alias a => '*' :: (toString a).toList ++ ['\n']
  | .list [] => ['[', ']', '\n']
  | .list (n :: ns) => items indent true (n :: ns)
  | .mapping [] => ['{', '}', '\n']
  | .mapping (e :: es) => entries indent true (e :: es)

/-- A node after a key and its colon. -/
def value (indent : Nat) : Node → List Char
  | .scalar style tag s => ' ' :: tagged tag (scalar (indent + 2) style s)
  | .alias a => ' ' :: '*' :: (toString a).toList ++ ['\n']
  | .list [] => [' ', '[', ']', '\n']
  | .list (n :: ns) => '\n' :: items indent false (n :: ns)
  | .mapping [] => [' ', '{', '}', '\n']
  | .mapping (e :: es) => '\n' :: entries (indent + 2) false (e :: es)

/-- Items a line each; `started` says that the first line is indented already. -/
def items (indent : Nat) (started : Bool) : List Node → List Char
  | [] => []
  | n :: ns =>
    (if started then [] else blanks indent) ++ '-' :: ' ' :: inner (indent + 2) n ++
      items indent false ns

def entries (indent : Nat) (started : Bool) : List (Node × Node) → List Char
  | [] => []
  | (k, n) :: es =>
    (if started then [] else blanks indent) ++
      (match simpleKey? k with
      | some cs => cs ++ ':' :: value indent n
      | none =>
        '?' :: ' ' :: inner (indent + 2) k ++ blanks indent ++ ':' :: ' ' :: inner (indent + 2) n) ++
      entries indent false es

end

end Writer

/-- A scalar that reads back as the text. -/
def Node.text (s : String) : Node := .scalar (Writer.styleOf s) none s

def Node.write (n : Node) : String := String.ofList (Writer.inner 0 n)

end PointerTriage.Yaml
