namespace PointerTriage.Yaml

/-- A character with its position. -/
structure Glyph where
  char : Char
  line : Nat
  column : Nat
  /-- The bytes from here to the end of the text, with one for the end. -/
  left : Nat
  deriving Repr

namespace Glyph

/-- The end of a text, which no text contains. -/
def endMark : Char := '\x00'

def isSeparator (c : Char) : Bool := c = '\u2028' || c = '\u2029'

def isBreak (c : Char) : Bool := c = '\n' || isSeparator c

def isBlank (c : Char) : Bool := c = ' ' || c = '\t'

def isEnd (c : Char) : Bool := c = endMark

def isBreakOrEnd (c : Char) : Bool := isBreak c || isEnd c

def isSpace (c : Char) : Bool := isBlank c || isBreakOrEnd c

/-- Characters of names: of anchors, tag handles and directives. -/
def isWord (c : Char) : Bool := c.isAlphanum || c = '_' || c = '-'

/-- The characters that a text may hold. -/
def isAllowed (c : Char) : Bool :=
  let n := c.toNat
  n = 9 || n = 10 || n = 13 || (32 ≤ n && n ≤ 126) || n = 133 || (160 ≤ n && n ≤ 0xFFFD) || 0x10000 ≤ n

/-- All line breaks but the two Unicode separators are read as `\n`. -/
def ofChars (line column left : Nat) : List Char → List Glyph
  | [] => [⟨endMark, line, column, left⟩]
  | '\r' :: '\n' :: cs => ⟨'\n', line, column, left⟩ :: ofChars (line + 1) 0 (left - 2) cs
  | c :: cs =>
    let after := left - c.utf8Size
    if c = '\n' || c = '\r' || c = '\u0085' then
      ⟨'\n', line, column, left⟩ :: ofChars (line + 1) 0 after cs
    else if isSeparator c then ⟨c, line, column, left⟩ :: ofChars (line + 1) 0 after cs
    else ⟨c, line, column, left⟩ :: ofChars line (column + 1) after cs

def ofText? (s : String) : Option (List Glyph) :=
  if s.toList.all isAllowed then some (ofChars 0 0 (s.utf8ByteSize + 1) s.toList) else none

end Glyph

/-- What is left to read. -/
abbrev Input := List Glyph

namespace Input

def charAt (gs : Input) (n : Nat) : Char := ((gs[n]?).map Glyph.char).getD Glyph.endMark

def peek (gs : Input) : Char := gs.charAt 0

def column (gs : Input) : Nat := ((gs.head?).map Glyph.column).getD 0

def line (gs : Input) : Nat := ((gs.head?).map Glyph.line).getD 0

/-- The bytes that are left. -/
def left (gs : Input) : Nat := ((gs.head?).map Glyph.left).getD 0

def drop (gs : Input) (n : Nat) : Input := List.drop n gs

/-- Three dashes or three dots at the start of a line. -/
def atDocumentMark (gs : Input) : Bool :=
  gs.column = 0 && (gs.peek = '-' || gs.peek = '.') && gs.charAt 1 = gs.peek && gs.charAt 2 = gs.peek &&
    Glyph.isSpace (gs.charAt 3)

/-- The leading characters of a class, and the rest. -/
def span (p : Char → Bool) (gs : Input) : List Char × Input :=
  ((gs.takeWhile (p ·.char)).map Glyph.char, gs.dropWhile (p ·.char))

def skip (p : Char → Bool) (gs : Input) : Input := gs.dropWhile (p ·.char)

end Input

end PointerTriage.Yaml
