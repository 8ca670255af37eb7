import PointerTriage.Yaml.Basic
import PointerTriage.Yaml.Scalar

namespace PointerTriage.Yaml
open Glyph

inductive Token where
  | versionDirective
  | tagDirective (handle : String) (start : Tag)
  | documentStart
  | documentEnd
  | blockSequenceStart
  | blockMappingStart
  | blockEnd
  | flowSequenceStart
  | flowSequenceEnd
  | flowMappingStart
  | flowMappingEnd
  | blockEntry
  | flowEntry
  | key
  | value
  | alias (name : String)
  | anchor (name : String)
  | tag (handle : String) (suffix : Tag)
  | scalar (style : Style) (text : String)
  | textEnd
  deriving DecidableEq, Repr

/-- Where a key without a mark of its own may start. -/
structure KeyPlace where
  /-- The block cannot go on unless a key starts here. -/
  required : Bool
  /-- The number of tokens before it. -/
  number : Nat
  line : Nat
  column : Nat
  left : Nat
  deriving Repr

/-- A key is on one line and has at most so many bytes. -/
def longestKey : Nat := 1024

/-- Indentation is turned into tokens that open and close blocks. A place where a key may start is
remembered until a colon follows, and the tokens of the key are put in front of it. -/
structure Scanner where
  input : Input
  /-- The column of the innermost block, `-1` outside of all. -/
  indent : Int
  indents : List Int
  /-- Whether a key may start here. -/
  keyAllowed : Bool
  /-- The latest possible key of each bracketed collection, innermost first, and last that of the
  blocks around them. -/
  keys : List (Option KeyPlace)
  /-- The latest comes first. -/
  tokens : List Token
  /-- How many tokens there are. -/
  count : Nat

namespace Scanner

def start (gs : Input) : Scanner := ⟨gs, -1, [], true, [none], [], 0⟩

def inFlow (s : Scanner) : Bool :=
  match s.keys with
  | _ :: _ :: _ => true
  | _ => false

/-- Puts a token in front of all but the first `number` ones. -/
def insertAt (s : Scanner) (number : Nat) (t : Token) : Scanner :=
  let later := s.count - number
  { s with tokens := s.tokens.take later ++ t :: s.tokens.drop later, count := s.count + 1 }

def push (s : Scanner) (t : Token) : Scanner :=
  { s with tokens := t :: s.tokens, count := s.count + 1 }

/-- Opens a block if the column is right of the current one. -/
def openBlock (s : Scanner) (column number : Nat) (t : Token) : Scanner :=
  if !s.inFlow && s.indent < column then
    { s.insertAt number t with indent := column, indents := s.indent :: s.indents }
  else s

/-- The blocks to the right of a column are left: the new indentation and how many there are. -/
def leave (column : Int) (indent : Int) : List Int → Int × List Int × Nat
  | [] => (indent, [], 0)
  | outer :: indents =>
    if column < indent then
      let (indent, indents, n) := leave column outer indents
      (indent, indents, n + 1)
    else (indent, outer :: indents, 0)

def closeBlocks (s : Scanner) (column : Int) : Scanner :=
  if s.inFlow then s
  else
    let (indent, indents, n) := leave column s.indent s.indents
    { s with
      indent, indents
      tokens := List.replicate n .blockEnd ++ s.tokens
      count := s.count + n }

/-- There is no key at the remembered place. -/
def dropKey (s : Scanner) : Option Scanner :=
  match s.keys with
  | some k :: keys => if k.required then none else some { s with keys := none :: keys }
  | _ => some s

/-- Remembers that a key may start here. -/
def markKey (s : Scanner) : Option Scanner :=
  if s.keyAllowed then do
    let s ← s.dropKey
    let column := s.input.column
    let k : KeyPlace :=
      ⟨!s.inFlow && s.indent = column, s.count, s.input.line, column, s.input.left⟩
    return { s with keys := some k :: s.keys.drop 1 }
  else some s

def isStale (s : Scanner) (k : KeyPlace) : Bool :=
  k.line < s.input.line || s.input.left + longestKey < k.left

/-- Forgets places that are too far away for a key. -/
def dropStale (s : Scanner) : Option Scanner := do
  let keys ← s.keys.mapM fun
    | some k => if s.isStale k then (if k.required then none else some none) else some (some k)
    | none => some none
  return { s with keys }

/-- Skips white space, comments and a byte order mark that starts a line. A new line in a block may
start a key. -/
def skipSpace (inFlow : Bool) (keyAllowed : Bool) (inComment : Bool) : Input → Bool × Input
  | [] => (keyAllowed, [])
  | g :: gs =>
    if isBreak g.char then skipSpace inFlow (keyAllowed || !inFlow) false gs
    else if inComment && !isEnd g.char then skipSpace inFlow keyAllowed true gs
    else if g.char = ' ' || (g.char = '\t' && (inFlow || !keyAllowed)) ||
        (g.char = '\ufeff' && g.column = 0) then
      skipSpace inFlow keyAllowed false gs
    else if g.char = '#' then skipSpace inFlow keyAllowed true gs
    else (keyAllowed, g :: gs)

def toNextToken (s : Scanner) : Scanner :=
  let (keyAllowed, input) := skipSpace s.inFlow s.keyAllowed false s.input
  { s with keyAllowed, input }

/-- A token of `n` characters. -/
def take (s : Scanner) (n : Nat) (t : Token) : Scanner :=
  { s.push t with input := s.input.drop n }

/-- Back to the outermost level, before a directive or a mark between documents. -/
def atTop (s : Scanner) : Option Scanner := do
  let s ← (s.closeBlocks (-1)).dropKey
  return { s with keyAllowed := false }

/-- The end of the text. -/
def finish (s : Scanner) : Option Scanner := do
  let s ← s.atTop
  return { s.push .textEnd with input := [] }

/-- Blanks and a comment up to the end of a line. -/
def lineEnd? (gs : Input) : Option Input :=
  let gs := gs.skip isBlank
  let gs := if gs.peek = '#' then gs.skip (!isBreakOrEnd ·) else gs
  if isBreak gs.peek then some (gs.drop 1) else if isEnd gs.peek then some gs else none

def number? (gs : Input) : Option (Nat × Input) :=
  let (ds, rest) := gs.span Char.isDigit
  if ds.isEmpty || 9 < ds.length then none
  else some (ds.foldl (fun n d => n * 10 + (d.toNat - '0'.toNat)) 0, rest)

/-- A handle of tags, such as `!`, `!!` or `!name!`. -/
def tagHandle? (gs : Input) : Option (List Char × Input) :=
  if gs.peek = '!' then
    let (word, rest) := (gs.drop 1).span isWord
    if Input.peek rest = '!' then some ('!' :: word ++ ['!'], Input.drop rest 1)
    else some ('!' :: word, rest)
  else none

def isTagChar (verbatim : Bool) (c : Char) : Bool :=
  isWord c ||
    c ∈ [';', '/', '?', ':', '@', '&', '=', '+', '$', '.', '%', '!', '~', '*', '\'', '(', ')'] ||
    (verbatim && c ∈ [',', '[', ']'])

/-- How many bytes a character has, by the first of them. -/
def utf8Width? (lead : Nat) : Option Nat :=
  if lead < 0x80 then some 1
  else if 0xc0 ≤ lead && lead < 0xe0 then some 2
  else if 0xe0 ≤ lead && lead < 0xf0 then some 3
  else if 0xf0 ≤ lead && lead < 0xf8 then some 4
  else none

/-- The bytes of a tag. An escape gives one byte; those of a character follow each other, and `more`
are still to come. -/
def tagBytes? (more : Nat) : List Char → Option (List UInt8)
  | [] => if more = 0 then some [] else none
  | '%' :: a :: b :: cs => do
    let byte ← hexNumber? [a, b]
    let more ← if more = 0 then (utf8Width? byte).map (· - 1)
      else if 0x80 ≤ byte && byte < 0xc0 then some (more - 1) else none
    return byte.toUInt8 :: (← tagBytes? more cs)
  | '%' :: _ => none
  | c :: cs => if more = 0 then (tagBytes? 0 cs).map (c.toNat.toUInt8 :: ·) else none

/-- Characters of a tag, whether there are any, and what follows them. A zero byte ends the tag. -/
def tagChars? (verbatim : Bool) (gs : Input) : Option (Bool × List UInt8 × Input) := do
  let (cs, rest) := gs.span (isTagChar verbatim)
  let bytes ← tagBytes? 0 cs
  return (!cs.isEmpty, bytes.takeWhile (· ≠ 0), rest)

def directive? (gs : Input) : Option (Token × Input) := do
  let (name, rest) := (gs.drop 1).span isWord
  match String.ofList name with
  | "YAML" =>
    let (major, rest) ← number? (Input.skip isBlank rest)
    if rest.peek ≠ '.' then none
    let (minor, rest) ← number? (rest.drop 1)
    if major ≠ 1 || (minor ≠ 1 && minor ≠ 2) then none
    return (.versionDirective, ← lineEnd? rest)
  | "TAG" =>
    if !isBlank (Input.peek rest) then none
    let (handle, rest) ← tagHandle? (Input.skip isBlank rest)
    if handle.getLast? ≠ some '!' || !isBlank (Input.peek rest) then none
    let (given, start, rest) ← tagChars? true (Input.skip isBlank rest)
    if !given || !isSpace rest.peek then none
    return (.tagDirective (String.ofList handle) ⟨start⟩, ← lineEnd? rest)
  | _ => none

/-- The name of an anchor or alias. -/
def name? (gs : Input) : Option (String × Input) :=
  let (word, rest) := gs.span isWord
  let next := Input.peek rest
  if word.isEmpty || !(isSpace next || next ∈ ['?', ':', ',', ']', '\x7d', '%', '@', '\x60']) then none
  else some (String.ofList word, rest)

/-- The bytes of a word. -/
def wordBytes (cs : List Char) : List UInt8 := cs.map (·.toNat.toUInt8)

/-- A tag, as its handle and what follows. The tag `!` has no handle. -/
def tag? (inFlow : Bool) (gs : Input) : Option (Token × Input) := do
  let (handle, suffix, rest) ← (
    if gs.charAt 1 = '<' then do
      let (given, suffix, rest) ← tagChars? true (gs.drop 2)
      if !given || rest.peek ≠ '>' then none
      return ([], suffix, rest.drop 1)
    else do
      let (handle, rest) ← tagHandle? gs
      let (given, suffix, rest) ← tagChars? false rest
      if 1 < handle.length && handle.getLast? = some '!' then
        if !given then none
        return (handle, suffix, rest)
      else
        let suffix := wordBytes (handle.drop 1) ++ suffix
        if suffix.isEmpty then return ([], wordBytes ['!'], rest) else return (['!'], suffix, rest))
  if isSpace rest.peek || (inFlow && rest.peek = ',') then
    return (.tag (String.ofList handle) ⟨suffix⟩, rest)
  else none

def withToken (s : Scanner) (r : Option (Token × Input)) : Option Scanner :=
  r.map fun (t, input) => { s.push t with input }

def openFlow (s : Scanner) (t : Token) : Option Scanner := do
  let s ← s.markKey
  return { s.take 1 t with keys := none :: s.keys, keyAllowed := true }

def closeFlow (s : Scanner) (t : Token) : Option Scanner := do
  let s ← s.dropKey
  let keys := if s.inFlow then s.keys.drop 1 else s.keys
  return { s.take 1 t with keys, keyAllowed := false }

def flowEntry (s : Scanner) : Option Scanner := do
  let s ← s.dropKey
  return { s.take 1 .flowEntry with keyAllowed := true }

def blockEntry (s : Scanner) : Option Scanner := do
  if !s.inFlow && !s.keyAllowed then none
  let s ← (s.openBlock s.input.column s.count .blockSequenceStart).dropKey
  return { s.take 1 .blockEntry with keyAllowed := true }

def explicitKey (s : Scanner) : Option Scanner := do
  if !s.inFlow && !s.keyAllowed then none
  let s ← (s.openBlock s.input.column s.count .blockMappingStart).dropKey
  return { s.take 1 .key with keyAllowed := !s.inFlow }

/-- A colon makes a key of what stands at the remembered place. -/
def value (s : Scanner) : Option Scanner :=
  match s.keys with
  | some k :: keys =>
    let s := (s.insertAt k.number .key).openBlock k.column k.number .blockMappingStart
    some { s.take 1 .value with keys := none :: keys, keyAllowed := false }
  | _ =>
    if !s.inFlow && !s.keyAllowed then none
    else
      let s := s.openBlock s.input.column s.count .blockMappingStart
      some { s.take 1 .value with keyAllowed := !s.inFlow }

def blockScalar (s : Scanner) (style : Style) : Option Scanner := do
  let s ← s.dropKey
  let (text, input) ← block? (style = .literal) s.indent (s.input.drop 1)
  return { s.push (.scalar style text) with input, keyAllowed := true }

def quotedScalar (s : Scanner) (double : Bool) : Option Scanner := do
  let s ← s.markKey
  let (text, input) ← quoted? double (s.input.drop 1)
  return { s.push (.scalar (if double then .double else .single) text) with
    input, keyAllowed := false }

def plainScalar (s : Scanner) : Option Scanner := do
  let s ← s.markKey
  let (text, crossed, input) ← plain? s.inFlow (s.indent + 1) s.input
  return { s.push (.scalar .plain text) with input, keyAllowed := crossed }

def named (s : Scanner) (token : String → Token) : Option Scanner := do
  let s ← s.markKey
  let s ← s.withToken ((name? (s.input.drop 1)).map fun (name, rest) => (token name, rest))
  return { s with keyAllowed := false }

def tagged (s : Scanner) : Option Scanner := do
  let s ← s.markKey
  let s ← s.withToken (tag? s.inFlow s.input)
  return { s with keyAllowed := false }

def startsPlain (inFlow : Bool) (c next : Char) : Bool :=
  !(isSpace c || c ∈ ['-', '?', ':', ',', '[', ']', '\x7b', '\x7d', '#', '&', '*', '!', '|', '>',
    '\'', '"', '%', '@', '\x60']) ||
  (c = '-' && !isBlank next) || (!inFlow && (c = '?' || c = ':') && !isSpace next)

/-- Reads the token that starts here. -/
def readToken (s : Scanner) : Option Scanner :=
  let c := s.input.peek
  let following := s.input.charAt 1
  if isEnd c then s.finish
  else if c = '%' && s.input.column = 0 then do
    let s ← s.atTop
    s.withToken (directive? s.input)
  else if s.input.atDocumentMark then do
    let s ← s.atTop
    return s.take 3 (if c = '-' then .documentStart else .documentEnd)
  else if c = '[' then s.openFlow .flowSequenceStart
  else if c = '\x7b' then s.openFlow .flowMappingStart
  else if c = ']' then s.closeFlow .flowSequenceEnd
  else if c = '\x7d' then s.closeFlow .flowMappingEnd
  else if c = ',' then s.flowEntry
  else if c = '-' && isSpace following then s.blockEntry
  else if c = '?' && (s.inFlow || isSpace following) then s.explicitKey
  else if c = ':' && (s.inFlow || isSpace following) then s.value
  else if c = '*' then s.named .alias
  else if c = '&' then s.named .anchor
  else if c = '!' then s.tagged
  else if c = '|' && !s.inFlow then s.blockScalar .literal
  else if c = '>' && !s.inFlow then s.blockScalar .folded
  else if c = '\'' then s.quotedScalar false
  else if c = '"' then s.quotedScalar true
  else if startsPlain s.inFlow c following then s.plainScalar
  else none

/-- Goes to where the next token starts. -/
def settle (s : Scanner) : Option Scanner := s.toNextToken.dropStale

/-- Reads the next token. -/
def next (s : Scanner) : Option Scanner := do
  let s ← s.settle
  (s.closeBlocks s.input.column).readToken

/-- All tokens, the latest first. -/
def run (s : Scanner) : Option (List Token) :=
  if s.input.isEmpty then some s.tokens
  else
    match s.next with
    | none => none
    | some s' => if s'.input.left < s.input.left then run s' else none
termination_by s.input.left

end Scanner

/-- The tokens of a text, in order. The last one marks its end. -/
def tokens? (s : String) : Option (List Token) := do
  return (← (Scanner.start (← Glyph.ofText? s)).run).reverse

end PointerTriage.Yaml
