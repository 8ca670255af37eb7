import PointerTriage.Json.Basic

namespace PointerTriage.Json

def hexDigit (n : Nat) : Char :=
  if n < 10 then Char.ofNat ('0'.toNat + n) else Char.ofNat ('a'.toNat + (n - 10))

def escape (c : Char) : List Char :=
  if c = '"' then ['\\', '"']
  else if c = '\\' then ['\\', '\\']
  else if c = '\n' then ['\\', 'n']
  else if c = '\r' then ['\\', 'r']
  else if c = '\t' then ['\\', 't']
  else if c = '\x08' then ['\\', 'b']
  else if c = '\x0c' then ['\\', 'f']
  else if c.toNat < 0x20 then
    ['\\', 'u', '0', '0', hexDigit (c.toNat / 16), hexDigit (c.toNat % 16)]
  else [c]

def quote (s : String) : List Char := '"' :: s.toList.flatMap escape ++ ['"']

inductive Layout where
  | compact
  | indented

/-- What stands before an item of a container whose items are at the given level. -/
def Layout.gap (layout : Layout) (level : Nat) : List Char :=
  match layout with
  | .compact => []
  | .indented => '\n' :: List.replicate (2 * level) ' '

def Layout.colon : Layout → List Char
  | .compact => [':']
  | .indented => [':', ' ']

/-- Reals are written with a point or an exponent. -/
def realStyle : Decimal.Style := ⟨.even, some 16, some 4, true, "null", "null"⟩

mutual

def write (layout : Layout) (level : Nat) : Json → List Char
  | .null => "null".toList
  | .bool b => (if b then "true" else "false").toList
  | .integer i => (toString i).toList
  | .real x => (x.write realStyle).toList
  | .text s => quote s
  | .list [] => "[]".toList
  | .list (j :: js) =>
    '[' :: layout.gap (level + 1) ++ write layout (level + 1) j ++
      writeItems layout (level + 1) js ++ layout.gap level ++ [']']
  | .record [] => ['{', '}']
  | .record ((k, j) :: es) =>
    '{' :: layout.gap (level + 1) ++ quote k ++ layout.colon ++ write layout (level + 1) j ++
      writeEntries layout (level + 1) es ++ layout.gap level ++ ['}']

def writeItems (layout : Layout) (level : Nat) : List Json → List Char
  | [] => []
  | j :: js => ',' :: layout.gap level ++ write layout level j ++ writeItems layout level js

def writeEntries (layout : Layout) (level : Nat) : List (String × Json) → List Char
  | [] => []
  | (k, j) :: es =>
    ',' :: layout.gap level ++ quote k ++ layout.colon ++ write layout level j ++
      writeEntries layout level es

end

def compact (j : Json) : String := String.ofList (write .compact 0 j)

def pretty (j : Json) : String := String.ofList (write .indented 0 j)

end PointerTriage.Json
