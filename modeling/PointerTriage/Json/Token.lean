import PointerTriage.Json.Number

namespace PointerTriage.Json

inductive Token where
  | openList
  | closeList
  | openRecord
  | closeRecord
  | comma
  | colon
  | text (s : String)
  /-- A number or one of the words `null`, `true`, `false`. -/
  | atom (j : Json)

def isSpace (c : Char) : Bool := c = ' ' || c = '\t' || c = '\n' || c = '\r'

def hexValue? (c : Char) : Option Nat :=
  if c.isDigit then some (c.toNat - '0'.toNat)
  else if 'a' ≤ c ∧ c ≤ 'f' then some (c.toNat - 'a'.toNat + 10)
  else if 'A' ≤ c ∧ c ≤ 'F' then some (c.toNat - 'A'.toNat + 10)
  else none

def hex4? (a b c d : Char) : Option Nat := do
  let a ← hexValue? a
  let b ← hexValue? b
  let c ← hexValue? c
  let d ← hexValue? d
  return ((a * 16 + b) * 16 + c) * 16 + d

/-- A code point outside the surrogates. -/
def scalar? (n : Nat) : Option Char :=
  if n.isValidChar then some (Char.ofNat n) else none

/-- The code point that a high and a low surrogate stand for. -/
def surrogates? (high low : Nat) : Option Char :=
  if 0xd800 ≤ high ∧ high < 0xdc00 ∧ 0xdc00 ≤ low ∧ low < 0xe000 then
    scalar? (0x10000 + (high - 0xd800) * 0x400 + (low - 0xdc00))
  else none

def escaped? : Char → Option Char
  | '"' => some '"'
  | '\\' => some '\\'
  | '/' => some '/'
  | 'b' => some '\x08'
  | 'f' => some '\x0c'
  | 'n' => some '\n'
  | 'r' => some '\r'
  | 't' => some '\t'
  | _ => none

/-- What follows an opening quote: the text up to the closing one, and the rest. -/
def quoted? : List Char → Option (List Char × List Char)
  | [] => none
  | '"' :: cs => some ([], cs)
  | '\\' :: 'u' :: a :: b :: c :: d :: '\\' :: 'u' :: e :: f :: g :: h :: cs => do
    let n ← hex4? a b c d
    match scalar? n with
    | some x => (quoted? ('\\' :: 'u' :: e :: f :: g :: h :: cs)).map fun (s, rest) => (x :: s, rest)
    | none =>
      let x ← surrogates? n (← hex4? e f g h)
      (quoted? cs).map fun (s, rest) => (x :: s, rest)
  | '\\' :: 'u' :: a :: b :: c :: d :: cs => do
    let x ← scalar? (← hex4? a b c d)
    (quoted? cs).map fun (s, rest) => (x :: s, rest)
  | '\\' :: c :: cs => do
    let x ← escaped? c
    (quoted? cs).map fun (s, rest) => (x :: s, rest)
  | c :: cs =>
    if c.toNat < 0x20 ∨ c = '\\' then none
    else (quoted? cs).map fun (s, rest) => (c :: s, rest)

def isNumberChar (c : Char) : Bool :=
  c.isDigit || c = '-' || c = '+' || c = '.' || c = 'e' || c = 'E'

def word? (cs : List Char) : Option Json :=
  if cs = "null".toList then some .null
  else if cs = "true".toList then some (.bool true)
  else if cs = "false".toList then some (.bool false)
  else none

def mark? : Char → Option Token
  | '[' => some .openList
  | ']' => some .closeList
  | '{' => some .openRecord
  | '}' => some .closeRecord
  | ',' => some .comma
  | ':' => some .colon
  | _ => none

theorem quoted?_length {cs s rest : List Char} (h : quoted? cs = some (s, rest)) :
    rest.length < cs.length := by
  fun_induction quoted? cs generalizing s rest with
  | case1 => simp at h
  | case2 cs => cases h; simp
  | case3 a b c d e f g k cs ih1 ih2 =>
    obtain ⟨n, _, h⟩ := Option.bind_eq_some_iff.1 h
    split at h
    · obtain ⟨⟨_, _⟩, hp, h⟩ := Option.map_eq_some_iff.1 h
      cases h
      have := ih1 hp
      simp only [List.length_cons] at this ⊢
      omega
    · obtain ⟨m, _, h⟩ := Option.bind_eq_some_iff.1 h
      obtain ⟨x, _, h⟩ := Option.bind_eq_some_iff.1 h
      obtain ⟨⟨_, _⟩, hp, h⟩ := Option.map_eq_some_iff.1 h
      cases h
      have := ih2 hp
      simp only [List.length_cons]
      omega
  | case4 a b c d cs _ ih =>
    obtain ⟨n, _, h⟩ := Option.bind_eq_some_iff.1 h
    obtain ⟨x, _, h⟩ := Option.bind_eq_some_iff.1 h
    obtain ⟨⟨_, _⟩, hp, h⟩ := Option.map_eq_some_iff.1 h
    cases h
    have := ih hp
    simp only [List.length_cons]
    omega
  | case5 c cs _ _ ih =>
    obtain ⟨x, _, h⟩ := Option.bind_eq_some_iff.1 h
    obtain ⟨⟨_, _⟩, hp, h⟩ := Option.map_eq_some_iff.1 h
    cases h
    have := ih hp
    simp only [List.length_cons]
    omega
  | case6 => simp at h
  | case7 c cs _ _ _ _ _ ih =>
    obtain ⟨⟨_, _⟩, hp, h⟩ := Option.map_eq_some_iff.1 h
    cases h
    have := ih hp
    simp only [List.length_cons]
    omega

theorem dropWhile_length_le (p : Char → Bool) (cs : List Char) :
    (cs.dropWhile p).length ≤ cs.length :=
  (List.dropWhile_sublist p).length_le

/-- The tokens of a text, after those in `before` (latest first). -/
def tokensAfter (before : List Token) : List Char → Option (List Token)
  | [] => some before.reverse
  | c :: cs =>
    if isSpace c then tokensAfter before cs
    else if c = '"' then
      match _h : quoted? cs with
      | none => none
      | some (s, rest) => tokensAfter (.text (String.ofList s) :: before) rest
    else match mark? c with
      | some t => tokensAfter (t :: before) cs
      | none =>
        if isNumberChar c then
          match number? (c :: cs.takeWhile isNumberChar) with
          | none => none
          | some j => tokensAfter (.atom j :: before) (cs.dropWhile isNumberChar)
        else
          match word? (c :: cs.takeWhile Char.isAlpha) with
          | none => none
          | some j => tokensAfter (.atom j :: before) (cs.dropWhile Char.isAlpha)
termination_by cs => cs.length
decreasing_by
  all_goals simp only [List.length_cons]
  · omega
  · have := quoted?_length ‹_›; omega
  · omega
  · have := dropWhile_length_le isNumberChar cs; omega
  · have := dropWhile_length_le Char.isAlpha cs; omega

def tokens? (s : String) : Option (List Token) := tokensAfter [] s.toList

end PointerTriage.Json
