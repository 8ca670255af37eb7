namespace PointerTriage

/-- As much of a type as tells whether a value is a data pointer, how many bytes it stores, and
whether a pointer follows a buffer inside it. -/
inductive Shape where
  | void
  | int (bits : Nat)
  | float (bits : Nat)
  /-- The pointee is known for typed pointers only. -/
  | pointer (pointee : Option Shape)
  | array (element : Shape) (len : Nat)
  | vector (element : Shape) (len : Nat)
  | struct (fields : List Shape)
  | function
  | other
  deriving Repr, Inhabited

namespace Shape

def untyped : Shape := .pointer none

def pointerTo (s : Shape) : Shape := .pointer (some s)

def isPointer : Shape → Bool
  | .pointer _ => true
  | _ => false

def isVoid : Shape → Bool
  | .void => true
  | _ => false

/-- Pointers and arrays carry data addresses; functions do not. -/
def isDataPointer : Shape → Bool
  | .pointer _ | .array .. => true
  | _ => false

def pointee? : Shape → Option Shape
  | .pointer p => p
  | _ => none

/-- Sizes are counted in 64 bits, up to this many bytes, and stay there. -/
def maxSize : Nat := 18446744073709551615

def pointerBytes : Nat := 8

mutual

/-- Bytes stored by a value, fields packed. -/
def size? : Shape → Option Nat
  | .int bits | .float bits => some ((bits + 7) / 8)
  | .pointer _ => some pointerBytes
  | .array element len | .vector element len =>
    (size? element).map fun s => min (s * len) maxSize
  | .struct fields => fieldsSize? 0 fields
  | .void | .function | .other => none

/-- Bytes stored by some fields after `before` bytes. -/
def fieldsSize? (before : Nat) : List Shape → Option Nat
  | [] => some before
  | f :: fs => (size? f).bind fun s => fieldsSize? (min (before + s) maxSize) fs

end

/-- A walk over the parts of a shape, up to its first pointer. -/
inductive Scan where
  | walking (buffer : Bool)
  | stopped (afterBuffer : Bool)
  deriving DecidableEq

mutual

def scan : Scan → Shape → Scan
  | .stopped r, _ => .stopped r
  | .walking buffer, .pointer _ => .stopped buffer
  | .walking _, .array element _ | .walking _, .vector element _ => scan (.walking true) element
  | .walking buffer, .struct fields => scanFields (.walking buffer) fields
  | .walking buffer, _ => .walking buffer

def scanFields : Scan → List Shape → Scan
  | s, [] => s
  | s, f :: fs => scanFields (scan s f) fs

end

/-- The first pointer, depth first, lies behind an array or vector: an overflow of that buffer
reaches the pointer. Pointees are not entered. -/
def pointerAfterBuffer (s : Shape) : Bool :=
  scan (.walking false) s = .stopped true

mutual

def text : Shape → String
  | .void => "void"
  | .int bits => s!"i{bits}"
  | .float bits => s!"f{bits}"
  | .pointer none => "ptr"
  | .pointer (some p) => text p ++ "*"
  | .array element len => s!"[{len} x " ++ text element ++ "]"
  | .vector element len => s!"<{len} x " ++ text element ++ ">"
  | .struct fields => "\x7b " ++ fieldsText fields ++ " \x7d"
  | .function => "fn"
  | .other => "?"

def fieldsText : List Shape → String
  | [] => ""
  | [f] => text f
  | f :: fs => text f ++ ", " ++ fieldsText fs

end

end Shape

end PointerTriage
