import PointerTriage.Decimal.Text

namespace PointerTriage
open Decimal (Binary64)

/-- A record keeps its entries in order, repeated keys included. -/
inductive Json where
  | null
  | bool (b : Bool)
  /-- Between `-2 ^ 63` and `2 ^ 64`, when it was read from a text. -/
  | integer (i : Int)
  | real (x : Binary64)
  | text (s : String)
  | list (items : List Json)
  | record (entries : List (String × Json))
  deriving Inhabited

namespace Json

def nat (n : Nat) : Json := .integer n

def nats (ns : List Nat) : Json := .list (ns.map nat)

def texts (ss : List String) : Json := .list (ss.map text)

/-- A missing value is `null`. -/
def option (f : α → Json) : Option α → Json
  | none => .null
  | some a => f a

end Json

end PointerTriage
