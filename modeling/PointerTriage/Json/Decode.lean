import PointerTriage.Json.Basic

namespace PointerTriage.Json

def get? (entries : List (String × Json)) (key : String) : Option Json :=
  (entries.find? (·.1 == key)).map (·.2)

/-- The entries of a record with the fields `names`. A field occurs once; other keys are refused when
the record is `closed` and dropped otherwise. A list gives the first fields in order. -/
def fields? (closed : Bool) (names : List String) : Json → Option (List (String × Json))
  | .record entries =>
    let known := entries.filter (names.contains ·.1)
    if (known.map (·.1)).Nodup ∧ (closed → known.length = entries.length) then some known else none
  | .list items => if items.length ≤ names.length then some (names.zip items) else none
  | _ => none

def required (entries : List (String × Json)) (key : String) (f : Json → Option α) : Option α :=
  (get? entries key).bind f

def withDefault (entries : List (String × Json)) (key : String) (f : Json → Option α)
    (default : α) : Option α :=
  match get? entries key with
  | none => some default
  | some j => f j

def text? : Json → Option String
  | .text s => some s
  | _ => none

def bool? : Json → Option Bool
  | .bool b => some b
  | _ => none

/-- A natural number below `bound`. -/
def natBelow? (bound : Nat) : Json → Option Nat
  | .integer (.ofNat n) => if n < bound then some n else none
  | _ => none

def intBetween? (lo hi : Int) : Json → Option Int
  | .integer i => if lo ≤ i ∧ i ≤ hi then some i else none
  | _ => none

def listOf? (f : Json → Option α) : Json → Option (List α)
  | .list items => items.mapM f
  | _ => none

/-- `null` stands for no value. -/
def option? (f : Json → Option α) : Json → Option (Option α)
  | .null => some none
  | j => (f j).map some

/-- The variant that a tag names; inside another variant its position will do too. -/
def variant? (inner : Bool) (variants : List String) : Json → Option String
  | .text s => if s ∈ variants then some s else none
  | .integer (.ofNat n) => if inner then variants[n]? else none
  | _ => none

/-- A variant and what it carries: an object with the tag among its keys, or a list that starts with
the tag. -/
def tagged? (inner : Bool) (tag : String) (variants : List String) : Json → Option (String × Json)
  | .record entries =>
    match entries.filter (·.1 == tag) with
    | [(_, j)] => (variant? inner variants j).map (·, .record (entries.filter (·.1 != tag)))
    | _ => none
  | .list (j :: items) => (variant? inner variants j).map (·, .list items)
  | _ => none

/-- The value of a name that carries none: `null` or an empty object. -/
def nothing? : Json → Option Unit
  | .null => some ()
  | .record [] => some ()
  | _ => none

/-- A variant that carries nothing: other keys of an object do not count. -/
def bare? : Json → Option Unit
  | .record _ => some ()
  | .list [] => some ()
  | _ => none

theorem sizeOf_of_mem {entries : List (String × Json)} {e : String × Json} (h : e ∈ entries) :
    sizeOf e.2 < sizeOf entries := by
  have := List.sizeOf_lt_of_mem h
  cases e
  simp at this ⊢
  omega

theorem sizeOf_filter (p : String × Json → Bool) (entries : List (String × Json)) :
    sizeOf (entries.filter p) ≤ sizeOf entries := by
  induction entries with
  | nil => simp
  | cons e es ih => simp only [List.filter_cons]; split <;> simp <;> omega

theorem sizeOf_of_mem_zip {names : List String} {items : List Json} {e : String × Json}
    (h : e ∈ names.zip items) : sizeOf e.2 < sizeOf items :=
  List.sizeOf_lt_of_mem (List.of_mem_zip h).2

theorem sizeOf_of_fields? {closed : Bool} {names : List String} {j : Json}
    {entries : List (String × Json)} {e : String × Json}
    (h : fields? closed names j = some entries) (he : e ∈ entries) : sizeOf e.2 < sizeOf j := by
  unfold fields? at h
  split at h
  · rename_i es
    simp only [Option.ite_none_right_eq_some] at h
    obtain ⟨_, h⟩ := h
    cases h
    have := sizeOf_of_mem ((List.mem_filter.1 he).1)
    simp only [Json.record.sizeOf_spec]
    omega
  · simp only [Option.ite_none_right_eq_some] at h
    obtain ⟨_, h⟩ := h
    cases h
    have := sizeOf_of_mem_zip he
    simp only [Json.list.sizeOf_spec]
    omega
  · simp at h

theorem sizeOf_tagged? {inner : Bool} {tag : String} {variants : List String} {j content : Json}
    {name : String} (h : tagged? inner tag variants j = some (name, content)) :
    sizeOf content ≤ sizeOf j := by
  unfold tagged? at h
  split at h
  · rename_i entries
    split at h
    · obtain ⟨_, _, h⟩ := Option.map_eq_some_iff.1 h
      cases h
      have := sizeOf_filter (·.1 != tag) entries
      simp only [Json.record.sizeOf_spec]
      omega
    · simp at h
  · obtain ⟨_, _, h⟩ := Option.map_eq_some_iff.1 h
    cases h
    simp
  · simp at h

end PointerTriage.Json
