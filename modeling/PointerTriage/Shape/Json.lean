import PointerTriage.Json.Decode
import PointerTriage.Shape.Basic

namespace PointerTriage.Shape
open Json

def kinds : List String :=
  ["void", "int", "float", "pointer", "array", "vector", "struct", "function", "other"]

mutual

def toJson : Shape → Json
  | .void => .record [("kind", .text "void")]
  | .int bits => .record [("kind", .text "int"), ("bits", .nat bits)]
  | .float bits => .record [("kind", .text "float"), ("bits", .nat bits)]
  | .pointer none => .record [("kind", .text "pointer")]
  | .pointer (some p) => .record [("kind", .text "pointer"), ("pointee", toJson p)]
  | .array element len =>
    .record [("kind", .text "array"), ("element", toJson element), ("len", .nat len)]
  | .vector element len =>
    .record [("kind", .text "vector"), ("element", toJson element), ("len", .nat len)]
  | .struct fields => .record [("kind", .text "struct"), ("fields", .list (listJson fields))]
  | .function => .record [("kind", .text "function")]
  | .other => .record [("kind", .text "other")]

def listJson : List Shape → List Json
  | [] => []
  | f :: fs => toJson f :: listJson fs

end

/-- The parts of a shape are read like the shape itself, as `inner` values. -/
def ofJson? (inner : Bool) (j : Json) : Option Shape :=
  match _ht : tagged? inner "kind" kinds j with
  | none => none
  | some tag =>
    match tag.1 with
    | "void" => (bare? tag.2).map fun _ => .void
    | "function" => (bare? tag.2).map fun _ => .function
    | "other" => (bare? tag.2).map fun _ => .other
    | "int" => do
      let es ← fields? false ["bits"] tag.2
      return .int (← required es "bits" (natBelow? 4294967296))
    | "float" => do
      let es ← fields? false ["bits"] tag.2
      return .float (← required es "bits" (natBelow? 4294967296))
    | "pointer" =>
      match _hf : fields? false ["pointee"] tag.2 with
      | none => none
      | some es =>
        match _hg : get? es "pointee" with
        | none | some .null => some (.pointer none)
        | some p => (ofJson? true p).map fun s => .pointer (some s)
    | "struct" =>
      match _hf : fields? false ["fields"] tag.2 with
      | none => none
      | some es =>
        match _hg : get? es "fields" with
        | some (.list items) => (items.attach.mapM fun p => ofJson? true p.val).map Shape.struct
        | _ => none
    | kind =>
      match _hf : fields? false ["element", "len"] tag.2 with
      | none => none
      | some es =>
        match _hg : get? es "element", required es "len" (natBelow? 18446744073709551616) with
        | some p, some len =>
          (ofJson? true p).map fun s => if kind = "array" then .array s len else .vector s len
        | _, _ => none
termination_by sizeOf j
decreasing_by
  all_goals
    have h1 := sizeOf_tagged? _ht
    obtain ⟨e, he, h2⟩ := Option.map_eq_some_iff.1 _hg
    have h3 := sizeOf_of_fields? _hf (List.mem_of_find?_eq_some he)
    rw [h2] at h3
  · omega
  · have := List.sizeOf_lt_of_mem p.property
    simp only [Json.list.sizeOf_spec] at h3
    omega
  · omega

end PointerTriage.Shape
