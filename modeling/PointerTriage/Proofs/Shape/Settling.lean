import PointerTriage.Proofs.Json.Settling
import PointerTriage.Shape.Json

namespace PointerTriage.Shape
open Json

/-- The number of bits in what an integer or a float carries. -/
def bitsIn? (content : Json) : Option Nat := do
  let es ← fields? false ["bits"] content
  required es "bits" (natBelow? 4294967296)

/-- The pointee, the fields and the elements in what a pointer, a struct and a sequence carry. -/
def pointeeIn? (content : Json) : Option (Option Shape) := do
  let es ← fields? false ["pointee"] content
  withDefault es "pointee" (option? (ofJson? true)) none

def fieldsIn? (content : Json) : Option (List Shape) := do
  let es ← fields? false ["fields"] content
  required es "fields" (listOf? (ofJson? true))

def elementsIn? (content : Json) : Option (Shape × Nat) := do
  let es ← fields? false ["element", "len"] content
  return (← required es "element" (ofJson? true),
    ← required es "len" (natBelow? 18446744073709551616))

/-- The shape of a kind that carries this. -/
def ofContent? (content : Json) : String → Option Shape
  | "void" => (bare? content).map fun _ => .void
  | "function" => (bare? content).map fun _ => .function
  | "other" => (bare? content).map fun _ => .other
  | "int" => (bitsIn? content).map .int
  | "float" => (bitsIn? content).map .float
  | "pointer" => (pointeeIn? content).map .pointer
  | "struct" => (fieldsIn? content).map .struct
  | "array" => (elementsIn? content).map fun (s, len) => .array s len
  | "vector" => (elementsIn? content).map fun (s, len) => .vector s len
  | _ => none

theorem mapM_attach (items : List Json) (f : Json → Option Shape) :
    items.attach.mapM (fun p => f p.val) = items.mapM f := by
  change items.attach.mapM (f ∘ Subtype.val) = _
  rw [← List.mapM_map, List.attach_map_subtype_val]

section

variable {content : Json} {es : List (String × Json)}

theorem pointeeIn?_of_get? (hes : fields? false ["pointee"] content = some es) {p : Json}
    (hp : get? es "pointee" = some p) (hnull : p ≠ .null) :
    pointeeIn? content = (ofJson? true p).map some := by
  simp only [pointeeIn?, hes, withDefault, Option.bind_eq_bind, Option.bind_some, hp]
  exact option?_of_ne_null hnull

theorem fieldsIn?_of_get? (hes : fields? false ["fields"] content = some es) {items : List Json}
    (hitems : get? es "fields" = some (.list items)) :
    fieldsIn? content = items.mapM (ofJson? true) := by
  simp only [fieldsIn?, hes, required, Option.bind_eq_bind, Option.bind_some, hitems]
  rfl

theorem fieldsIn?_eq_none (hes : fields? false ["fields"] content = some es)
    (hlist : ∀ items, get? es "fields" ≠ some (.list items)) : fieldsIn? content = none := by
  simp only [fieldsIn?, hes, required, Option.bind_eq_bind, Option.bind_some]
  cases hg : get? es "fields" with
  | none => rfl
  | some p =>
    cases p with
    | list items => exact absurd hg (hlist items)
    | _ => rfl

variable (hes : fields? false ["element", "len"] content = some es)
include hes

theorem elementsIn?_of_get? {p : Json} (hp : get? es "element" = some p) {len : Nat}
    (hlen : required es "len" (natBelow? 18446744073709551616) = some len) :
    elementsIn? content = (ofJson? true p).map (·, len) := by
  simp only [elementsIn?, hes, Option.bind_eq_bind, Option.bind_some, hlen]
  rw [required, hp, Option.bind_some, Option.map_eq_bind]
  rfl

theorem elementsIn?_eq_none (hnone : ∀ p len, get? es "element" = some p →
      required es "len" (natBelow? 18446744073709551616) ≠ some len) : elementsIn? content = none := by
  simp only [elementsIn?, hes, Option.bind_eq_bind, Option.bind_some]
  cases hlen : required es "len" (natBelow? 18446744073709551616) with
  | none => cases required es "element" (ofJson? true) <;> rfl
  | some len =>
    cases hp : get? es "element" with
    | none => rw [required, hp, Option.bind_none, Option.bind_none]
    | some p => exact absurd hlen (hnone p len hp)

end

theorem ofContent?_sequence (content : Json) {kind : String}
    (hkind : kind = "array" ∨ kind = "vector") : ofContent? content kind =
      (elementsIn? content).map fun (s, len) =>
        if kind = "array" then .array s len else .vector s len := by
  rcases hkind with rfl | rfl <;> rfl

/-- Reading a shape is reading its kind and then what that carries. -/
theorem ofJson?_eq (inner : Bool) (j : Json) : ofJson? inner j =
    (tagged? inner "kind" kinds j).bind fun (kind, content) => ofContent? content kind := by
  rw [ofJson?]
  split
  · rename_i ht
    rw [ht]
    rfl
  · rename_i tag ht
    obtain ⟨kind, content⟩ := tag
    dsimp only
    have hcontent : ((tagged? inner "kind" kinds j).bind fun (kind, content) =>
        ofContent? content kind) = ofContent? content kind := by
      rw [ht]
      rfl
    rw [hcontent]
    split
    case h_1 => rfl
    case h_2 => rfl
    case h_3 => rfl
    case h_4 =>
      simp only [ofContent?, bitsIn?, Option.bind_eq_bind, Option.map_eq_bind, Option.bind_assoc]
      rfl
    case h_5 =>
      simp only [ofContent?, bitsIn?, Option.bind_eq_bind, Option.map_eq_bind, Option.bind_assoc]
      rfl
    case h_6 =>
      rw [ofContent?]
      split
      · rename_i hf
        rw [pointeeIn?, hf]
        rfl
      · rename_i es hf
        split
        · rename_i hg
          simp [pointeeIn?, hf, withDefault, hg]
        · rename_i hg
          simp [pointeeIn?, hf, withDefault, hg, option?]
        · rename_i p hnull hg
          rw [pointeeIn?_of_get? hf hg hnull, Option.map_map]
          rfl
    case h_7 =>
      rw [ofContent?]
      split
      · rename_i hf
        rw [fieldsIn?, hf]
        rfl
      · rename_i es hf
        split
        · rename_i items hg
          rw [fieldsIn?_of_get? hf hg, mapM_attach]
        · rename_i hlist
          rw [fieldsIn?_eq_none hf hlist]
          rfl
    case h_8 hvoid hfunction hother hint hfloat hpointer hstruct =>
      have hkind : kind = "array" ∨ kind = "vector" := by
        have hmem := mem_of_tagged? ht
        simp only [kinds, List.mem_cons, List.not_mem_nil, or_false] at hmem
        rcases hmem with rfl | rfl | rfl | rfl | rfl | rfl | rfl | rfl | rfl
        · exact (hvoid rfl).elim
        · exact (hint rfl).elim
        · exact (hfloat rfl).elim
        · exact (hpointer rfl).elim
        · exact .inl rfl
        · exact .inr rfl
        · exact (hstruct rfl).elim
        · exact (hfunction rfl).elim
        · exact (hother rfl).elim
      rw [ofContent?_sequence content hkind]
      split
      · rename_i hf
        rw [elementsIn?, hf]
        rfl
      · rename_i es hf
        split
        · rename_i p len hg hlen
          rw [elementsIn?_of_get? hf hg hlen, Option.map_map]
          rfl
        · rename_i hnone
          rw [elementsIn?_eq_none hf hnone]
          rfl

/-- A shape is settled if it is read from what its kind carries. -/
theorem settled_of_content {n : Nat} {s : Shape} {kind : String} {entries : List (String × Json)}
    (hs : toJson s = .record (("kind", .text kind) :: entries)) (hkind : kind ∈ kinds)
    (hkeys : ∀ e ∈ entries, e.1 ≠ "kind") (hread : ofContent? (.record entries) kind = some s)
    (hnested : ∀ e ∈ entries, Nested IsPlain n e.2) (inner : Bool) :
    Settled (n + 1) toJson (ofJson? inner) s := by
  constructor
  · rw [hs, ofJson?_eq, tagged?_record hkind hkeys]
    exact hread
  · rw [hs]
    exact .record (List.forall_mem_cons.mpr ⟨.atom trivial, hnested⟩)

theorem settled_bare {n : Nat} {s : Shape} {kind : String}
    (hs : toJson s = .record [("kind", .text kind)]) (hkind : kind ∈ kinds)
    (hread : ofContent? (.record []) kind = some s) (inner : Bool) :
    Settled (n + 1) toJson (ofJson? inner) s :=
  settled_of_content hs hkind (List.forall_mem_nil _) hread (List.forall_mem_nil _) inner

theorem toJson_ne_null (s : Shape) : toJson s ≠ .null := by
  cases s with
  | pointer p => cases p <;> nofun
  | _ => nofun

theorem listJson_eq (ss : List Shape) : listJson ss = ss.map toJson := by
  induction ss with
  | nil => rfl
  | cons s ss ih => rw [listJson, ih, List.map_cons]

section

variable {n : Nat} {content : Json} (hcontent : Nested IsAtom (n + 1) content)
include hcontent

theorem settled_of_bitsIn? {bits : Nat} (h : bitsIn? content = some bits) :
    Settled n .nat (natBelow? 4294967296) bits := by
  obtain ⟨es, hes, hbits⟩ := Option.bind_eq_some_iff.mp h
  have hes := nested_of_fields? hes hcontent
  exact (settles_nat (by decide) n).required hes hbits

variable (ih : ∀ m < n + 1, Settles m toJson (ofJson? true))
include ih

theorem settled_of_pointeeIn? {p : Option Shape} (h : pointeeIn? content = some p) :
    Settled n (.option toJson) (option? (ofJson? true)) p := by
  obtain ⟨es, hes, hp⟩ := Option.bind_eq_some_iff.mp h
  have hes := nested_of_fields? hes hcontent
  exact ((ih n (Nat.lt_succ_self n)).option toJson_ne_null).withDefault hes settled_none hp

theorem settled_of_fieldsIn? {ss : List Shape} (h : fieldsIn? content = some ss) :
    Settled n (fun ss => .list (listJson ss)) (listOf? (ofJson? true)) ss := by
  simp only [listJson_eq]
  obtain ⟨es, hes, hss⟩ := Option.bind_eq_some_iff.mp h
  have hes := nested_of_fields? hes hcontent
  obtain ⟨j, hj, hss⟩ := Option.bind_eq_some_iff.mp hss
  obtain ⟨e, he, rfl⟩ := mem_of_get? hj
  have hlist := hes e he
  cases hitems : e.2 with
  | list items =>
    rw [hitems] at hlist hss
    obtain ⟨m, rfl, hitems⟩ := (nested_list_iff id).mp hlist
    exact .list ((ih m (by omega)).mapM hitems hss)
  | _ =>
    rw [hitems] at hss
    cases hss

theorem settled_of_elementsIn? {s : Shape} {len : Nat} (h : elementsIn? content = some (s, len)) :
    elementsIn? (.record [("element", toJson s), ("len", .nat len)]) = some (s, len) ∧
      ∀ e ∈ [("element", toJson s), ("len", .nat len)], Nested IsPlain n e.2 := by
  obtain ⟨es, hes, h⟩ := Option.bind_eq_some_iff.mp h
  obtain ⟨_, hs, h⟩ := Option.bind_eq_some_iff.mp h
  obtain ⟨_, hlen, he⟩ := Option.bind_eq_some_iff.mp h
  cases he
  have hes := nested_of_fields? hes hcontent
  have hs := (ih n (Nat.lt_succ_self n)).required hes hs
  have hlen := (settles_nat (by decide) n).required hes hlen
  constructor
  · change ((ofJson? true (toJson s)).bind fun s =>
      (natBelow? 18446744073709551616 (.nat len)).bind fun len => some (s, len)) = _
    rw [hs.read_write, hlen.read_write]
    rfl
  · exact List.forall_mem_cons.mpr ⟨hs.nested, List.forall_mem_singleton.mpr hlen.nested⟩

end

theorem settles (n : Nat) (inner : Bool) : Settles n toJson (ofJson? inner) := by
  induction n using Nat.strongRecOn generalizing inner with
  | ind n ih =>
    intro j hj s h
    rw [ofJson?_eq] at h
    obtain ⟨⟨kind, content⟩, ht, hs⟩ := Option.bind_eq_some_iff.mp h
    obtain ⟨m, rfl, hcontent⟩ := nested_of_tagged? ht hj
    have ih : ∀ k < m + 1, Settles k toJson (ofJson? true) := fun k hk => ih k hk true
    simp only [ofContent?] at hs
    split at hs
    · obtain ⟨_, _, rfl⟩ := Option.map_eq_some_iff.mp hs
      exact settled_bare rfl (by decide) rfl inner
    · obtain ⟨_, _, rfl⟩ := Option.map_eq_some_iff.mp hs
      exact settled_bare rfl (by decide) rfl inner
    · obtain ⟨_, _, rfl⟩ := Option.map_eq_some_iff.mp hs
      exact settled_bare rfl (by decide) rfl inner
    · obtain ⟨bits, hbits, rfl⟩ := Option.map_eq_some_iff.mp hs
      have hbits := settled_of_bitsIn? hcontent hbits
      refine settled_of_content rfl (by decide) (by simp) ?_ ?_ inner
      · exact congrArg (Option.map Shape.int) hbits.read_write
      · exact List.forall_mem_singleton.mpr hbits.nested
    · obtain ⟨bits, hbits, rfl⟩ := Option.map_eq_some_iff.mp hs
      have hbits := settled_of_bitsIn? hcontent hbits
      refine settled_of_content rfl (by decide) (by simp) ?_ ?_ inner
      · exact congrArg (Option.map Shape.float) hbits.read_write
      · exact List.forall_mem_singleton.mpr hbits.nested
    · obtain ⟨p, hp, rfl⟩ := Option.map_eq_some_iff.mp hs
      have hp := settled_of_pointeeIn? hcontent ih hp
      cases p with
      | none => exact settled_bare rfl (by decide) rfl inner
      | some p =>
        refine settled_of_content rfl (by decide) (by simp) ?_ ?_ inner
        · exact congrArg (Option.map Shape.pointer) hp.read_write
        · exact List.forall_mem_singleton.mpr hp.nested
    · obtain ⟨ss, hss, rfl⟩ := Option.map_eq_some_iff.mp hs
      have hss := settled_of_fieldsIn? hcontent ih hss
      refine settled_of_content rfl (by decide) (by simp) ?_ ?_ inner
      · exact congrArg (Option.map Shape.struct) hss.read_write
      · exact List.forall_mem_singleton.mpr hss.nested
    · obtain ⟨⟨element, len⟩, helements, rfl⟩ := Option.map_eq_some_iff.mp hs
      obtain ⟨hread, hnested⟩ := settled_of_elementsIn? hcontent ih helements
      refine settled_of_content rfl (by decide) (by simp) ?_ hnested inner
      exact congrArg (Option.map fun (s, len) => Shape.array s len) hread
    · obtain ⟨⟨element, len⟩, helements, rfl⟩ := Option.map_eq_some_iff.mp hs
      obtain ⟨hread, hnested⟩ := settled_of_elementsIn? hcontent ih helements
      refine settled_of_content rfl (by decide) (by simp) ?_ hnested inner
      exact congrArg (Option.map fun (s, len) => Shape.vector s len) hread
    · cases hs

end PointerTriage.Shape
