import Mathlib
import PointerTriage.Shape.Basic

namespace PointerTriage.Shape

/-- What a shape is put together from. The pointee of a pointer is stored elsewhere. -/
def parts : Shape → List Shape
  | .array element _ | .vector element _ => [element]
  | .struct fields => fields
  | .void | .int _ | .float _ | .pointer _ | .function | .other => []

/-- A shape stores itself and, at any depth, its parts. The element of an array or vector counts, also if
there are none of it. -/
def Stores : Shape → Shape → Prop := Relation.ReflTransGen fun s p => p ∈ s.parts

theorem stores_iff {s p : Shape} : s.Stores p ↔ s = p ∨ ∃ q ∈ s.parts, q.Stores p :=
  Relation.ReflTransGen.cases_head_iff

theorem forall_stores_iff {P : Shape → Prop} {s : Shape} :
    (∀ p, s.Stores p → P p) ↔ P s ∧ ∀ q ∈ s.parts, ∀ p, q.Stores p → P p := by
  constructor
  · intro h
    exact ⟨h s .refl, fun q hq p hp => h p (.head hq hp)⟩
  · rintro ⟨hs, hparts⟩ p hp
    obtain rfl | ⟨q, hq, hp⟩ := stores_iff.mp hp
    · exact hs
    · exact hparts q hq p hp

/-- The kinds that have no size of their own. -/
def isUnsized : Shape → Bool
  | .void | .function | .other => true
  | .int _ | .float _ | .pointer _ | .array .. | .vector .. | .struct _ => false

def Sized (s : Shape) : Prop := ∀ p, s.Stores p → p.isUnsized = false

theorem sized_iff {s : Shape} : s.Sized ↔ s.isUnsized = false ∧ ∀ q ∈ s.parts, q.Sized :=
  forall_stores_iff

/-- The bits of a number. -/
def width : Shape → Nat
  | .int bits | .float bits => bits
  | .void | .pointer _ | .array .. | .vector .. | .struct _ | .function | .other => 0

/-- The bits of each number are counted in 32 bits. Lengths are not bounded. -/
def Narrow (s : Shape) : Prop := ∀ p, s.Stores p → p.width < 2 ^ 32

theorem narrow_iff {s : Shape} : s.Narrow ↔ s.width < 2 ^ 32 ∧ ∀ q ∈ s.parts, q.Narrow :=
  forall_stores_iff

mutual

/-- The exact number of bytes, fields packed and without a limit. -/
def bytes : Shape → Nat
  | .int bits | .float bits => bits ⌈/⌉ 8
  | .pointer _ => 8
  | .array element len | .vector element len => bytes element * len
  | .struct fields => fieldsBytes fields
  | .void | .function | .other => 0

def fieldsBytes : List Shape → Nat
  | [] => 0
  | f :: fs => bytes f + fieldsBytes fs

end

/-- A product cut off before and after is the exact product cut off, also if there are no elements. -/
theorem min_mul_cut (a len : Nat) : min (min a maxSize * len) maxSize = min (a * len) maxSize := by
  cases len with
  | zero => rfl
  | succ len =>
    have hgrows : maxSize ≤ maxSize * (len + 1) := Nat.le_mul_of_pos_right _ (Nat.succ_pos len)
    rw [← Nat.mul_min_mul_right, min_assoc, min_eq_right hgrows]

theorem min_add_cut (a b : Nat) :
    min (min a maxSize + min b maxSize) maxSize = min (a + b) maxSize := by
  omega

/-- A number is far below the limit. -/
theorem number_below {bits : Nat} (h : bits < 2 ^ 32) :
    (bits + 7) / 8 = min (bits ⌈/⌉ 8) maxSize := by
  rw [Nat.ceilDiv_eq_add_pred_div, maxSize]
  omega

mutual

theorem size?_eq_none_iff (s : Shape) : s.size? = none ↔ ¬s.Sized := by
  rw [sized_iff]
  cases s with
  | array element len | vector element len =>
    simp [size?, isUnsized, parts, size?_eq_none_iff element]
  | struct fields => simp [size?, isUnsized, parts, fieldsSize?_eq_none_iff 0 fields]
  | _ => simp [size?, isUnsized, parts]

theorem fieldsSize?_eq_none_iff (before : Nat) (fields : List Shape) :
    fieldsSize? before fields = none ↔ ∃ f ∈ fields, ¬f.Sized := by
  cases fields with
  | nil => simp [fieldsSize?]
  | cons f fs =>
    rw [fieldsSize?, List.exists_mem_cons_iff, ← size?_eq_none_iff f]
    cases size? f with
    | none => simp
    | some n => simp [fieldsSize?_eq_none_iff (min (before + n) maxSize) fs]

end

/-- An element without a size counts, also if there are none of it. A pointee does not. -/
example : (array void 0).size? = none ∧ (array (pointerTo void) 0).size? = some 0 := by decide

mutual

theorem size?_of_sized (s : Shape) (hnarrow : s.Narrow) (hsized : s.Sized) :
    s.size? = some (min s.bytes maxSize) := by
  obtain ⟨hwidth, hnarrow⟩ := narrow_iff.mp hnarrow
  obtain ⟨hkind, hsized⟩ := sized_iff.mp hsized
  cases s with
  | int bits | float bits => exact congrArg some (number_below hwidth)
  | pointer pointee => rfl
  | array element len | vector element len =>
    have helement := size?_of_sized element (hnarrow _ List.mem_cons_self) (hsized _ List.mem_cons_self)
    rw [size?, bytes, helement, Option.map_some, min_mul_cut]
  | struct fields =>
    have hfields := fieldsSize?_of_sized 0 fields hnarrow hsized
    rwa [Nat.zero_min, Nat.zero_add] at hfields
  | void | function | other => cases hkind

/-- What stands before the fields has been cut off already. -/
theorem fieldsSize?_of_sized (before : Nat) (fields : List Shape) (hnarrow : ∀ f ∈ fields, f.Narrow)
    (hsized : ∀ f ∈ fields, f.Sized) : fieldsSize? (min before maxSize) fields =
      some (min (before + fieldsBytes fields) maxSize) := by
  cases fields with
  | nil => rfl
  | cons f fs =>
    obtain ⟨hf, hfs⟩ := List.forall_mem_cons.mp hnarrow
    obtain ⟨hf', hfs'⟩ := List.forall_mem_cons.mp hsized
    rw [fieldsSize?, size?_of_sized f hf hf', Option.bind_some, min_add_cut,
      fieldsSize?_of_sized (before + bytes f) fs hfs hfs', fieldsBytes, Nat.add_assoc]

end

/-- A shape has no size exactly if void, a function or an unknown type is stored in it. All other shapes
have the exact number of bytes, cut off once. -/
theorem size_cut_once (s : Shape) (hnarrow : s.Narrow) :
    (s.size? = none ↔ ∃ p, s.Stores p ∧ p.isUnsized = true) ∧
      ((∀ p, s.Stores p → p.isUnsized = false) → s.size? = some (min s.bytes (2 ^ 64 - 1))) := by
  refine ⟨?_, size?_of_sized s hnarrow⟩
  rw [size?_eq_none_iff]
  simp [Sized]

/-- No elements of a shape that is larger than the limit, then twice what just fits, then a pointer. -/
def overfull : Shape :=
  .struct [.array (.array (.int 64) maxSize) 0, .vector (.array (.int 8) maxSize) 2, .pointerTo .void]

theorem size_overfull : overfull.Narrow ∧ overfull.Sized ∧ overfull.bytes = 2 * maxSize + 8 ∧
    overfull.size? = some (2 ^ 64 - 1) := by
  have hstores : ∀ p, overfull.Stores p → p.width < 2 ^ 32 ∧ p.isUnsized = false := by
    simp [overfull, pointerTo, forall_stores_iff (s := .struct _), forall_stores_iff (s := .array _ _),
      forall_stores_iff (s := .vector _ _), forall_stores_iff (s := .int _),
      forall_stores_iff (s := .pointer _), parts, width, isUnsized]
  have hnarrow : overfull.Narrow := fun p hp => (hstores p hp).1
  have hsized : overfull.Sized := fun p hp => (hstores p hp).2
  have hbytes : overfull.bytes = 2 * maxSize + 8 := by decide +kernel
  have hsize := (size_cut_once overfull hnarrow).2 hsized
  rw [hbytes] at hsize
  exact ⟨hnarrow, hsized, hbytes, hsize⟩

end PointerTriage.Shape
