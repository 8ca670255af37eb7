namespace PointerTriage

/-- Sets are strictly ascending lists, so that equal sets are equal values. -/
structure IdSet where
  toList : List Nat
  ascending : toList.Pairwise (· < ·)
  deriving DecidableEq, Repr

namespace IdSet

instance : Membership Nat IdSet := ⟨fun s x => x ∈ s.toList⟩

instance (x : Nat) (s : IdSet) : Decidable (x ∈ s) := inferInstanceAs (Decidable (x ∈ s.toList))

theorem mem_def {x : Nat} {s : IdSet} : x ∈ s ↔ x ∈ s.toList := Iff.rfl

/-- Into its place in an ascending list, unless it is there. -/
def insertInto (x : Nat) : List Nat → List Nat
  | [] => [x]
  | y :: ys => if x < y then x :: y :: ys else if x = y then y :: ys else y :: insertInto x ys

theorem mem_insertInto {x a : Nat} {ys : List Nat} : a ∈ insertInto x ys ↔ a = x ∨ a ∈ ys := by
  induction ys with
  | nil => simp [insertInto]
  | cons y ys ih =>
    simp only [insertInto]
    split
    · simp
    · split
      · simp_all
      · simp only [List.mem_cons, ih]
        grind

theorem ascending_insertInto {x : Nat} {ys : List Nat} (h : ys.Pairwise (· < ·)) :
    (insertInto x ys).Pairwise (· < ·) := by
  induction ys with
  | nil => simp [insertInto]
  | cons y ys ih =>
    obtain ⟨hy, ht⟩ := List.pairwise_cons.1 h
    simp only [insertInto]
    split
    · refine List.pairwise_cons.2 ⟨?_, h⟩
      intro a ha
      rcases List.mem_cons.1 ha with rfl | ha
      · assumption
      · exact Nat.lt_trans ‹x < y› (hy a ha)
    · split
      · exact h
      · refine List.pairwise_cons.2 ⟨?_, ih ht⟩
        intro a ha
        rcases mem_insertInto.1 ha with rfl | ha
        · omega
        · exact hy a ha

def empty : IdSet := ⟨[], .nil⟩

instance : EmptyCollection IdSet := ⟨empty⟩

instance : Inhabited IdSet := ⟨empty⟩

def insert (x : Nat) (s : IdSet) : IdSet := ⟨insertInto x s.toList, ascending_insertInto s.ascending⟩

def ofList (xs : List Nat) : IdSet := xs.foldr insert empty

def union (s t : IdSet) : IdSet := s.toList.foldr insert t

def filter (p : Nat → Bool) (s : IdSet) : IdSet := ⟨s.toList.filter p, s.ascending.filter p⟩

def size (s : IdSet) : Nat := s.toList.length

def isEmpty (s : IdSet) : Bool := s.toList.isEmpty

/-- Whether the sets share an element. -/
def meets (s t : IdSet) : Bool := s.toList.any t.toList.contains

@[simp] theorem not_mem_empty (x : Nat) : x ∉ (∅ : IdSet) := List.not_mem_nil

@[simp] theorem mem_insert {x a : Nat} {s : IdSet} : a ∈ s.insert x ↔ a = x ∨ a ∈ s := mem_insertInto

@[simp] theorem mem_ofList {a : Nat} {xs : List Nat} : a ∈ ofList xs ↔ a ∈ xs := by
  induction xs with
  | nil => exact iff_of_false List.not_mem_nil List.not_mem_nil
  | cons x xs ih => simp only [ofList, List.foldr_cons, mem_insert, List.mem_cons]; rw [← ih]; rfl

@[simp] theorem mem_union {a : Nat} {s t : IdSet} : a ∈ s.union t ↔ a ∈ s ∨ a ∈ t := by
  unfold union
  rw [mem_def (s := s)]
  induction s.toList with
  | nil => simp
  | cons x xs ih => simp only [List.foldr_cons, mem_insert, List.mem_cons, ih]; grind

@[simp] theorem mem_filter {a : Nat} {p : Nat → Bool} {s : IdSet} :
    a ∈ s.filter p ↔ a ∈ s ∧ p a = true := List.mem_filter

end IdSet

end PointerTriage
