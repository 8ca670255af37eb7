import PointerTriage.IdSet

namespace PointerTriage

/-- Rows are ascending and none of them is empty, so that equal relations are equal values. -/
structure Relation where
  rows : List (Nat × IdSet)
  ascending : rows.Pairwise (·.1 < ·.1)
  inhabited : ∀ row ∈ rows, row.2 ≠ ∅

namespace Relation

theorem insert_ne_empty (b : Nat) (s : IdSet) : s.insert b ≠ ∅ := by
  intro h
  have : b ∈ s.insert b := IdSet.mem_insert.2 (.inl rfl)
  rw [h] at this
  exact IdSet.not_mem_empty b this

def insertInto (a b : Nat) : List (Nat × IdSet) → List (Nat × IdSet)
  | [] => [(a, IdSet.empty.insert b)]
  | (k, s) :: rows =>
    if a < k then (a, IdSet.empty.insert b) :: (k, s) :: rows
    else if a = k then (k, s.insert b) :: rows
    else (k, s) :: insertInto a b rows

theorem key_of_mem_insertInto {a b : Nat} {rows : List (Nat × IdSet)} {row : Nat × IdSet}
    (h : row ∈ insertInto a b rows) : row.1 = a ∨ ∃ r ∈ rows, r.1 = row.1 := by
  induction rows with
  | nil => simp_all [insertInto]
  | cons r rows ih =>
    obtain ⟨k, s⟩ := r
    simp only [insertInto] at h
    split at h
    · rcases List.mem_cons.1 h with rfl | h
      · exact .inl rfl
      · exact .inr ⟨row, h, rfl⟩
    · split at h
      · rcases List.mem_cons.1 h with rfl | h
        · exact .inr ⟨(k, s), by simp, rfl⟩
        · exact .inr ⟨row, by simp [h], rfl⟩
      · rcases List.mem_cons.1 h with rfl | h
        · exact .inr ⟨(k, s), by simp, rfl⟩
        · rcases ih h with h | ⟨r, hr, e⟩
          · exact .inl h
          · exact .inr ⟨r, by simp [hr], e⟩

theorem ascending_insertInto {a b : Nat} {rows : List (Nat × IdSet)}
    (h : rows.Pairwise (·.1 < ·.1)) : (insertInto a b rows).Pairwise (·.1 < ·.1) := by
  induction rows with
  | nil => simp [insertInto]
  | cons r rows ih =>
    obtain ⟨k, s⟩ := r
    obtain ⟨hk, ht⟩ := List.pairwise_cons.1 h
    simp only [insertInto]
    split
    · refine List.pairwise_cons.2 ⟨?_, h⟩
      intro row hrow
      rcases List.mem_cons.1 hrow with rfl | hrow
      · assumption
      · exact Nat.lt_trans ‹a < k› (hk row hrow)
    · split
      · exact List.pairwise_cons.2 ⟨hk, ht⟩
      · refine List.pairwise_cons.2 ⟨?_, ih ht⟩
        intro row hrow
        rcases key_of_mem_insertInto hrow with e | ⟨r, hr, e⟩
        · simp only [e]; omega
        · rw [← e]; exact hk r hr

theorem inhabited_insertInto {a b : Nat} {rows : List (Nat × IdSet)}
    (h : ∀ row ∈ rows, row.2 ≠ ∅) : ∀ row ∈ insertInto a b rows, row.2 ≠ ∅ := by
  induction rows with
  | nil => simp [insertInto, insert_ne_empty]
  | cons r rows ih =>
    obtain ⟨k, s⟩ := r
    have ht : ∀ row ∈ rows, row.2 ≠ ∅ := fun row hr => h row (by simp [hr])
    simp only [insertInto]
    split
    · intro row hrow
      rcases List.mem_cons.1 hrow with rfl | hrow
      · exact insert_ne_empty b _
      · exact h row hrow
    · split
      · intro row hrow
        rcases List.mem_cons.1 hrow with rfl | hrow
        · exact insert_ne_empty b _
        · exact ht row hrow
      · intro row hrow
        rcases List.mem_cons.1 hrow with rfl | hrow
        · exact h _ (by simp)
        · exact ih ht row hrow

def empty : Relation := ⟨[], .nil, by simp⟩

def insert (r : Relation) (a b : Nat) : Relation :=
  ⟨insertInto a b r.rows, ascending_insertInto r.ascending, inhabited_insertInto r.inhabited⟩

/-- Relates `a` to every element of a set. -/
def insertAll (r : Relation) (a : Nat) (s : IdSet) : Relation :=
  s.toList.foldl (fun r b => r.insert a b) r

def row? (r : Relation) (a : Nat) : Option IdSet := (r.rows.find? (·.1 == a)).map (·.2)

/-- What `a` is related to. -/
def image (r : Relation) (a : Nat) : IdSet := (r.row? a).getD ∅

/-- The related pairs, in order. -/
def pairs (r : Relation) : List (Nat × Nat) := r.rows.flatMap fun row => row.2.toList.map (row.1, ·)

/-- The number of related pairs. -/
def size (r : Relation) : Nat := (r.rows.map (·.2.size)).foldr (· + ·) 0

end Relation

end PointerTriage
