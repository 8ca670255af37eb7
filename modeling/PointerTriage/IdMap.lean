namespace PointerTriage

/-- A finite map from ids, kept in ascending order of the ids. -/
structure IdMap (α : Type) where
  entries : List (Nat × α)
  ascending : entries.Pairwise (·.1 < ·.1)

namespace IdMap

variable {α : Type}

/-- Into its place; what an id has already and what it gets are made into one by `merge`. -/
def insertInto (merge : α → α → α) (k : Nat) (a : α) : List (Nat × α) → List (Nat × α)
  | [] => [(k, a)]
  | (l, b) :: es =>
    if k < l then (k, a) :: (l, b) :: es
    else if k = l then (l, merge b a) :: es
    else (l, b) :: insertInto merge k a es

theorem key_of_mem_insertInto {merge : α → α → α} {k : Nat} {a : α} {es : List (Nat × α)}
    {e : Nat × α} (h : e ∈ insertInto merge k a es) : e.1 = k ∨ ∃ f ∈ es, f.1 = e.1 := by
  induction es with
  | nil => simp_all [insertInto]
  | cons f es ih =>
    obtain ⟨l, b⟩ := f
    simp only [insertInto] at h
    split at h
    · rcases List.mem_cons.1 h with rfl | h
      · exact .inl rfl
      · exact .inr ⟨e, h, rfl⟩
    · split at h
      · rcases List.mem_cons.1 h with rfl | h
        · exact .inr ⟨(l, b), by simp, rfl⟩
        · exact .inr ⟨e, by simp [h], rfl⟩
      · rcases List.mem_cons.1 h with rfl | h
        · exact .inr ⟨(l, b), by simp, rfl⟩
        · rcases ih h with h | ⟨f, hf, e⟩
          · exact .inl h
          · exact .inr ⟨f, by simp [hf], e⟩

theorem ascending_insertInto {merge : α → α → α} {k : Nat} {a : α} {es : List (Nat × α)}
    (h : es.Pairwise (·.1 < ·.1)) : (insertInto merge k a es).Pairwise (·.1 < ·.1) := by
  induction es with
  | nil => simp [insertInto]
  | cons f es ih =>
    obtain ⟨l, b⟩ := f
    obtain ⟨hl, ht⟩ := List.pairwise_cons.1 h
    simp only [insertInto]
    split
    · refine List.pairwise_cons.2 ⟨?_, h⟩
      intro e he
      rcases List.mem_cons.1 he with rfl | he
      · assumption
      · exact Nat.lt_trans ‹k < l› (hl e he)
    · split
      · exact List.pairwise_cons.2 ⟨hl, ht⟩
      · refine List.pairwise_cons.2 ⟨?_, ih ht⟩
        intro e he
        rcases key_of_mem_insertInto he with h | ⟨f, hf, h⟩
        · simp only [h]; omega
        · rw [← h]; exact hl f hf

def empty : IdMap α := ⟨[], .nil⟩

/-- What the id has already stays. -/
def insert (m : IdMap α) (k : Nat) (a : α) : IdMap α :=
  ⟨insertInto (fun old _ => old) k a m.entries, ascending_insertInto m.ascending⟩

/-- What the id has already is replaced. -/
def set (m : IdMap α) (k : Nat) (a : α) : IdMap α :=
  ⟨insertInto (fun _ new => new) k a m.entries, ascending_insertInto m.ascending⟩

/-- Of several entries of an id the last stays. -/
def ofList (es : List (Nat × α)) : IdMap α := es.foldl (fun m (k, a) => m.set k a) empty

def get? (m : IdMap α) (k : Nat) : Option α := (m.entries.find? (·.1 == k)).map (·.2)

def contains (m : IdMap α) (k : Nat) : Bool := m.entries.any (·.1 == k)

def keys (m : IdMap α) : List Nat := m.entries.map (·.1)

def size (m : IdMap α) : Nat := m.entries.length

end IdMap

end PointerTriage
