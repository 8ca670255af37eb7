import Mathlib.Data.List.Induction
import Mathlib.Data.List.Nodup
import Mathlib.Data.List.Perm.Subperm
import PointerTriage.IdMap
import PointerTriage.Relation

namespace PointerTriage

theorem nodup_eraseDups {α : Type} [BEq α] [LawfulBEq α] (l : List α) : l.eraseDups.Nodup := by
  match l with
  | [] => simp
  | a :: l =>
    rw [List.eraseDups_cons, List.nodup_cons]
    refine ⟨by simp, nodup_eraseDups _⟩
termination_by l.length
decreasing_by simpa using Nat.lt_succ_of_le (List.length_filter_le _ l)

theorem eraseDups_concat {α : Type} [DecidableEq α] (l : List α) (a : α) :
    (l ++ [a]).eraseDups = if a ∈ l.eraseDups then l.eraseDups else l.eraseDups ++ [a] := by
  rw [List.eraseDups_append]
  by_cases ha : a ∈ l <;> simp [List.removeAll, List.eraseDups_cons, ha]

/-- In an ordered list what is not among the first comes after them. -/
theorem before_of_take {α : Type} {before : α → α → Prop} {l : List α} (hl : l.Pairwise before)
    {k : Nat} {a b : α} (ha : a ∈ l.take k) (hb : b ∈ l) (hout : b ∉ l.take k) : before a b := by
  rw [← List.take_append_drop k l] at hl hb
  obtain ⟨_, _, hacross⟩ := List.pairwise_append.mp hl
  exact hacross a ha b ((List.mem_append.mp hb).resolve_left hout)

namespace IdSet

theorem nodup (s : IdSet) : s.toList.Nodup := s.ascending.imp (fun h => Nat.ne_of_lt h)

theorem ext {s t : IdSet} (h : ∀ a, a ∈ s ↔ a ∈ t) : s = t := by
  have hp : s.toList.Perm t.toList :=
    (List.perm_ext_iff_of_nodup s.nodup t.nodup).mpr h
  have he : s.toList = t.toList :=
    hp.eq_of_pairwise (fun a b _ _ hab hba => absurd hab (Nat.lt_asymm hba)) s.ascending t.ascending
  cases s
  cases t
  simpa using he

theorem size_le {s t : IdSet} (h : ∀ a ∈ s, a ∈ t) : s.size ≤ t.size :=
  s.nodup.length_le_of_subset h

/-- A set that is included in another of the same size is that set. -/
theorem eq_of_subset {s t : IdSet} (h : ∀ a ∈ s, a ∈ t) (hs : t.size ≤ s.size) : s = t := by
  have hp := (List.subperm_of_subset s.nodup h).perm_of_length_le hs
  exact ext fun a => hp.mem_iff

theorem meets_iff {s t : IdSet} : s.meets t = true ↔ ∃ a, a ∈ s ∧ a ∈ t := by
  simp [meets, mem_def]

def unions (sets : List IdSet) : IdSet := sets.foldr union ∅

theorem mem_unions {a : Nat} {sets : List IdSet} : a ∈ unions sets ↔ ∃ s ∈ sets, a ∈ s := by
  induction sets with
  | nil => simp [unions]
  | cons s sets ih =>
    rw [List.exists_mem_cons_iff, ← ih]
    exact mem_union

end IdSet

namespace Relation

theorem length_pairs (r : Relation) : r.pairs.length = r.size := by
  simp [pairs, size, IdSet.size, List.length_flatMap, List.sum_eq_foldr]

theorem row_unique {rows : List (Nat × IdSet)} (h : rows.Pairwise (·.1 < ·.1))
    {k : Nat} {s t : IdSet} (hs : (k, s) ∈ rows) (ht : (k, t) ∈ rows) : s = t := by
  induction rows with
  | nil => simp at hs
  | cons row rows ih =>
    obtain ⟨hr, htail⟩ := List.pairwise_cons.mp h
    rcases List.mem_cons.mp hs with rfl | hs
    · rcases List.mem_cons.mp ht with he | ht
      · exact (Prod.mk.inj he).2.symm
      · exact absurd (hr _ ht) (Nat.lt_irrefl _)
    · rcases List.mem_cons.mp ht with he | ht
      · exact absurd (he ▸ hr _ hs) (Nat.lt_irrefl _)
      · exact ih htail hs ht

theorem mem_image {r : Relation} {a b : Nat} :
    b ∈ r.image a ↔ ∃ s, (a, s) ∈ r.rows ∧ b ∈ s := by
  unfold image row?
  cases hf : r.rows.find? (·.1 == a) with
  | none =>
    simp only [Option.map_none, Option.getD_none, IdSet.not_mem_empty, false_iff]
    intro hex
    obtain ⟨s, hs, _⟩ := hex
    simpa using List.find?_eq_none.mp hf _ hs
  | some row =>
    have ha : row.1 = a := by simpa using List.find?_some hf
    have hm : (a, row.2) ∈ r.rows := ha ▸ List.mem_of_find?_eq_some hf
    simp only [Option.map_some, Option.getD_some]
    constructor
    · intro hb
      exact ⟨row.2, hm, hb⟩
    · intro hex
      obtain ⟨s, hs, hb⟩ := hex
      rwa [row_unique r.ascending hm hs]

theorem mem_pairs {r : Relation} {a b : Nat} : (a, b) ∈ r.pairs ↔ b ∈ r.image a := by
  rw [mem_image]
  simp only [pairs, List.mem_flatMap, List.mem_map, Prod.mk.injEq]
  constructor
  · intro hex
    obtain ⟨⟨k, s⟩, hrow, b', hb, rfl, rfl⟩ := hex
    exact ⟨s, hrow, hb⟩
  · intro hex
    obtain ⟨s, hrow, hb⟩ := hex
    exact ⟨(a, s), hrow, b, hb, rfl, rfl⟩

theorem nodup_pairs (r : Relation) : r.pairs.Nodup := by
  refine List.nodup_flatMap.mpr ⟨?_, ?_⟩
  · intro row _
    exact row.2.nodup.map (fun x y h => (Prod.mk.inj h).2)
  · refine r.ascending.imp ?_
    intro x y hxy p hp hp'
    obtain ⟨_, _, rfl⟩ := List.mem_map.mp hp
    obtain ⟨_, _, he⟩ := List.mem_map.mp hp'
    have hk : y.1 = x.1 := (Prod.mk.inj he).1
    omega

theorem size_le {r s : Relation} (h : ∀ a, ∀ b ∈ r.image a, b ∈ s.image a) : r.size ≤ s.size := by
  rw [← length_pairs, ← length_pairs]
  apply r.nodup_pairs.length_le_of_subset
  rintro ⟨a, b⟩ hp
  exact mem_pairs.mpr (h a b (mem_pairs.mp hp))

/-- A relation that is included in another of the same size relates the same pairs. -/
theorem image_eq_of_subset {r s : Relation} (h : ∀ a, ∀ b ∈ r.image a, b ∈ s.image a)
    (hs : s.size ≤ r.size) (a : Nat) : r.image a = s.image a := by
  have hsub : r.pairs ⊆ s.pairs := by
    rintro ⟨a, b⟩ hp
    exact mem_pairs.mpr (h a b (mem_pairs.mp hp))
  have hp : r.pairs.Perm s.pairs := by
    apply (List.subperm_of_subset r.nodup_pairs hsub).perm_of_length_le
    rwa [length_pairs, length_pairs]
  apply IdSet.ext
  intro b
  rw [← mem_pairs, ← mem_pairs]
  exact hp.mem_iff

@[simp] theorem not_mem_image_empty (a b : Nat) : b ∉ empty.image a := by
  simp [mem_image, empty]

theorem mem_insertInto {a b k x : Nat} {rows : List (Nat × IdSet)} :
    (∃ s, (k, s) ∈ insertInto a b rows ∧ x ∈ s) ↔
      (k = a ∧ x = b) ∨ ∃ s, (k, s) ∈ rows ∧ x ∈ s := by
  have hnew : x ∈ IdSet.empty.insert b ↔ x = b := by
    rw [IdSet.mem_insert]
    exact or_iff_left (IdSet.not_mem_empty x)
  induction rows with
  | nil => simp [insertInto, hnew]
  | cons row rows ih =>
    obtain ⟨l, s⟩ := row
    simp only [insertInto]
    split
    · simp only [List.mem_cons, Prod.mk.injEq]
      grind
    · split
      · simp only [List.mem_cons, Prod.mk.injEq]
        grind [IdSet.mem_insert]
      · simp only [List.mem_cons, Prod.mk.injEq, or_and_right, exists_or, ih]
        grind

@[simp] theorem mem_image_insert {r : Relation} {a b k x : Nat} :
    x ∈ (r.insert a b).image k ↔ (k = a ∧ x = b) ∨ x ∈ r.image k := by
  rw [mem_image, mem_image]
  exact mem_insertInto

theorem mem_image_foldl_insert {r : Relation} {a k x : Nat} {bs : List Nat} :
    x ∈ (bs.foldl (fun r b => r.insert a b) r).image k ↔ (k = a ∧ x ∈ bs) ∨ x ∈ r.image k := by
  induction bs generalizing r with
  | nil => simp
  | cons b bs ih =>
    rw [List.foldl_cons, ih, mem_image_insert, List.mem_cons]
    tauto

@[simp] theorem mem_image_insertAll {r : Relation} {a k x : Nat} {s : IdSet} :
    x ∈ (r.insertAll a s).image k ↔ (k = a ∧ x ∈ s) ∨ x ∈ r.image k :=
  mem_image_foldl_insert

theorem image_of_mem_rows {r : Relation} {a : Nat} {s : IdSet} (h : (a, s) ∈ r.rows) :
    r.image a = s := by
  apply IdSet.ext
  intro b
  rw [mem_image]
  constructor
  · intro hex
    obtain ⟨t, ht, hb⟩ := hex
    rwa [row_unique r.ascending h ht]
  · intro hb
    exact ⟨s, h, hb⟩

/-- Relations with the same pairs have the same rows, since no row is empty. -/
theorem mem_rows_of_image_eq {r s : Relation} (h : ∀ a, r.image a = s.image a) {row : Nat × IdSet}
    (hrow : row ∈ r.rows) : row ∈ s.rows := by
  obtain ⟨a, t⟩ := row
  have ht := image_of_mem_rows hrow
  obtain ⟨b, hb⟩ : ∃ b, b ∈ t := by
    by_contra hnone
    exact r.inhabited _ hrow (IdSet.ext fun b => iff_of_false (fun hb => hnone ⟨b, hb⟩) (by simp))
  obtain ⟨u, hu, _⟩ := mem_image.mp (h a ▸ ht.symm ▸ hb)
  rwa [← ht, h a, image_of_mem_rows hu]

theorem ext {r s : Relation} (h : ∀ a, r.image a = s.image a) : r = s := by
  have hnodup : ∀ r : Relation, r.rows.Nodup := fun r =>
    r.ascending.imp fun hlt he => Nat.ne_of_lt hlt (congrArg Prod.fst he)
  have hp : r.rows.Perm s.rows := (List.perm_ext_iff_of_nodup (hnodup r) (hnodup s)).mpr fun row =>
    ⟨mem_rows_of_image_eq h, mem_rows_of_image_eq fun a => (h a).symm⟩
  have he : r.rows = s.rows :=
    hp.eq_of_pairwise (fun a b _ _ hab hba => absurd hab (Nat.lt_asymm hba)) r.ascending s.ascending
  cases r
  cases s
  simpa using he

end Relation

namespace IdMap

variable {α : Type}

/-- No id has two entries. -/
def Functional (es : List (Nat × α)) : Prop := ∀ k a b, (k, a) ∈ es → (k, b) ∈ es → a = b

theorem mem_map_insertInto {merge : α → α → α} {k l : Nat} {a : α} {es : List (Nat × α)} :
    l ∈ (insertInto merge k a es).map (·.1) ↔ l = k ∨ l ∈ es.map (·.1) := by
  induction es with
  | nil => simp [insertInto]
  | cons e es ih =>
    obtain ⟨j, b⟩ := e
    simp only [insertInto]
    split
    · simp
    · split
      · rename_i heq
        simp [heq]
      · simp only [List.map_cons, List.mem_cons, ih]
        exact or_left_comm

theorem mem_keys_insert {m : IdMap α} {k l : Nat} {a : α} :
    l ∈ (m.insert k a).keys ↔ l = k ∨ l ∈ m.keys :=
  mem_map_insertInto

theorem mem_entries_set {m : IdMap α} {k l : Nat} {a b : α} :
    (l, b) ∈ (m.set k a).entries ↔ (l = k ∧ b = a) ∨ (l ≠ k ∧ (l, b) ∈ m.entries) := by
  obtain ⟨es, hm⟩ := m
  change (l, b) ∈ insertInto (fun _ new => new) k a es ↔ _
  induction es with
  | nil => simp [insertInto]
  | cons e es ih =>
    obtain ⟨j, c⟩ := e
    obtain ⟨hj, hes⟩ := List.pairwise_cons.mp hm
    -- Behind an entry all ids are greater, so that none is met twice.
    have hbehind : (l, b) ∈ es → j < l := fun h => hj _ h
    simp only [insertInto]
    split
    · simp only [List.mem_cons, Prod.mk.injEq]
      grind
    · split
      · simp only [List.mem_cons, Prod.mk.injEq]
        grind
      · simp only [List.mem_cons, Prod.mk.injEq, ih hes]
        grind

theorem mem_entries_iff_get? {m : IdMap α} {k : Nat} {a : α} :
    (k, a) ∈ m.entries ↔ m.get? k = some a := by
  unfold get?
  obtain ⟨es, hm⟩ := m
  induction es with
  | nil => simp
  | cons e es ih =>
    obtain ⟨l, b⟩ := e
    obtain ⟨hl, hes⟩ := List.pairwise_cons.mp hm
    rw [List.find?_cons, List.mem_cons, ih hes]
    by_cases hk : l = k
    · subst hk
      have hnone : es.find? (·.1 == l) = none := by
        rw [List.find?_eq_none]
        intro e he
        simpa using Nat.ne_of_gt (hl e he)
      simp [hnone, eq_comm]
    · simp [beq_false_of_ne hk, Ne.symm hk]

theorem get?_set {m : IdMap α} {k l : Nat} {a b : α} :
    (m.set k a).get? l = some b ↔ (l = k ∧ b = a) ∨ (l ≠ k ∧ m.get? l = some b) := by
  rw [← mem_entries_iff_get?, ← mem_entries_iff_get?]
  exact mem_entries_set

theorem ofList_concat (es : List (Nat × α)) (k : Nat) (a : α) :
    ofList (es ++ [(k, a)]) = (ofList es).set k a := by
  simp [ofList]

/-- A map has the last entry of each id it was made of. -/
theorem mem_entries_ofList_iff {es : List (Nat × α)} {k : Nat} {a : α} :
    (k, a) ∈ (ofList es).entries ↔ es.reverse.find? (·.1 == k) = some (k, a) := by
  induction es using List.reverseRecOn with
  | nil => simp [ofList, empty]
  | append_singleton es e ih =>
    obtain ⟨l, b⟩ := e
    rw [ofList_concat, mem_entries_set, ih, List.reverse_concat, List.find?_cons]
    by_cases hk : l = k
    · simp [hk, eq_comm]
    · simp [beq_false_of_ne hk, Ne.symm hk]

/-- A map has no entries but those it was made of, also if some of them clash. -/
theorem mem_of_mem_ofList {es : List (Nat × α)} {e : Nat × α} (h : e ∈ (ofList es).entries) :
    e ∈ es :=
  List.mem_reverse.mp (List.mem_of_find?_eq_some (mem_entries_ofList_iff.mp h))

/-- A map made of entries that do not clash has exactly those. -/
theorem mem_entries_ofList {es : List (Nat × α)} (hf : Functional es) {e : Nat × α} :
    e ∈ (ofList es).entries ↔ e ∈ es := by
  refine ⟨mem_of_mem_ofList, ?_⟩
  intro he
  obtain ⟨k, a⟩ := e
  have hsome : (es.reverse.find? (·.1 == k)).isSome := by
    rw [List.find?_isSome]
    exact ⟨(k, a), List.mem_reverse.mpr he, by simp⟩
  obtain ⟨⟨l, b⟩, hlast⟩ := Option.isSome_iff_exists.mp hsome
  have hl : l = k := by simpa using List.find?_some hlast
  subst hl
  have hmem := List.mem_reverse.mp (List.mem_of_find?_eq_some hlast)
  rw [mem_entries_ofList_iff, hlast, hf l a b he hmem]

end IdMap

end PointerTriage
