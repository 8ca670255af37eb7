import PointerTriage.Graph.Edges

namespace PointerTriage.Graph

variable {κ : Type}

theorem mem_addEdge [DecidableEq κ] {size : Nat} {edges : List (Edge κ)} {e x : Edge κ} :
    x ∈ addEdge size edges e ↔ x ∈ edges ∨ (x = e ∧ e.source < size ∧ e.target < size) := by
  unfold addEdge
  split
  · rename_i h
    simp [h.1, h.2.1]
  · rename_i h
    constructor
    · exact .inl
    · intro hor
      rcases hor with hx | ⟨rfl, hs, ht⟩
      · exact hx
      · exact Decidable.byContradiction fun hn => h ⟨hs, ht, hn⟩

theorem mem_addEdges [DecidableEq κ] {size : Nat} {edges new : List (Edge κ)} {x : Edge κ} :
    x ∈ addEdges size edges new ↔
      x ∈ edges ∨ (x ∈ new ∧ x.source < size ∧ x.target < size) := by
  unfold addEdges
  induction new generalizing edges with
  | nil => simp
  | cons e new ih =>
    rw [List.foldl_cons, ih, mem_addEdge, List.mem_cons]
    constructor
    · intro hor
      rcases hor with (hx | ⟨rfl, hr⟩) | ⟨hx, hr⟩
      · exact .inl hx
      · exact .inr ⟨.inl rfl, hr⟩
      · exact .inr ⟨.inr hx, hr⟩
    · intro hor
      rcases hor with hx | ⟨rfl | hx, hr⟩
      · exact .inl (.inl hx)
      · exact .inl (.inr ⟨rfl, hr⟩)
      · exact .inr ⟨hx, hr⟩

theorem nodup_addEdges [DecidableEq κ] {size : Nat} {edges new : List (Edge κ)}
    (h : edges.Nodup) : (addEdges size edges new).Nodup := by
  unfold addEdges
  induction new generalizing edges with
  | nil => exact h
  | cons e new ih =>
    apply ih
    unfold addEdge
    split
    · rename_i hc
      refine List.nodup_append.mpr ⟨h, List.nodup_cons.mpr ⟨by simp, List.nodup_nil⟩, ?_⟩
      intro a ha b hb he
      rw [List.mem_singleton.mp hb] at he
      exact hc.2.2 (he ▸ ha)
    · exact h

theorem mem_outOf {admits : κ → Bool} {edges : List (Edge κ)} {n m : Nat} :
    m ∈ outOf admits edges n ↔
      ∃ e ∈ edges, e.source = n ∧ admits e.kind = true ∧ e.target = m := by
  simp [outOf, and_assoc]

theorem mem_into {admits : κ → Bool} {edges : List (Edge κ)} {n m : Nat} :
    m ∈ into admits edges n ↔
      ∃ e ∈ edges, e.target = n ∧ admits e.kind = true ∧ e.source = m := by
  simp [into, and_assoc]

end PointerTriage.Graph
