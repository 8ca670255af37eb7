import Mathlib.Data.List.Chain
import PointerTriage.ControlFlow.Basic
import PointerTriage.Proofs.Graph.Edges
import PointerTriage.Proofs.Graph.Queue

namespace PointerTriage.ControlFlow

variable {g : ControlFlow} {entry m : LocationId}

/-- The locations that a path passes, from its first to its last. -/
structure IsPath (g : ControlFlow) (first last : LocationId) (path : List LocationId) : Prop where
  starts : path.head? = some first
  ends : path.getLast? = some last
  known : ∀ c ∈ path, c < g.nodes.size
  follows : path.IsChain fun a b => ∃ kind, ⟨a, b, kind⟩ ∈ g.edges

/-- A path with so many edges leads to the location, and none with fewer. -/
def IsDepth (g : ControlFlow) (entry m : LocationId) (d : Nat) : Prop :=
  (∃ path, g.IsPath entry m path ∧ path.length = d + 1) ∧
    ∀ path, g.IsPath entry m path → d + 1 ≤ path.length

theorem mem_successors {a b : LocationId} :
    b ∈ g.successors a ↔ ∃ kind, ⟨a, b, kind⟩ ∈ g.edges := by
  rw [successors, Graph.mem_outOf]
  constructor
  · rintro ⟨e, he, rfl, -, rfl⟩
    exact ⟨e.kind, he⟩
  · rintro ⟨kind, he⟩
    exact ⟨_, he, rfl, rfl, rfl⟩

theorem mem_nodeIds_iff {c : LocationId} : c ∈ g.nodeIds ↔ c < g.nodes.size := List.mem_range

theorem isPath_singleton {c : LocationId} (hc : c < g.nodes.size) : g.IsPath c c [c] :=
  ⟨rfl, rfl, by simpa using hc, .singleton c⟩

theorem IsPath.concat {path : List LocationId} (h : g.IsPath entry m path) {c : LocationId}
    (hc : c < g.nodes.size) (hnext : c ∈ g.successors m) : g.IsPath entry c (path ++ [c]) where
  starts := by rw [List.head?_append, h.starts, Option.some_or]
  ends := List.getLast?_concat
  known := by
    intro b hb
    rcases List.mem_append.mp hb with hb | hb
    · exact h.known b hb
    · exact List.mem_singleton.mp hb ▸ hc
  follows := by
    refine List.isChain_append.mpr ⟨h.follows, .singleton c, ?_⟩
    rintro a ha b ⟨⟩
    obtain rfl := Option.some.inj (h.ends.symm.trans ha)
    exact mem_successors.mp hnext

theorem IsPath.exists_length {path : List LocationId} (h : g.IsPath entry m path) :
    ∃ n, path.length = n + 1 :=
  Nat.exists_eq_add_one.mpr (List.length_pos_of_mem (List.mem_of_getLast? h.ends))

/-- Steps of the search are edges of a path. -/
theorem reachesIn_iff_isPath {n : Nat} :
    Graph.ReachesIn g.successors g.nodeIds [entry] n m ↔
      ∃ path, g.IsPath entry m path ∧ path.length = n + 1 := by
  constructor
  · intro h
    induction h with
    | seed hd hs =>
      obtain rfl := List.mem_singleton.mp hs
      exact ⟨_, isPath_singleton (mem_nodeIds_iff.mp hd), rfl⟩
    | @step n a b _ hd hb ih =>
      obtain ⟨path, hpath, hlength⟩ := ih
      exact ⟨path ++ [b], hpath.concat (mem_nodeIds_iff.mp hd) hb, by simp [hlength]⟩
  · rintro ⟨path, hpath, hlength⟩
    -- The search goes to the end of a path, so the path is taken apart from there.
    induction path using List.reverseRecOn generalizing m n with
    | nil => simp at hlength
    | append_singleton path c ih =>
      obtain ⟨starts, ends, known, follows⟩ := hpath
      obtain rfl : c = m := by simpa using ends
      have hc := mem_nodeIds_iff.mpr (known c (by simp))
      cases hlast : path.getLast? with
      | none =>
        obtain rfl := List.getLast?_eq_none_iff.mp hlast
        obtain rfl : c = entry := by simpa using starts
        obtain rfl : n = 0 := by simpa using hlength.symm
        exact .seed hc (List.mem_singleton_self c)
      | some a =>
        obtain ⟨hfollows, -, hedge⟩ := List.isChain_append.mp follows
        obtain ⟨b, hb⟩ : ∃ b, path.head? = some b := by cases path <;> simp at hlast ⊢
        have hbefore : g.IsPath entry a path := by
          refine ⟨?_, hlast, fun b hb => known b (List.mem_append_left _ hb), hfollows⟩
          simpa [List.head?_append, hb] using starts
        have hn : path.length = n := by simpa using hlength
        obtain ⟨k, rfl⟩ : ∃ k, n = k + 1 := hn ▸ hbefore.exists_length
        exact .step (ih hbefore hn) hc (mem_successors.mpr (hedge a hlast c rfl))

theorem isDistance_iff_isDepth {d : Nat} :
    Graph.IsDistance g.successors g.nodeIds [entry] d m ↔ g.IsDepth entry m d := by
  constructor
  · intro h
    refine ⟨reachesIn_iff_isPath.mp h.reached, ?_⟩
    intro path hpath
    obtain ⟨k, hk⟩ := hpath.exists_length
    rw [hk]
    exact Nat.succ_le_succ (h.least k (reachesIn_iff_isPath.mpr ⟨path, hpath, hk⟩))
  · rintro ⟨hpath, hleast⟩
    refine ⟨reachesIn_iff_isPath.mpr hpath, ?_⟩
    intro k hk
    obtain ⟨path, hpath, hlength⟩ := reachesIn_iff_isPath.mp hk
    have hle := hleast path hpath
    omega

theorem mem_keys_depths :
    m ∈ (g.depths entry).map (·.1) ↔ ∃ path, g.IsPath entry m path := by
  rw [depths, Graph.map_fst_distances, Graph.mem_reach_iff, Graph.reaches_iff_reachesIn]
  constructor
  · rintro ⟨n, h⟩
    obtain ⟨path, hpath, -⟩ := reachesIn_iff_isPath.mp h
    exact ⟨path, hpath⟩
  · rintro ⟨path, hpath⟩
    obtain ⟨n, hn⟩ := hpath.exists_length
    exact ⟨n, reachesIn_iff_isPath.mpr ⟨path, hpath, hn⟩⟩

/-- Depths are found with a queue: a location is queued when it is first met, one deeper than the
location it is met from. -/
theorem depths_eq_search (g : ControlFlow) (entry : LocationId) :
    g.depths entry = Graph.search g.successors g.nodeIds [entry] :=
  (Graph.search_eq_distances _ List.nodup_range _).symm

/-- A location has one depth, the length of a shortest path from the entry. What no path reaches has
none, and behind an unknown entry there is nothing. -/
theorem depths_exact (g : ControlFlow) (entry : LocationId) :
    ((g.depths entry).map (·.1)).Nodup ∧
    (∀ m d, (m, d) ∈ g.depths entry ↔ g.IsDepth entry m d) ∧
    (∀ m, m ∉ (g.depths entry).map (·.1) ↔ ¬∃ path, g.IsPath entry m path) ∧
    (g.depths entry = [] ↔ g.nodes.size ≤ entry) := by
  refine ⟨?_, ?_, fun m => mem_keys_depths.not, ?_⟩
  · rw [depths, Graph.map_fst_distances]
    exact Graph.nodup_reach _ _ _
  · intro m d
    rw [depths, Graph.mem_distances, isDistance_iff_isDepth]
  · rw [← List.map_eq_nil_iff, List.eq_nil_iff_forall_not_mem]
    constructor
    · intro hnone
      by_contra hknown
      exact hnone entry (mem_keys_depths.mpr ⟨_, isPath_singleton (Nat.lt_of_not_le hknown)⟩)
    · intro hunknown m hm
      obtain ⟨path, hpath⟩ := mem_keys_depths.mp hm
      have hentry := hpath.known entry (List.mem_of_head? hpath.starts)
      exact Nat.lt_irrefl _ (Nat.lt_of_lt_of_le hentry hunknown)

end PointerTriage.ControlFlow
