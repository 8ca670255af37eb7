import Mathlib.Data.List.Chain
import PointerTriage.BoundCheck.Search
import PointerTriage.Proofs.ControlFlow.Edges
import PointerTriage.Proofs.Graph.Unfolding
import PointerTriage.Proofs.Program.Parts
import PointerTriage.Proofs.Settings.Limits

namespace PointerTriage.BoundCheck

section

variable (c : Context) (start : LocationId)

/-- A path goes no further at its greatest length, and at a comparison when it holds enough of them. -/
def Stopped (path : Path) : Prop :=
  c.settings.bound.maxPathLength ≤ path.length ∨
    ∃ last, path.getLast? = some last ∧ isCmp c last = true ∧
      c.settings.bound.maxPathsWithCmps ≤ (path.filter (isCmp c)).length

/-- A path against the control flow that repeats no location. -/
structure Backward (path : Path) : Prop where
  start : path.head? = some start
  steps : path.IsChain fun l p => p ∈ c.control.predecessors l
  simple : path.Nodup

/-- A backward path that is not stopped before its end. -/
structure InTree (path : Path) : Prop extends Backward c start path where
  unstopped : ∀ q, q <+: path → q ≠ path → ¬Stopped c q

/-- A path that is stopped, or has no other location to go to. -/
def IsLeaf (path : Path) : Prop :=
  Stopped c path ∨
    ∀ last, path.getLast? = some last → ∀ p ∈ c.control.predecessors last, p ∈ path

end

variable {c : Context} {start : LocationId}

theorem one_le_maxPathLength (c : Context) : 1 ≤ c.settings.bound.maxPathLength :=
  (Settings.Bound.check_ok_iff.mp c.settings.bound_valid).2.1.1

theorem one_le_maxPathsWithCmps (c : Context) : 1 ≤ c.settings.bound.maxPathsWithCmps :=
  (Settings.Bound.check_ok_iff.mp c.settings.bound_valid).2.2.1.1

theorem inTree_single (c : Context) (start : LocationId) : InTree c start [start] where
  start := rfl
  steps := .singleton start
  simple := List.nodup_singleton start
  unstopped := by
    intro q hq hne
    have hnil : q = [] := by
      have hq : q <+: [] ++ [start] := hq
      rcases List.prefix_concat_iff.mp hq with he | he
      · exact absurd he hne
      · exact List.prefix_nil.mp he
    rw [hnil]
    intro hor
    rcases hor with hlen | ⟨_, hlast, _⟩
    · exact absurd hlen (Nat.not_le.mpr (one_le_maxPathLength c))
    · cases hlast

/-- One more location, at the end of a path. -/
theorem inTree_concat {path : Path} {last p : LocationId} (hlast : path.getLast? = some last) :
    InTree c start (path ++ [p]) ↔
      InTree c start path ∧ ¬Stopped c path ∧ p ∈ c.control.predecessors last ∧ p ∉ path := by
  have hne : path ≠ [] := by
    rintro rfl
    cases hlast
  have hhead : (path ++ [p]).head? = path.head? := by
    cases path with
    | nil => exact absurd rfl hne
    | cons l path => rfl
  constructor
  · intro hex
    obtain ⟨⟨hstart, hsteps, hsimple⟩, hopen⟩ := hex
    obtain ⟨hsteps, _, hstep⟩ := List.isChain_append.mp hsteps
    obtain ⟨hsimple, _, hnew⟩ := List.nodup_append.mp hsimple
    have hshort : ∀ q, q <+: path → q ≠ path ++ [p] := by
      intro q hq he
      have hlen := hq.length_le
      rw [he, List.length_append, List.length_singleton] at hlen
      omega
    refine ⟨⟨⟨hhead ▸ hstart, hsteps, hsimple⟩, ?_⟩, ?_, ?_, ?_⟩
    · intro q hq _
      exact hopen q (hq.trans (List.prefix_append path [p])) (hshort q hq)
    · exact hopen path (List.prefix_append path [p]) (hshort path (List.prefix_refl path))
    · exact hstep last hlast p rfl
    · intro hp
      exact hnew p hp p (List.mem_singleton_self p) rfl
  · intro hex
    obtain ⟨⟨⟨hstart, hsteps, hsimple⟩, hopen⟩, hstop, hp, hnew⟩ := hex
    refine ⟨⟨hhead.trans hstart, ?_, ?_⟩, ?_⟩
    · refine List.isChain_append.mpr ⟨hsteps, .singleton p, ?_⟩
      intro l hl q hq
      rw [hlast] at hl
      cases hl
      cases hq
      exact hp
    · rw [← List.concat_eq_append, List.nodup_concat]
      exact ⟨hnew, hsimple⟩
    · intro q hq hneq
      rcases List.prefix_concat_iff.mp hq with he | hq
      · exact absurd he hneq
      · by_cases he : q = path
        · exact he ▸ hstop
        · exact hopen q hq he

/-- A path of the tree keeps to the limits, and stays below the number of comparisons while it may go
on. -/
theorem InTree.limits {path : Path} (h : InTree c start path) :
    path.length ≤ c.settings.bound.maxPathLength ∧
    (path.filter (isCmp c)).length ≤ c.settings.bound.maxPathsWithCmps ∧
    (¬Stopped c path →
      (path.filter (isCmp c)).length < c.settings.bound.maxPathsWithCmps) := by
  induction path using List.reverseRecOn with
  | nil => exact absurd h.start (by simp)
  | append_singleton path p ih =>
    -- The rest of the path holds fewer comparisons than it may, since it was not stopped.
    have hrest : path.length < c.settings.bound.maxPathLength ∧
        (path.filter (isCmp c)).length < c.settings.bound.maxPathsWithCmps := by
      cases hlast : path.getLast? with
      | none =>
        rw [List.getLast?_eq_none_iff.mp hlast]
        exact ⟨one_le_maxPathLength c, one_le_maxPathsWithCmps c⟩
      | some last =>
        obtain ⟨hpath, hstop, _⟩ := (inTree_concat hlast).mp h
        exact ⟨Nat.lt_of_not_le fun hlen => hstop (.inl hlen), (ih hpath).2.2 hstop⟩
    obtain ⟨hlen, hcmps⟩ := hrest
    have hcount : ((path ++ [p]).filter (isCmp c)).length =
        (path.filter (isCmp c)).length + if isCmp c p then 1 else 0 := by
      rw [List.filter_append, List.length_append, List.filter_singleton]
      cases isCmp c p <;> rfl
    rw [hcount]
    refine ⟨?_, ?_, ?_⟩
    · rw [List.length_append, List.length_singleton]
      exact hlen
    · split <;> omega
    · intro hstop
      cases hp : isCmp c p with
      | false => simpa [hp] using hcmps
      | true =>
        refine Nat.lt_of_not_le fun hle => hstop (.inr ⟨p, by simp, hp, ?_⟩)
        rw [hcount, hp]
        exact hle

theorem isComplete_iff {last : LocationId} {rest : Path} :
    isComplete c (last :: rest) = true ↔ Stopped c (last :: rest).reverse := by
  simp only [isComplete, Stopped, List.filter_reverse, List.length_reverse, List.getLast?_reverse,
    List.head?_cons, Option.some.injEq, exists_eq_left', Bool.or_eq_true, Bool.and_eq_true,
    decide_eq_true_eq]

theorem mem_extend {path q : Path} :
    q ∈ extend c path ↔ ∃ last rest p, path = last :: rest ∧ ¬Stopped c path.reverse ∧
      p ∈ c.control.predecessors last ∧ p ∉ path ∧ q = p :: path := by
  cases path with
  | nil => simp [extend]
  | cons last rest =>
    unfold extend
    by_cases hs : Stopped c (last :: rest).reverse
    · have hc : isComplete c (last :: rest) = true := isComplete_iff.mpr hs
      simp only [hc, if_true, List.not_mem_nil, false_iff]
      intro hex
      obtain ⟨_, _, _, _, hopen, _⟩ := hex
      exact hopen hs
    · have hc : isComplete c (last :: rest) = false := by
        simpa using mt isComplete_iff.mp hs
      simp only [hc, Bool.false_eq_true, if_false, List.mem_map, List.mem_filter]
      constructor
      · intro hex
        obtain ⟨p, ⟨hp, hnew⟩, rfl⟩ := hex
        exact ⟨last, rest, p, rfl, hs, hp, by simpa using hnew, rfl⟩
      · intro hex
        obtain ⟨_, _, p, he, _, hp, hnew, rfl⟩ := hex
        cases he
        exact ⟨p, ⟨hp, by simpa using hnew⟩, rfl⟩

theorem extend_ranked (c : Context) :
    Graph.Ranked (extend c) fun path => c.settings.bound.maxPathLength - path.length := by
  intro path q hq
  obtain ⟨last, rest, p, _, hstop, _, _, rfl⟩ := mem_extend.mp hq
  have hlen : path.length < c.settings.bound.maxPathLength :=
    Nat.lt_of_not_le fun hle => hstop (.inl (by simpa using hle))
  change _ - (path.length + 1) < _ - path.length
  omega

theorem parent_unique {a b q : Path} (ha : q ∈ extend c a) (hb : q ∈ extend c b) : a = b := by
  obtain ⟨_, _, _, _, _, _, _, rfl⟩ := mem_extend.mp ha
  obtain ⟨_, _, _, _, _, _, _, he⟩ := mem_extend.mp hb
  exact (List.cons.inj he).2

theorem nodup_extend (hp : ∀ l, (c.control.predecessors l).Nodup) (path : Path) :
    (extend c path).Nodup := by
  unfold extend
  split
  · exact List.nodup_nil
  · split
    · exact List.nodup_nil
    · exact ((hp _).filter _).map fun a b h => (List.cons.inj h).1

/-- The paths that the search comes by are those of the tree, turned around. -/
theorem reached_iff {q : Path} :
    Relation.ReflTransGen (fun a b => b ∈ extend c a) [start] q ↔ InTree c start q.reverse := by
  constructor
  · intro hr
    induction hr with
    | refl => exact inTree_single c start
    | tail _ hq ih =>
      obtain ⟨last, rest, p, rfl, hstop, hp, hnew, rfl⟩ := mem_extend.mp hq
      rw [List.reverse_cons]
      exact (inTree_concat (by simp)).mpr ⟨ih, hstop, hp, fun hm => hnew (List.mem_reverse.mp hm)⟩
  · induction q with
    | nil =>
      intro h
      exact absurd h.start (by simp)
    | cons p q ih =>
      intro h
      cases q with
      | nil =>
        have hp : p = start := by simpa using h.start
        rw [hp]
      | cons last rest =>
        rw [List.reverse_cons] at h
        have hlast : (last :: rest).reverse.getLast? = some last := by simp
        obtain ⟨hpath, hstop, hp, hnew⟩ := (inTree_concat hlast).mp h
        refine .tail (ih hpath) (mem_extend.mpr ?_)
        exact ⟨last, rest, p, rfl, hstop, hp, fun hm => hnew (List.mem_reverse.mpr hm), rfl⟩

/-- A path has no continuation exactly if it is a leaf. -/
theorem extend_isEmpty_iff {path : Path} (hne : path ≠ []) :
    (extend c path).isEmpty = true ↔ IsLeaf c path.reverse := by
  obtain ⟨last, rest, rfl⟩ := List.exists_cons_of_ne_nil hne
  rw [List.isEmpty_iff, List.eq_nil_iff_forall_not_mem]
  constructor
  · intro hnone
    by_cases hs : Stopped c (last :: rest).reverse
    · exact .inl hs
    · refine .inr ?_
      intro l hl p hp
      have he : last = l := by simpa using hl
      rw [List.mem_reverse]
      refine Decidable.byContradiction fun hnew => ?_
      exact hnone _ (mem_extend.mpr ⟨last, rest, p, rfl, hs, he ▸ hp, hnew, rfl⟩)
  · intro hleaf q hq
    obtain ⟨_, _, p, he, hs, hp, hnew, _⟩ := mem_extend.mp hq
    cases he
    rcases hleaf with hstop | hall
    · exact hs hstop
    · exact hnew (List.mem_reverse.mp (hall last (by simp) p hp))

/-- The search comes by no path twice. -/
theorem nodup_below_start (hp : ∀ l, (c.control.predecessors l).Nodup) (start : LocationId) :
    (Graph.below (extend_ranked c) [start]).Nodup :=
  Graph.nodup_below _ (fun _ _ _ => parent_unique) (nodup_extend hp) [start]

/-- The paths of the tree, each from its start. -/
def tree (c : Context) (start : LocationId) : List Path :=
  (Graph.below (extend_ranked c) [start]).map List.reverse

theorem mem_tree {path : Path} : path ∈ tree c start ↔ InTree c start path := by
  rw [tree, List.mem_map]
  constructor
  · intro hex
    obtain ⟨q, hq, rfl⟩ := hex
    exact reached_iff.mp (Graph.mem_below.mp hq)
  · intro h
    rw [← List.reverse_reverse path] at h
    exact ⟨path.reverse, Graph.mem_below.mpr (reached_iff.mpr h), List.reverse_reverse path⟩

theorem nodup_tree (hp : ∀ l, (c.control.predecessors l).Nodup) (start : LocationId) :
    (tree c start).Nodup :=
  (nodup_below_start hp start).map List.reverse_injective

/-- The leaves of the tree are its paths that go no further, each once. -/
theorem leaves_spec (hp : ∀ l, (c.control.predecessors l).Nodup) (start : LocationId) :
    ((Graph.leavesBelow (extend_ranked c) [start]).map List.reverse).Nodup ∧
    ∀ path, path ∈ (Graph.leavesBelow (extend_ranked c) [start]).map List.reverse ↔
      InTree c start path ∧ IsLeaf c path := by
  constructor
  · exact ((nodup_below_start hp start).filter _).map List.reverse_injective
  · intro path
    rw [← mem_tree, tree, List.mem_map, List.mem_map]
    have hne : ∀ q ∈ Graph.below (extend_ranked c) [start], q ≠ [] := by
      rintro q hq rfl
      have hstart := (reached_iff.mp (Graph.mem_below.mp hq)).start
      cases hstart
    constructor
    · intro hex
      obtain ⟨q, hq, rfl⟩ := hex
      obtain ⟨hq, hleaf⟩ := List.mem_filter.mp hq
      exact ⟨⟨q, hq, rfl⟩, (extend_isEmpty_iff (hne q hq)).mp hleaf⟩
    · intro hex
      obtain ⟨⟨q, hq, rfl⟩, hleaf⟩ := hex
      exact ⟨q, List.mem_filter.mpr ⟨hq, (extend_isEmpty_iff (hne q hq)).mpr hleaf⟩, rfl⟩

/-- The search from a located node ends. It runs out of paths to explore exactly when the tree has
more, and otherwise lists every leaf of the tree once. What it lists are always paths within the
limits, at least one. -/
theorem paths_enumerate {t : Tables} {host : HostFacts} {b : Built}
    (h : Built.ofTables t host = .ok b) (settings : Settings) {n : NodeId} {start : LocationId}
    (hl : b.program.control.location? n = some start) :
    let c := b.context settings
    let found := paths c n
    (∃ tree : List Path, tree.Nodup ∧ (∀ path, path ∈ tree ↔ InTree c start path) ∧
      (found.truncated = true ↔ settings.bound.maxExploredPaths < tree.length) ∧
      found.visits = min tree.length settings.bound.maxExploredPaths) ∧
    (found.truncated = false → found.leaves.Nodup ∧
      ∀ path, path ∈ found.leaves ↔ InTree c start path ∧ IsLeaf c path) ∧
    (∀ path ∈ found.leaves, Backward c start path ∧
      path.length ≤ settings.bound.maxPathLength ∧
      (path.filter (isCmp c)).length ≤ settings.bound.maxPathsWithCmps) ∧
    found.leaves ≠ [] := by
  intro c found
  have hp : ∀ l, (c.control.predecessors l).Nodup :=
    ControlFlow.nodup_predecessors (Built.ofTables_ok_iff.mp h).control
  have hfound : found = { Graph.unfold (extend c) settings.bound.maxExploredPaths [start] with
      leaves := (Graph.unfold (extend c) settings.bound.maxExploredPaths [start]).leaves.map
        List.reverse } := by
    change paths c n = _
    have hl : c.control.location? n = some start := hl
    simp only [paths, hl]
    rfl
  obtain ⟨htruncated, hvisits, hleaves, hmem, hsome⟩ :=
    Graph.unfold_spec (extend_ranked c) settings.bound.maxExploredPaths [start]
  obtain ⟨hnodup, hspec⟩ := leaves_spec hp start
  rw [hfound]
  refine ⟨⟨tree c start, nodup_tree hp start, fun _ => mem_tree, ?_, ?_⟩, ?_, ?_, ?_⟩
  · rw [tree, List.length_map]
    exact htruncated
  · rw [tree, List.length_map]
    exact hvisits
  · intro hwhole
    have hperm := (hleaves hwhole).map List.reverse
    exact ⟨hperm.nodup_iff.mpr hnodup, fun path => hperm.mem_iff.trans (hspec path)⟩
  · intro path hpath
    obtain ⟨q, hq, rfl⟩ := List.mem_map.mp hpath
    have hin : InTree c start q.reverse := reached_iff.mp (Graph.mem_below.mp (hmem q hq))
    exact ⟨hin.toBackward, hin.limits.1, hin.limits.2.1⟩
  · simpa using hsome

/-- Two paths lead to the comparison of the loop: once around it, and from the start of `main`. -/
theorem guardedLoop_paths : ∃ b, Built.ofTables guardedLoop plainHost = .ok b ∧
    b.program.control.location? 4 = some 7 ∧
    ∀ path, path ∈ [[7, 6, 8], [7, 6, 5, 4, 3, 1, 0]] ↔
      InTree (b.context .unchanged) 7 path ∧ IsLeaf (b.context .unchanged) path := by
  obtain ⟨b, hb⟩ := guardedLoop_builds
  have hrun : ((Built.ofTables guardedLoop plainHost).toOption.map fun b =>
      (b.program.control.location? 4, paths (b.context .unchanged) 4)) =
      some (some 7, ⟨[[7, 6, 8], [7, 6, 5, 4, 3, 1, 0]], 8, false⟩) := by decide +kernel
  rw [hb] at hrun
  obtain ⟨hl, hpaths⟩ := Prod.mk.inj (Option.some.inj hrun)
  obtain ⟨_, hleaves, _⟩ := paths_enumerate hb .unchanged hl
  rw [hpaths] at hleaves
  exact ⟨b, hb, hl, (hleaves rfl).2⟩

end PointerTriage.BoundCheck
