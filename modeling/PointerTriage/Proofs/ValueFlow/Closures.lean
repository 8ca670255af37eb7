import Mathlib.Logic.Relation
import PointerTriage.Proofs.Graph.Edges
import PointerTriage.Proofs.Graph.Queue
import PointerTriage.Proofs.Saturation
import PointerTriage.ValueFlow.Basic

namespace PointerTriage

theorem Graph.reaches_iff_reflTransGen {α : Type} {next : α → List α} {domain : List α}
    (hnext : ∀ a, ∀ b ∈ next a, b ∈ domain) {seeds : List α} {a : α} :
    Reaches next domain seeds a ↔
      ∃ s ∈ seeds, s ∈ domain ∧ Relation.ReflTransGen (fun a b => b ∈ next a) s a := by
  constructor
  · intro hreach
    induction hreach with
    | seed hd hs => exact ⟨_, hs, hd, .refl⟩
    | step _ _ hb ih =>
      obtain ⟨s, hs, hd, hway⟩ := ih
      exact ⟨s, hs, hd, hway.tail hb⟩
  · intro hex
    obtain ⟨s, hs, hd, hway⟩ := hex
    induction hway with
    | refl => exact .seed hd hs
    | tail _ hb ih => exact .step ih (hnext _ _ hb) hb

namespace ValueFlow

/-- The ends of all edges are nodes of the graph. -/
def Closed (g : ValueFlow) : Prop :=
  ∀ e ∈ g.edges, e.source < g.nodes.size ∧ e.target < g.nodes.size

/-- A value can flow from a node to another over edges that a filter admits. -/
def Leads (edges : Edge → Prop) (f : EdgeFilter) : NodeId → NodeId → Prop :=
  Relation.ReflTransGen fun a b => ∃ kind, f.admits kind = true ∧ edges ⟨a, b, kind⟩

section

variable {g : ValueFlow} {f : EdgeFilter}

theorem mem_successors {n m : NodeId} :
    m ∈ g.successors f n ↔ ∃ kind, f.admits kind = true ∧ ⟨n, m, kind⟩ ∈ g.edges := by
  rw [successors, Graph.mem_outOf]
  constructor
  · intro hex
    obtain ⟨e, he, rfl, hkind, rfl⟩ := hex
    exact ⟨e.kind, hkind, he⟩
  · intro hex
    obtain ⟨kind, hkind, he⟩ := hex
    exact ⟨_, he, rfl, hkind, rfl⟩

theorem mem_predecessors {n m : NodeId} : m ∈ g.predecessors f n ↔ n ∈ g.successors f m := by
  rw [predecessors, successors, Graph.mem_into, Graph.mem_outOf]
  refine exists_congr fun e => and_congr_right fun _ => ?_
  tauto

theorem mem_nodeIds {n : NodeId} : n ∈ g.nodeIds ↔ n < g.nodes.size := List.mem_range

theorem mem_forwardClosure (h : g.Closed) {seeds : List NodeId} {n : NodeId} :
    n ∈ g.forwardClosure seeds ↔
      ∃ s ∈ seeds, s < g.nodes.size ∧ Leads (· ∈ g.edges) .all s n := by
  have hnext : ∀ a, ∀ b ∈ g.successors .all a, b ∈ g.nodeIds := by
    intro a b hb
    obtain ⟨_, _, he⟩ := mem_successors.mp hb
    exact mem_nodeIds.mpr (h _ he).2
  simp only [forwardClosure, Graph.mem_reach_iff, Graph.reaches_iff_reflTransGen hnext, mem_nodeIds,
    mem_successors, Leads]

theorem mem_backwardClosure (h : g.Closed) {seeds : List NodeId} {n : NodeId} :
    n ∈ g.backwardClosure f seeds ↔
      ∃ s ∈ seeds, s < g.nodes.size ∧ Leads (· ∈ g.edges) f n s := by
  have hnext : ∀ a, ∀ b ∈ g.predecessors f a, b ∈ g.nodeIds := by
    intro a b hb
    obtain ⟨_, _, he⟩ := mem_successors.mp (mem_predecessors.mp hb)
    exact mem_nodeIds.mpr (h _ he).1
  rw [backwardClosure, Graph.mem_reach_iff, Graph.reaches_iff_reflTransGen hnext]
  refine exists_congr fun s => and_congr_right fun _ => and_congr mem_nodeIds ?_
  -- The walk takes the edges from their targets to their sources.
  rw [Leads, ← Relation.reflTransGen_swap]
  simp only [mem_predecessors, mem_successors]

/-- Closures are walked with a queue, to which a node comes when it is first met. -/
theorem closures_eq_search (g : ValueFlow) (f : EdgeFilter) (seeds : List NodeId) :
    g.forwardClosure seeds = (Graph.search (g.successors .all) g.nodeIds seeds).map (·.1) ∧
    g.backwardClosure f seeds = (Graph.search (g.predecessors f) g.nodeIds seeds).map (·.1) :=
  ⟨Graph.reach_eq_search _ List.nodup_range seeds, Graph.reach_eq_search _ List.nodup_range seeds⟩

theorem mem_backwardClosure_all {seeds : List NodeId} {n : NodeId}
    (h : n ∈ g.backwardClosure f seeds) : n ∈ g.backwardClosure .all seeds := by
  refine Graph.reach_mono ?_ (fun _ hs => hs) n h
  intro a m hm
  obtain ⟨e, he, htarget, _, hsource⟩ := Graph.mem_into.mp hm
  exact Graph.mem_into.mpr ⟨e, he, htarget, rfl, hsource⟩

end

/-- One step in which a graph grows. -/
inductive Growth where
  | node (n : Node)
  | edge (e : Edge)
  deriving DecidableEq, Repr

namespace Growth

def isNode : Growth → Bool
  | .node _ => true
  | .edge _ => false

def apply (g : ValueFlow) : Growth → ValueFlow
  | .node n => g.addNode n
  | .edge e => g.addEdge e

end Growth

def grown (steps : List Growth) : ValueFlow := steps.foldl Growth.apply empty

/-- The number of nodes that some steps add. -/
def nodeCount (steps : List Growth) : Nat := steps.countP Growth.isNode

/-- Some step adds the edge, at a time at which both ends are there. -/
def Linked (steps : List Growth) (e : Edge) : Prop :=
  ComesWhen steps (.edge e) fun before =>
    e.source < nodeCount before ∧ e.target < nodeCount before

theorem grown_concat (steps : List Growth) (step : Growth) :
    grown (steps ++ [step]) = step.apply (grown steps) := by
  simp [grown]

theorem nodeCount_append (steps more : List Growth) :
    nodeCount (steps ++ more) = nodeCount steps + nodeCount more :=
  List.countP_append

theorem size_grown (steps : List Growth) : (grown steps).nodes.size = nodeCount steps := by
  induction steps using List.reverseRecOn with
  | nil => rfl
  | append_singleton steps step ih =>
    rw [grown_concat, nodeCount_append, ← ih]
    cases step with
    | node n => simp [Growth.apply, addNode, nodeCount, Growth.isNode]
    | edge e => simp [Growth.apply, addEdge, nodeCount, Growth.isNode]

/-- The edges of a graph are those that were added between known nodes. -/
theorem mem_edges_grown {steps : List Growth} {e : Edge} :
    e ∈ (grown steps).edges ↔ Linked steps e := by
  induction steps using List.reverseRecOn with
  | nil => exact iff_of_false List.not_mem_nil comesWhen_nil
  | append_singleton steps step ih =>
    rw [grown_concat, Linked, comesWhen_concat, ← Linked, ← ih]
    cases step with
    | node n => simp [Growth.apply, addNode]
    | edge e' =>
      rw [Growth.apply, addEdge, Graph.mem_addEdge, size_grown, Growth.edge.injEq, eq_comm]
      refine or_congr_right (and_congr_right fun he => ?_)
      rw [he]

theorem closed_grown (steps : List Growth) : (grown steps).Closed := by
  intro e he
  obtain ⟨before, after, rfl, hsource, htarget⟩ := mem_edges_grown.mp he
  rw [size_grown, nodeCount_append]
  omega

/-- Closures are exact. Forward they list the nodes to which a known seed leads, backward those that
lead to a known seed over the edges that the filter admits, each node once. So backward from one node
to another is forward from the other to the one, and direct edges reach no more than all edges. -/
theorem closures_exact (steps : List Growth) :
    let g := grown steps
    (∀ seeds, (g.forwardClosure seeds).Nodup ∧ ∀ n, n ∈ g.forwardClosure seeds ↔
      ∃ s ∈ seeds, s < nodeCount steps ∧ Leads (Linked steps) .all s n) ∧
    (∀ f seeds, (g.backwardClosure f seeds).Nodup ∧ ∀ n, n ∈ g.backwardClosure f seeds ↔
      ∃ s ∈ seeds, s < nodeCount steps ∧ Leads (Linked steps) f n s) ∧
    (∀ a b, a < nodeCount steps → b < nodeCount steps →
      (b ∈ g.backwardClosure .all [a] ↔ a ∈ g.forwardClosure [b])) ∧
    ∀ seeds, ∀ n ∈ g.backwardClosure .directOnly seeds, n ∈ g.backwardClosure .all seeds := by
  intro g
  have hclosed : g.Closed := closed_grown steps
  have hsize : g.nodes.size = nodeCount steps := size_grown steps
  have hedges : (· ∈ g.edges) = Linked steps := funext fun e => propext mem_edges_grown
  have hforward : ∀ {seeds : List NodeId} {n : NodeId}, _ := @mem_forwardClosure g hclosed
  have hbackward : ∀ {f : EdgeFilter} {seeds : List NodeId} {n : NodeId}, _ :=
    fun {f} => @mem_backwardClosure g f hclosed
  rw [hedges, hsize] at hforward hbackward
  refine ⟨?_, ?_, ?_, ?_⟩
  · exact fun seeds => ⟨Graph.nodup_reach _ _ _, fun n => hforward⟩
  · exact fun f seeds => ⟨Graph.nodup_reach _ _ _, fun n => hbackward⟩
  · intro a b ha hb
    rw [hforward, hbackward]
    simp [ha, hb]
  · exact fun seeds n => mem_backwardClosure_all

/-- A store and a load that feed each other, with two edges from one to the other, and a use of the
load. The first edge to the use comes too early and is lost. -/
def ring : List Growth :=
  [.node ⟨.store, 0⟩, .node ⟨.load, 1⟩, .edge ⟨1, 2, .direct⟩, .node ⟨.other, 2⟩,
    .edge ⟨0, 1, .direct⟩, .edge ⟨0, 1, .indirect⟩, .edge ⟨1, 0, .direct⟩, .edge ⟨1, 2, .indirect⟩]

theorem ring_closures : 0 < nodeCount ring ∧ 2 < nodeCount ring ∧
    (∀ n, n ∈ [0, 1, 2] ↔ ∃ s ∈ [9, 0], s < nodeCount ring ∧ Leads (Linked ring) .all s n) ∧
    (∀ n, n ∈ [2] ↔ ∃ s ∈ [2, 9], s < nodeCount ring ∧ Leads (Linked ring) .directOnly n s) ∧
    (0 ∈ (grown ring).backwardClosure .all [2] ↔ 2 ∈ (grown ring).forwardClosure [0]) ∧
    ∀ n ∈ [2], n ∈ (grown ring).backwardClosure .all [2, 9] := by
  obtain ⟨hforward, hbackward, hmirror, hdirect⟩ := closures_exact ring
  have hreached : (grown ring).forwardClosure [9, 0] = [0, 1, 2] := by decide +kernel
  have hdepends : (grown ring).backwardClosure .directOnly [2, 9] = [2] := by decide +kernel
  refine ⟨by decide, by decide, ?_, ?_, hmirror 2 0 (by decide) (by decide), ?_⟩
  · exact hreached ▸ (hforward [9, 0]).2
  · exact hdepends ▸ (hbackward .directOnly [2, 9]).2
  · exact hdepends ▸ hdirect [2, 9]

end ValueFlow

end PointerTriage
