import Mathlib.Data.List.Nodup
import PointerTriage.ControlFlow.Build
import PointerTriage.Proofs.Graph.Edges

namespace PointerTriage.ControlFlow

/-- The node at a location is of one of the kinds. -/
def IsAt (g : ControlFlow) (kinds : List NodeKind) (l : LocationId) : Prop :=
  ∃ n, g.node? l = some n ∧ n.kind ∈ kinds

/-- The kind of an edge from the kinds of its ends. -/
def joining : NodeKind → NodeKind → EdgeKind
  | .funExit, _ => .return
  | .globalBlock, _ => .intra
  | _, .funEntry => .call
  | _, _ => .intra

/-- The kind of the edge is the one that its ends decide. -/
def Fits (g : ControlFlow) (e : Edge) : Prop :=
  ∃ a b, g.node? e.source = some a ∧ g.node? e.target = some b ∧ e.kind = joining a.kind b.kind

theorem mem_join {kind : EdgeKind} {a b : Option LocationId} {e : Edge} :
    e ∈ join kind a b ↔ a = some e.source ∧ b = some e.target ∧ e.kind = kind := by
  obtain ⟨source, target, k⟩ := e
  unfold join
  split
  · simp [eq_comm]
  · rename_i h
    simp only [List.not_mem_nil, false_iff]
    intro hex
    obtain ⟨rfl, rfl, _⟩ := hex
    exact h source target rfl rfl

section

variable {g : ControlFlow}

theorem isAt_of_findIdx? {p : Node → Bool} {kinds : List NodeKind}
    (hp : ∀ n, p n = true → n.kind ∈ kinds) {l : LocationId}
    (h : g.nodes.findIdx? p = some l) : g.IsAt kinds l := by
  obtain ⟨hl, hn, _⟩ := Array.findIdx?_eq_some_iff_getElem.mp h
  exact ⟨g.nodes[l], Array.getElem?_eq_getElem hl, hp _ hn⟩

theorem isAt_start {v : ValueId} {l : LocationId} (h : g.startOf? v = some l) :
    g.IsAt [.intraBlock, .call] l := by
  refine isAt_of_findIdx? ?_ h
  intro n hn
  simp only [Node.isStart, Bool.and_eq_true, Bool.or_eq_true, beq_iff_eq] at hn
  simpa using hn.1

theorem isAt_end {v : ValueId} {l : LocationId} (h : g.endOf? v = some l) :
    g.IsAt [.intraBlock, .return] l := by
  refine isAt_of_findIdx? ?_ h
  intro n hn
  simp only [Node.isEnd, Bool.and_eq_true, Bool.or_eq_true, beq_iff_eq] at hn
  simpa using hn.1

theorem isAt_entry {f : FunctionId} {l : LocationId} (h : g.entry? f = some l) :
    g.IsAt [.funEntry] l := by
  refine isAt_of_findIdx? ?_ h
  intro n hn
  simp only [Bool.and_eq_true, beq_iff_eq] at hn
  simpa using hn.1

theorem isAt_exit {f : FunctionId} {l : LocationId} (h : g.exit? f = some l) :
    g.IsAt [.funExit] l := by
  refine isAt_of_findIdx? ?_ h
  intro n hn
  simp only [Bool.and_eq_true, beq_iff_eq] at hn
  simpa using hn.1

theorem isAt_first {b : Block} {l : LocationId} (h : g.firstOf? b = some l) :
    g.IsAt [.intraBlock, .call] l := by
  obtain ⟨v, _, hv⟩ := Option.bind_eq_some_iff.mp h
  exact isAt_start hv

theorem isAt_last {b : Block} {l : LocationId} (h : g.lastOf? b = some l) :
    g.IsAt [.intraBlock, .return] l := by
  obtain ⟨v, _, hv⟩ := Option.bind_eq_some_iff.mp h
  exact isAt_end hv

/-- A joined edge fits, if all kinds of ends it may have decide its kind. -/
theorem fits_of_join {kind : EdgeKind} {a b : Option LocationId} {e : Edge}
    (he : e ∈ join kind a b) (sources targets : List NodeKind)
    (ha : ∀ l, a = some l → g.IsAt sources l) (hb : ∀ l, b = some l → g.IsAt targets l)
    (hk : ∀ s ∈ sources, ∀ t ∈ targets, joining s t = kind) : g.Fits e := by
  obtain ⟨hs, ht, rfl⟩ := mem_join.mp he
  obtain ⟨n, hn, hnk⟩ := ha _ hs
  obtain ⟨m, hm, hmk⟩ := hb _ ht
  exact ⟨n, m, hn, hm, (hk _ hnk _ hmk).symm⟩

theorem fits_functionEdges {ir : Ir} {f : Function} {e : Edge} (he : e ∈ g.functionEdges ir f) :
    g.Fits e := by
  rcases List.mem_append.mp he with he | he
  · obtain ⟨b, _, he⟩ := List.mem_flatMap.mp he
    obtain ⟨⟨i, j⟩, _, he⟩ := List.mem_flatMap.mp he
    exact fits_of_join he [.intraBlock, .return] [.intraBlock, .call] (fun _ => isAt_end)
      (fun _ => isAt_start) (by decide)
  · refine fits_of_join he [.funEntry] [.intraBlock, .call] (fun _ => isAt_entry) ?_ (by decide)
    intro l hl
    obtain ⟨b, _, hb⟩ := Option.bind_eq_some_iff.mp hl
    exact isAt_first hb

theorem fits_successorEdges {ir : Ir} {b : Block} {e : Edge} (he : e ∈ g.successorEdges ir b) :
    g.Fits e := by
  obtain ⟨s, _, he⟩ := List.mem_flatMap.mp he
  refine fits_of_join he [.intraBlock, .return] [.intraBlock, .call] (fun _ => isAt_last) ?_
    (by decide)
  intro l hl
  obtain ⟨b', _, hb'⟩ := Option.bind_eq_some_iff.mp hl
  exact isAt_first hb'

theorem fits_calleeEdges {call : ValueId} {callee : FunctionId} {e : Edge}
    (he : e ∈ g.calleeEdges call callee) : g.Fits e := by
  rcases List.mem_append.mp he with he | he
  · exact fits_of_join he [.intraBlock, .call] [.funEntry] (fun _ => isAt_start)
      (fun _ => isAt_entry) (by decide)
  · exact fits_of_join he [.funExit] [.intraBlock, .return] (fun _ => isAt_exit)
      (fun _ => isAt_end) (by decide)

theorem fits_transferEdges {ir : Ir} {calls : CallGraph} {v : ValueId} {e : Edge}
    (he : e ∈ g.transferEdges ir calls v) : g.Fits e := by
  unfold transferEdges at he
  split at he
  · rcases List.mem_append.mp he with he | he
    · exact fits_of_join he [.intraBlock, .call] [.intraBlock, .return] (fun _ => isAt_start)
        (fun _ => isAt_end) (by decide)
    · obtain ⟨f, _, he⟩ := List.mem_flatMap.mp he
      exact fits_calleeEdges he
  · refine fits_of_join he [.intraBlock, .return] [.funExit] (fun _ => isAt_end) ?_ (by decide)
    intro l hl
    obtain ⟨f, _, hf⟩ := Option.bind_eq_some_iff.mp hl
    exact isAt_exit hf
  · cases he

theorem fits_rootEdges {ir : Ir} {calls : CallGraph} {e : Edge}
    (hglobal : g.node? globalBlock = some globalNode) (he : e ∈ g.rootEdges ir calls) :
    g.Fits e := by
  obtain ⟨f, _, he⟩ := List.mem_flatMap.mp he
  refine fits_of_join he [.globalBlock] [.funEntry] ?_ (fun _ => isAt_entry) (by decide)
  intro l hl
  cases hl
  exact ⟨globalNode, hglobal, by simp [globalNode]⟩

end

/-- All edges of a control-flow graph fit, and none is there twice. -/
theorem edges_of_ofIr {ir : Ir} {calls : CallGraph} {flow : ValueFlow} {g : ControlFlow}
    (h : ofIr ir calls flow = .ok g) : g.edges.Nodup ∧ ∀ e ∈ g.edges, g.Fits e := by
  unfold ofIr at h
  split at h
  · cases h
  · cases h
    refine ⟨Graph.nodup_addEdges List.nodup_nil, ?_⟩
    intro e he
    obtain ⟨he, _⟩ := (Graph.mem_addEdges.mp he).resolve_left List.not_mem_nil
    -- The kinds are those of the graph before it has edges, which has the same nodes.
    change (ControlFlow.mk (nodesOf ir).toArray [] []).Fits e
    simp only [List.mem_append, List.mem_flatMap] at he
    rcases he with ((⟨f, _, he⟩ | ⟨b, _, he⟩) | ⟨v, _, he⟩) | he
    · exact fits_functionEdges he
    · exact fits_successorEdges he
    · exact fits_transferEdges he
    · exact fits_rootEdges rfl he

/-- Two edges between the same nodes are the same edge. -/
theorem Fits.eq_of_ends {g : ControlFlow} {e f : Edge} (he : g.Fits e) (hf : g.Fits f)
    (hs : e.source = f.source) (ht : e.target = f.target) : e = f := by
  obtain ⟨a, b, ha, hb, hk⟩ := he
  obtain ⟨a', b', ha', hb', hk'⟩ := hf
  rw [hs, ha'] at ha
  rw [ht, hb'] at hb
  cases ha
  cases hb
  obtain ⟨source, target, kind⟩ := e
  obtain ⟨source', target', kind'⟩ := f
  simp only at hs ht hk hk'
  rw [hs, ht, hk, hk']

theorem nodup_predecessors {ir : Ir} {calls : CallGraph} {flow : ValueFlow} {g : ControlFlow}
    (h : ofIr ir calls flow = .ok g) (l : LocationId) : (g.predecessors l).Nodup := by
  obtain ⟨hnodup, hfits⟩ := edges_of_ofIr h
  refine List.Nodup.map_on ?_ (hnodup.filter _)
  intro e he f hf hs
  simp only [List.mem_filter, Bool.and_true, beq_iff_eq] at he hf
  exact (hfits e he.1).eq_of_ends (hfits f hf.1) hs (he.2.trans hf.2.symm)

end PointerTriage.ControlFlow
