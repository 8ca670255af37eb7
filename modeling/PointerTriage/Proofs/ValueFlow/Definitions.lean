import PointerTriage.Proofs.Graph.Edges
import PointerTriage.Proofs.Ir.Sound
import PointerTriage.ValueFlow.Build

namespace PointerTriage

namespace ValueFlow

/-- No two nodes define the same value. -/
def Distinct (g : ValueFlow) : Prop := g.nodes.toList.Pairwise (·.value ≠ ·.value)

theorem lt_of_def? {g : ValueFlow} {v : ValueId} {n : NodeId} (h : g.def? v = some n) :
    n < g.nodes.size := by
  obtain ⟨hn, _⟩ := Array.findIdx?_eq_some_iff_getElem.mp h
  exact hn

theorem value?_of_def? {g : ValueFlow} {v : ValueId} {n : NodeId} (h : g.def? v = some n) :
    g.value? n = some v := by
  obtain ⟨hn, hv, _⟩ := Array.findIdx?_eq_some_iff_getElem.mp h
  simpa [value?, node?, hn] using hv

/-- A node defines one value. -/
theorem eq_of_def? {g : ValueFlow} {v w : ValueId} {n : NodeId} (hv : g.def? v = some n)
    (hw : g.def? w = some n) : v = w := by
  have hvalue := value?_of_def? hv
  rw [value?_of_def? hw] at hvalue
  exact (Option.some.inj hvalue).symm

theorem Distinct.def?_of_node {g : ValueFlow} (hd : g.Distinct) {n : NodeId} {node : Node}
    (h : g.node? n = some node) : g.def? node.value = some n := by
  obtain ⟨hn, he⟩ := Array.getElem?_eq_some_iff.mp h
  refine Array.findIdx?_eq_some_iff_getElem.mpr ⟨hn, by simp [he], ?_⟩
  intro j hj
  have hne := List.pairwise_iff_getElem.mp hd j n (by simpa using Nat.lt_trans hj hn)
    (by simpa using hn) hj
  simpa [← he] using hne

theorem mem_link {g : ValueFlow} {kind : EdgeKind} {a b : ValueId} {e : Edge} :
    e ∈ g.link kind a b ↔
      g.def? a = some e.source ∧ g.def? b = some e.target ∧ e.kind = kind := by
  unfold link
  obtain ⟨source, target, k⟩ := e
  split
  · rename_i ha hb
    simp [ha, hb, eq_comm]
  · rename_i h
    simp only [List.not_mem_nil, false_iff]
    intro hex
    obtain ⟨ha, hb, _⟩ := hex
    exact h _ _ ha hb

/-- The graph before it has edges. -/
def unlinked (ir : Ir) (allocators : List String) : ValueFlow := ⟨(nodesOf ir allocators).toArray, []⟩

/-- The edges that a program asks for. -/
def requested (ir : Ir) (host : HostFacts) (pointsTo : PointsTo) (calls : CallGraph) : List Edge :=
  let g := unlinked ir host.allocators
  ir.values.flatMap (g.directEdges ir host.allocators calls) ++ g.memoryEdges ir pointsTo ++
    host.flows.flatMap fun (a, b) => g.link .indirect a b

theorem foldl_addNode (g : ValueFlow) (nodes : List Node) :
    nodes.foldl addNode g = ⟨g.nodes ++ nodes.toArray, g.edges⟩ := by
  induction nodes generalizing g with
  | nil => simp
  | cons n nodes ih =>
    rw [List.foldl_cons, ih]
    simp [addNode]

theorem foldl_addEdge (g : ValueFlow) (edges : List Edge) :
    edges.foldl addEdge g = { g with edges := Graph.addEdges g.nodes.size g.edges edges } := by
  induction edges generalizing g with
  | nil => rfl
  | cons e edges ih => simp [ih, addEdge, Graph.addEdges]

section

variable {ir : Ir} {host : HostFacts} {pointsTo : PointsTo} {calls : CallGraph}

theorem ofIr_eq : ofIr ir host pointsTo calls =
    { unlinked ir host.allocators with
      edges := Graph.addEdges (unlinked ir host.allocators).nodes.size []
        (requested ir host pointsTo calls) } := by
  have hg : (nodesOf ir host.allocators).foldl addNode empty = unlinked ir host.allocators := by
    simp [foldl_addNode, empty, unlinked]
  simp only [ofIr, hg, foldl_addEdge, requested]
  rfl

theorem def?_ofIr (v : ValueId) :
    (ofIr ir host pointsTo calls).def? v = (unlinked ir host.allocators).def? v := by
  rw [ofIr_eq]
  rfl

theorem node?_ofIr (n : NodeId) :
    (ofIr ir host pointsTo calls).node? n = (nodesOf ir host.allocators)[n]? := by
  rw [ofIr_eq]
  simp [node?, unlinked]

theorem edge_in_range {e : Edge} (h : e ∈ (ofIr ir host pointsTo calls).edges) :
    e.source < (ofIr ir host pointsTo calls).nodes.size ∧
      e.target < (ofIr ir host pointsTo calls).nodes.size := by
  rw [ofIr_eq] at h ⊢
  rcases Graph.mem_addEdges.mp h with h | ⟨_, h⟩
  · exact absurd h List.not_mem_nil
  · exact h

/-- A link that was asked for is an edge: its ends are known nodes. -/
theorem mem_edges_of_link {kind : EdgeKind} {a b : ValueId} {e : Edge}
    (hr : e ∈ requested ir host pointsTo calls)
    (hl : e ∈ (unlinked ir host.allocators).link kind a b) :
    e ∈ (ofIr ir host pointsTo calls).edges := by
  obtain ⟨ha, hb, _⟩ := mem_link.mp hl
  rw [ofIr_eq]
  exact Graph.mem_addEdges.mpr (.inr ⟨hr, lt_of_def? ha, lt_of_def? hb⟩)

end

end ValueFlow

namespace Tables.Sound

variable {ir : Ir} (hs : ir.tables.Sound)
include hs

theorem id_of_value? {v : ValueId} {value : Value} (h : ir.value? v = some value) : value.id = v :=
  hs.value v value h

theorem value?_of_mem {value : Value} (h : value ∈ ir.values) :
    ir.value? value.id = some value := by
  obtain ⟨i, hi⟩ := List.mem_iff_getElem?.mp h
  have hi : ir.value? i = some value := by simpa [Ir.values, Ir.value?] using hi
  rwa [hs.id_of_value? hi]

/-- Values of one id are the same. -/
theorem eq_of_id {v w : Value} (hv : v ∈ ir.values) (hw : w ∈ ir.values) (h : v.id = w.id) :
    v = w := by
  have hvalue := hs.value?_of_mem hv
  rw [h, hs.value?_of_mem hw] at hvalue
  exact (Option.some.inj hvalue).symm

theorem opcode?_of_mem {v : Value} (hv : v ∈ ir.values) : ir.opcode? v.id = v.opcode? := by
  rw [Ir.opcode?, hs.value?_of_mem hv, Option.bind_some]

theorem ids_ascending : ir.values.Pairwise (·.id < ·.id) := by
  refine List.pairwise_iff_getElem.mpr ?_
  intro i j hi hj hij
  have hid : ∀ k (hk : k < ir.values.length), (ir.values[k]).id = k := by
    intro k hk
    apply hs.id_of_value?
    simp [Ir.values, Ir.value?]
  rw [hid i hi, hid j hj]
  exact hij

end Tables.Sound

theorem Ir.mem_values {ir : Ir} {v : ValueId} {value : Value} (h : ir.value? v = some value) :
    value ∈ ir.values :=
  Array.mem_toList_iff.mpr (Array.mem_of_getElem? h)

namespace ValueFlow

variable {ir : Ir} {host : HostFacts} {pointsTo : PointsTo} {calls : CallGraph}

theorem mem_nodesOf {allocators : List String} {node : Node} :
    node ∈ nodesOf ir allocators ↔
      ∃ value ∈ ir.values, kindOf? ir allocators value = some node.kind ∧ value.id = node.value := by
  obtain ⟨kind, v⟩ := node
  simp only [nodesOf, List.mem_filterMap, Option.map_eq_some_iff, Node.mk.injEq]
  constructor
  · intro hex
    obtain ⟨value, hm, k, hk, rfl, hv⟩ := hex
    exact ⟨value, hm, hk, hv⟩
  · intro hex
    obtain ⟨value, hm, hk, hv⟩ := hex
    exact ⟨value, hm, kind, hk, rfl, hv⟩

/-- Nodes come in the order of their values, and ids are distinct. -/
theorem distinct_ofIr (hs : ir.tables.Sound) : (ofIr ir host pointsTo calls).Distinct := by
  rw [ofIr_eq]
  refine List.Pairwise.filterMap _ ?_ hs.ids_ascending
  intro v w hvw x hx y hy
  obtain ⟨_, _, rfl⟩ := Option.map_eq_some_iff.mp hx
  obtain ⟨_, _, rfl⟩ := Option.map_eq_some_iff.mp hy
  exact Nat.ne_of_lt hvw

theorem def?_of_kind (hs : ir.tables.Sound) {v : ValueId} {value : Value} {kind : NodeKind}
    (hv : ir.value? v = some value) (hk : kindOf? ir host.allocators value = some kind) :
    ∃ n, (ofIr ir host pointsTo calls).def? v = some n ∧
      (ofIr ir host pointsTo calls).node? n = some ⟨kind, v⟩ := by
  have hm : ⟨kind, v⟩ ∈ nodesOf ir host.allocators :=
    mem_nodesOf.mpr ⟨value, Ir.mem_values hv, hk, hs.id_of_value? hv⟩
  obtain ⟨n, hn⟩ := List.mem_iff_getElem?.mp hm
  have hnode : (ofIr ir host pointsTo calls).node? n = some ⟨kind, v⟩ := (node?_ofIr n).trans hn
  exact ⟨n, (distinct_ofIr hs).def?_of_node hnode, hnode⟩

end ValueFlow

/-- What hands out memory has a node that says so. -/
theorem kind_of_allocates {ir : Ir} (hs : ir.tables.Sound) {allocators : List String} {v : ValueId}
    (h : ir.allocates allocators v = true) :
    ∃ value, ir.value? v = some value ∧ ValueFlow.kindOf? ir allocators value = some .addr := by
  cases hv : ir.value? v with
  | none => simp [Ir.allocates, hv] at h
  | some value =>
    refine ⟨value, rfl, ?_⟩
    have hid := hs.id_of_value? hv
    have ha := h
    simp only [Ir.allocates, hv, Option.map_some] at ha
    unfold ValueFlow.kindOf?
    split at ha
    · rename_i hk
      rw [Option.some.inj hk]
    · rename_i hk
      rw [Option.some.inj hk]
    · rename_i hk
      rw [Option.some.inj hk]
      simp [hid, h]
    · cases ha

/-- Nothing else has such a node. -/
theorem allocates_of_kind {ir : Ir} {allocators : List String} {value : Value}
    (hv : ir.value? value.id = some value)
    (hk : ValueFlow.kindOf? ir allocators value = some .addr) :
    ir.allocates allocators value.id = true := by
  cases hkind : value.kind with
  | global shape constant => simp [Ir.allocates, hv, hkind]
  | instruction opcode block =>
    cases opcode with
    | alloca shape => simp [Ir.allocates, hv, hkind]
    | call callee => simpa [ValueFlow.kindOf?, hkind] using hk
    | _ => simp [ValueFlow.kindOf?, hkind] at hk
  | _ => simp [ValueFlow.kindOf?, hkind] at hk

theorem opcode_kind {v : Value} {opcode : Opcode} (ho : v.opcode? = some opcode) :
    ∃ block, v.kind = .instruction opcode block := by
  unfold Value.opcode? at ho
  split at ho
  · rename_i block hk
    cases ho
    exact ⟨block, hk⟩
  · cases ho

/-- All instructions but branches define something. -/
theorem kind_of_opcode (ir : Ir) (allocators : List String) {v : Value} {opcode : Opcode}
    (ho : v.opcode? = some opcode) (hb : opcode ≠ .branch) :
    ∃ kind, ValueFlow.kindOf? ir allocators v = some kind := by
  obtain ⟨block, hk⟩ := opcode_kind ho
  unfold ValueFlow.kindOf?
  rw [hk]
  cases opcode with
  | branch => exact absurd rfl hb
  | _ => exact ⟨_, rfl⟩

end PointerTriage
