import PointerTriage.Proofs.Graph.Reachability
import PointerTriage.Proofs.Sets
import PointerTriage.Proofs.ValueFlow.Definitions
import PointerTriage.Taint.Propagate

namespace PointerTriage.Taint

section

variable (c : Context) (nodes : NodeId → Prop) (objects : ObjectId → Prop)

/-- A node of the set defines the value. -/
def Reached (v : ValueId) : Prop := ∃ n, c.def? v = some n ∧ nodes n

/-- Reached itself, or a pointer to an object of the set. -/
def Carried (v : ValueId) : Prop := Reached c nodes v ∨ ∃ o ∈ c.pointsTo.objects v, objects o

/-- The set holds the node that defines the value, if there is one. -/
def HoldsNode (v : ValueId) : Prop := ∀ n, c.def? v = some n → nodes n

/-- The set holds everything the value may point to. -/
def HoldsObjects (v : ValueId) : Prop := ∀ o ∈ c.pointsTo.objects v, objects o

/-- A call of an input function fills its arguments from some position on, unless they are fixed. -/
inductive Filled : ValueId → Prop where
  | mk {site : ValueId} {name : String} {f : Settings.InputFunction} {i : Nat} {a : ValueId}
      (site_mem : site ∈ c.calls.sites) (callee : name ∈ c.calleeNames site)
      (input : c.settings.taint.findInput? name = some f) (from_start : f.argStart ≤ i)
      (argument : (c.calls.arguments site)[i]? = some a) (runtime : c.ir.isRuntime a = true) :
      Filled a

/-- The values that are untrusted from the start. -/
inductive Source : ValueId → Prop where
  | entry {f : Function} {v : ValueId}
      (named : c.ir.functionNamed? c.settings.taint.entry = some f) (param : v ∈ f.params) : Source v
  | filled {a : ValueId} (h : Filled c a) : Source a
  | result {site : ValueId} {name : String} {f : Settings.InputFunction}
      (site_mem : site ∈ c.calls.sites) (callee : name ∈ c.calleeNames site)
      (input : c.settings.taint.findInput? name = some f) (returns : f.taintReturn = true) :
      Source site

/-- A set of nodes and a set of objects that no rule leads out of. -/
structure Closed : Prop where
  source : ∀ v, Source c v → HoldsNode c nodes v
  filled : ∀ v, Filled c v → HoldsObjects c objects v
  site : ∀ o, objects o → ∀ v, c.pointsTo.site? o = some v → HoldsNode c nodes v
  flow : ∀ e ∈ c.flow.edges, nodes e.source → nodes e.target
  store : ∀ n v p, nodes n → c.flow.node? n = some ⟨.store, v⟩ → c.ir.operand? v 1 = some p →
    HoldsNode c nodes p ∧ HoldsObjects c objects p
  load : ∀ n v p, nodes n → c.flow.node? n = some ⟨.load, v⟩ → c.ir.operand? v 0 = some p →
    HoldsObjects c objects p
  copy : ∀ site ∈ c.calls.sites, ∀ name ∈ c.calleeNames site,
    ∀ f, c.settings.taint.findCopy? name = some f →
    ∀ src dst, (c.calls.arguments site)[f.srcArg]? = some src →
      (c.calls.arguments site)[f.dstArg]? = some dst → Carried c nodes objects src →
      HoldsNode c nodes dst ∧ HoldsObjects c objects dst
  call : ∀ site ∈ c.calls.sites, ∀ a ∈ c.calls.arguments site, Reached c nodes a →
    HoldsNode c nodes site
  addr : ∀ n v value, c.flow.node? n = some ⟨.addr, v⟩ → c.ir.value? v = some value →
    ∀ a ∈ value.operands, Reached c nodes a → nodes n
  gep : ∀ n v value, c.flow.node? n = some ⟨.gep, v⟩ → c.ir.value? v = some value →
    ∀ a ∈ value.operands, Reached c nodes a →
    ∀ base, value.operands.head? = some base → HoldsObjects c objects base

end

/-- Edges lead to nodes, and a node is found by its value. -/
structure Regular (c : Context) : Prop where
  target : ∀ e ∈ c.flow.edges, e.target < c.flow.nodes.size
  distinct : c.flow.Distinct

def Fact.In (nodes : NodeId → Prop) (objects : ObjectId → Prop) : Fact → Prop
  | .node n => nodes n
  | .object o => objects o

variable {c : Context} {nodes : NodeId → Prop} {objects : ObjectId → Prop}

theorem mem_objectFacts {v : ValueId} {f : Fact} :
    f ∈ objectFacts c v ↔ ∃ o ∈ c.pointsTo.objects v, f = .object o := by
  simp [objectFacts, IdSet.mem_def, eq_comm]

theorem mem_successors {n m : NodeId} :
    m ∈ c.flow.successors .all n ↔ ∃ e ∈ c.flow.edges, e.source = n ∧ e.target = m := by
  simp [ValueFlow.successors, Graph.mem_outOf, ValueFlow.EdgeFilter.admits]

theorem HoldsObjects.facts {v : ValueId} (h : HoldsObjects c objects v) :
    ∀ f ∈ objectFacts c v, f.In nodes objects := by
  intro f hf
  obtain ⟨o, ho, rfl⟩ := mem_objectFacts.mp hf
  exact h o ho

theorem HoldsNode.facts {v : ValueId} (h : HoldsNode c nodes v) :
    ∀ f ∈ (c.def? v).toList.map Fact.node, f.In nodes objects := by
  intro f hf
  obtain ⟨n, hn, rfl⟩ := List.mem_map.mp hf
  exact h n (Option.mem_toList.mp hn)

theorem Closed.memoryFacts (h : Closed c nodes objects) {n : NodeId} {node : ValueFlow.Node}
    (hn : nodes n) (hnode : c.flow.node? n = some node) :
    ∀ f ∈ memoryFacts c node, f.In nodes objects := by
  obtain ⟨kind, v⟩ := node
  intro f hf
  unfold Taint.memoryFacts at hf
  split at hf
  · rename_i hk
    cases hk
    split at hf
    · rename_i p hp
      obtain ⟨hnode', hobj⟩ := h.store n v p hn hnode hp
      rcases List.mem_append.mp hf with hf | hf
      · exact hnode'.facts f hf
      · exact hobj.facts f hf
    · exact absurd hf List.not_mem_nil
  · rename_i hk
    cases hk
    cases hp : c.ir.operand? v 0 with
    | none => simp [hp] at hf
    | some p =>
      simp only [hp, Option.map_some, Option.getD_some] at hf
      exact (h.load n v p hn hnode hp).facts f hf
  · exact absurd hf List.not_mem_nil

/-- What follows from a fact of a closed pair is in the pair. -/
theorem Closed.consequences (h : Closed c nodes objects) (f : Fact) (hf : f.In nodes objects) :
    ∀ g ∈ consequences c f, g.In nodes objects := by
  intro g hg
  cases f with
  | node n =>
    rcases List.mem_append.mp hg with hg | hg
    · obtain ⟨m, hm, rfl⟩ := List.mem_map.mp hg
      obtain ⟨e, he, rfl, rfl⟩ := mem_successors.mp hm
      exact h.flow e he hf
    · cases hnode : c.flow.node? n with
      | none => simp [hnode] at hg
      | some node =>
        simp only [hnode, Option.map_some, Option.getD_some] at hg
        exact h.memoryFacts hf hnode g hg
  | object o =>
    cases hv : c.pointsTo.site? o with
    | none => simp [Taint.consequences, hv] at hg
    | some v =>
      simp only [Taint.consequences, hv, Option.bind_some] at hg
      exact HoldsNode.facts (h.site o hf v hv) g hg

namespace State

/-- Every fact of the state, pending ones included, is in the pair. -/
structure Within (s : State) (nodes : NodeId → Prop) (objects : ObjectId → Prop) : Prop where
  node : ∀ n ∈ s.nodes, nodes n
  pending : ∀ n ∈ s.pending, nodes n
  object : ∀ o ∈ s.objects, objects o

theorem mem_facts {s : State} {f : Fact} :
    f ∈ s.facts ↔ (∃ n, (n ∈ s.nodes ∨ n ∈ s.pending) ∧ f = .node n) ∨
      ∃ o ∈ s.objects, f = .object o := by
  simp only [facts, List.mem_append, List.mem_map, IdSet.mem_def]
  grind

theorem mem_drain_nodes {s : State} {n : NodeId} :
    n ∈ (s.drain c).nodes ↔ .node n ∈ Graph.reach (consequences c) (possible c) s.facts := by
  simp only [drain, IdSet.mem_ofList, List.mem_filterMap]
  constructor
  · intro hex
    obtain ⟨f, hf, hn⟩ := hex
    cases f with
    | node m => cases hn; exact hf
    | object o => cases hn
  · intro h
    exact ⟨.node n, h, rfl⟩

theorem mem_drain_objects {s : State} {o : ObjectId} :
    o ∈ (s.drain c).objects ↔ .object o ∈ Graph.reach (consequences c) (possible c) s.facts := by
  simp only [drain, IdSet.mem_ofList, List.mem_filterMap]
  constructor
  · intro hex
    obtain ⟨f, hf, ho⟩ := hex
    cases f with
    | node n => cases ho
    | object p => cases ho; exact hf
  · intro h
    exact ⟨.object o, h, rfl⟩

theorem isTainted_iff {s : State} {v : ValueId} :
    s.isTainted c v = true ↔ Reached c (· ∈ s.nodes) v := by
  simp [isTainted, Reached, Option.any_eq_true]

theorem carries_iff {s : State} {v : ValueId} :
    s.carries c v = true ↔ Carried c (· ∈ s.nodes) (· ∈ s.objects) v := by
  simp only [carries, Bool.or_eq_true, isTainted_iff, IdSet.meets_iff, Carried]

theorem Within.reached {s : State} (hw : s.Within nodes objects) {v : ValueId}
    (h : s.isTainted c v = true) : Reached c nodes v := by
  obtain ⟨n, hn, hm⟩ := isTainted_iff.mp h
  exact ⟨n, hn, hw.node n hm⟩

theorem Within.carried {s : State} (hw : s.Within nodes objects) {v : ValueId}
    (h : s.carries c v = true) : Carried c nodes objects v := by
  rcases carries_iff.mp h with ⟨n, hn, hm⟩ | ⟨o, ho, hm⟩
  · exact .inl ⟨n, hn, hw.node n hm⟩
  · exact .inr ⟨o, ho, hw.object o hm⟩

theorem Within.push {s : State} (hw : s.Within nodes objects) {v : ValueId}
    (h : HoldsNode c nodes v) : (s.push (c.def? v)).Within nodes objects := by
  refine ⟨hw.node, ?_, hw.object⟩
  intro n hn
  rcases List.mem_append.mp hn with hn | hn
  · exact hw.pending n hn
  · exact h n (Option.mem_toList.mp hn)

theorem Within.taintObjects {s : State} (hw : s.Within nodes objects) {v : ValueId}
    (h : HoldsObjects c objects v) : (s.taintObjects c v).Within nodes objects := by
  refine ⟨hw.node, hw.pending, ?_⟩
  intro o ho
  rcases IdSet.mem_union.mp ho with ho | ho
  · exact hw.object o ho
  · exact h o ho

theorem Within.drain {s : State} (hw : s.Within nodes objects) (h : Closed c nodes objects) :
    (s.drain c).Within nodes objects := by
  have hall : ∀ f ∈ Graph.reach (consequences c) (possible c) s.facts, f.In nodes objects := by
    refine Graph.reach_induction ?_ fun f hf g hg _ => h.consequences f hf g hg
    intro f hf _
    rcases mem_facts.mp hf with ⟨n, hn | hn, rfl⟩ | ⟨o, ho, rfl⟩
    · exact hw.node n hn
    · exact hw.pending n hn
    · exact hw.object o ho
  refine ⟨fun n hn => hall _ (mem_drain_nodes.mp hn), ?_, fun o ho => hall _ (mem_drain_objects.mp ho)⟩
  intro n hn
  exact absurd hn List.not_mem_nil

theorem Within.foldl {α : Type} {f : State → α → State} {as : List α} {s : State}
    (hw : s.Within nodes objects)
    (hf : ∀ t : State, t.Within nodes objects → ∀ a ∈ as, (f t a).Within nodes objects) :
    (as.foldl f s).Within nodes objects :=
  List.foldlRecOn (motive := fun t => t.Within nodes objects) as f hw hf

theorem Within.copyArguments {s : State} (hw : s.Within nodes objects)
    (h : Closed c nodes objects) {site : ValueId} (hs : site ∈ c.calls.sites) {name : String}
    (hn : name ∈ c.calleeNames site) :
    (s.copyArguments c (c.calls.arguments site) name).Within nodes objects := by
  unfold State.copyArguments
  split
  · exact hw
  · rename_i f hf
    split
    · rename_i src dst hsrc hdst
      split
      · rename_i hc
        obtain ⟨hnode, hobj⟩ := h.copy site hs name hn f hf src dst hsrc hdst (hw.carried hc)
        exact (hw.push hnode).taintObjects hobj
      · exact hw
    · exact hw

theorem Within.applyCall {s : State} (hw : s.Within nodes objects) (h : Closed c nodes objects)
    {site : ValueId} (hs : site ∈ c.calls.sites) : (s.applyCall c site).Within nodes objects := by
  have hcopy : ((c.calleeNames site).foldl (State.copyArguments c (c.calls.arguments site)) s).Within
      nodes objects :=
    hw.foldl fun _ hw _ hn => hw.copyArguments h hs hn
  unfold State.applyCall
  dsimp only
  split
  · rename_i ha
    obtain ⟨a, ha, ht⟩ := List.any_eq_true.mp ha
    exact hcopy.push (h.call site hs a ha (hcopy.reached ht))
  · exact hcopy

theorem Within.applyNode {s : State} (hw : s.Within nodes objects) (hr : Regular c)
    (h : Closed c nodes objects) {node : ValueFlow.Node} (hn : node ∈ c.flow.nodes.toList) :
    (s.applyNode c node).Within nodes objects := by
  obtain ⟨n, hn⟩ := List.mem_iff_getElem?.mp hn
  have hnode : c.flow.node? n = some node := by simpa [ValueFlow.node?] using hn
  obtain ⟨kind, v⟩ := node
  unfold State.applyNode
  dsimp only
  split
  · rename_i ha
    obtain ⟨a, ha, ht⟩ := List.any_eq_true.mp ha
    cases hv : c.ir.value? v with
    | none => simp [hv] at ha
    | some value =>
      simp only [hv, Option.map_some, Option.getD_some] at ha ⊢
      split
      · refine hw.push ?_
        intro m hm
        have hm : c.flow.def? v = some m := hm
        rw [hr.distinct.def?_of_node hnode] at hm
        cases hm
        exact h.addr n v value hnode hv a ha (hw.reached ht)
      · split
        · rename_i base hb
          exact hw.taintObjects (h.gep n v value hnode hv a ha (hw.reached ht) base hb)
        · exact hw
      · exact hw
  · exact hw

/-- A round stays inside every closed pair that holds what it starts from. -/
theorem Within.round {s : State} (hw : s.Within nodes objects) (hr : Regular c)
    (h : Closed c nodes objects) : (s.round c).Within nodes objects := by
  have hcalls : (c.calls.sites.foldl (State.applyCall c) (s.drain c)).Within nodes objects :=
    (hw.drain h).foldl fun _ hw _ hs => hw.applyCall h hs
  exact ((hcalls.drain h).foldl fun _ hw _ hn => hw.applyNode hr h hn).drain h

/-- Rounds that do the same and leave the same room give the same run. -/
theorem saturate_congr {c' : Context} (hround : ∀ s : State, s.round c' = s.round c)
    (hroom : ∀ s : State, s.room c' = s.room c) (s : State) : saturate c' s = saturate c s := by
  fun_induction saturate c s with
  | case1 s s' hlt t growth heq ih =>
    rw [saturate, hround, hroom, hroom, if_pos hlt, ih, heq]
  | case2 s s' hge =>
    rw [saturate, hround, hroom, hroom, if_neg hge]

end State

/-- The propagation is given by its rounds, its seeds and the kinds of the nodes. -/
theorem run_congr {c' : Context} (hround : ∀ s : State, s.round c' = s.round c)
    (hroom : ∀ s : State, s.room c' = s.room c) (hnodes : seedNodes c' = seedNodes c)
    (hobjects : seedObjects c' = seedObjects c) (hkind : c'.flow.kind? = c.flow.kind?) :
    run c' = run c := by
  unfold run
  simp only [State.saturate_congr hround hroom, hnodes, hobjects, hkind]

/-- Of the settings, the propagation looks at its own stage only. -/
theorem run_of_same_stage (c : Context) {s : Settings} (h : s.taint = c.settings.taint) :
    run { c with settings := s } = run c := by
  obtain ⟨program, pointsTo, calls, ⟨⟨_, taint, _, _, _⟩, _⟩⟩ := c
  obtain ⟨⟨_, taint', _, _, _⟩, _⟩ := s
  change taint' = taint at h
  subst h
  exact run_congr (fun _ => rfl) (fun _ => rfl) rfl rfl rfl

/-- Where the rounds start. -/
def start (c : Context) : State := ⟨∅, .ofList (seedObjects c), seedNodes c⟩

theorem mem_inputCalls {site : ValueId} {f : Settings.InputFunction} :
    (site, f) ∈ inputCalls c ↔ site ∈ c.calls.sites ∧
      ∃ name ∈ c.calleeNames site, c.settings.taint.findInput? name = some f := by
  simp only [inputCalls, List.mem_flatMap, List.mem_map, List.mem_filterMap, Prod.mk.injEq]
  grind

theorem filled_iff {a : ValueId} :
    Filled c a ↔ ∃ call ∈ inputCalls c, a ∈ inputArguments c call := by
  constructor
  · rintro @⟨site, name, f, i, a, site_mem, callee, input, from_start, argument, runtime⟩
    refine ⟨(site, f), mem_inputCalls.mpr ⟨site_mem, name, callee, input⟩, ?_⟩
    refine List.mem_filter.mpr ⟨List.mem_iff_getElem?.mpr ⟨i - f.argStart, ?_⟩, runtime⟩
    rw [List.getElem?_drop, Nat.add_sub_cancel' from_start]
    exact argument
  · intro hex
    obtain ⟨⟨site, f⟩, hcall, ha⟩ := hex
    obtain ⟨site_mem, name, callee, input⟩ := mem_inputCalls.mp hcall
    obtain ⟨hdrop, runtime⟩ := List.mem_filter.mp ha
    obtain ⟨i, hi⟩ := List.mem_iff_getElem?.mp hdrop
    rw [List.getElem?_drop] at hi
    exact .mk site_mem callee input (Nat.le_add_right _ _) hi runtime

theorem mem_sources_iff {v : ValueId} : v ∈ sources c ↔ Source c v := by
  simp only [sources, List.mem_append, List.mem_flatMap]
  constructor
  · intro hor
    rcases hor with hv | ⟨⟨site, f⟩, hcall, hv | hv⟩
    · cases hf : c.ir.functionNamed? c.settings.taint.entry with
      | none => simp [entryParams, hf] at hv
      | some f => exact .entry hf (by simpa [entryParams, hf] using hv)
    · exact .filled (filled_iff.mpr ⟨_, hcall, hv⟩)
    · obtain ⟨site_mem, name, callee, input⟩ := mem_inputCalls.mp hcall
      cases hr : f.taintReturn with
      | false => simp [hr] at hv
      | true =>
        rw [show v = site by simpa [hr] using hv]
        exact .result site_mem callee input hr
  · intro h
    cases h with
    | entry named param => exact .inl (by simpa [entryParams, named] using param)
    | filled h =>
      obtain ⟨call, hcall, ha⟩ := filled_iff.mp h
      exact .inr ⟨call, hcall, .inl ha⟩
    | result site_mem callee input returns =>
      exact .inr ⟨_, mem_inputCalls.mpr ⟨site_mem, _, callee, input⟩, .inr (by simp [returns])⟩

theorem mem_seedNodes {n : NodeId} : n ∈ seedNodes c ↔ ∃ v, Source c v ∧ c.def? v = some n := by
  simp only [seedNodes, List.mem_filterMap, mem_sources_iff]

theorem mem_seedObjects {o : ObjectId} :
    o ∈ seedObjects c ↔ ∃ v, Filled c v ∧ o ∈ c.pointsTo.objects v := by
  simp only [seedObjects, List.mem_flatMap, filled_iff, IdSet.mem_def]

theorem start_within (h : Closed c nodes objects) : (start c).Within nodes objects := by
  refine ⟨fun n hn => absurd hn (IdSet.not_mem_empty n), ?_, ?_⟩
  · intro n hn
    obtain ⟨v, hv, hd⟩ := mem_seedNodes.mp hn
    exact h.source v hv n hd
  · intro o ho
    obtain ⟨v, hv, ho⟩ := mem_seedObjects.mp (IdSet.mem_ofList.mp ho)
    exact h.filled v hv o ho

end PointerTriage.Taint
