import PointerTriage.Proofs.Program.Parts
import PointerTriage.Proofs.Saturation
import PointerTriage.Proofs.Taint.Rules

namespace PointerTriage.Taint

variable {c : Context} {nodes : NodeId → Prop} {objects : ObjectId → Prop}

theorem node_mem_possible {n : NodeId} : .node n ∈ possible c ↔ n < c.flow.nodes.size := by
  have ho : Fact.node n ∉ ((mentioned c).flatMap (objectFacts c)).eraseDups := by
    rw [List.mem_eraseDups]
    intro h
    obtain ⟨v, _, hv⟩ := List.mem_flatMap.mp h
    obtain ⟨o, _, he⟩ := mem_objectFacts.mp hv
    cases he
  simp [possible, ho, ValueFlow.nodeIds]

theorem object_mem_possible {o : ObjectId} :
    .object o ∈ possible c ↔ ∃ v ∈ mentioned c, o ∈ c.pointsTo.objects v := by
  simp [possible, mem_objectFacts]

theorem operand_mentioned {v : ValueId} {value : Value} (hv : c.ir.value? v = some value)
    {a : ValueId} (ha : a ∈ value.operands) : a ∈ mentioned c :=
  List.mem_append_left _ (List.mem_flatMap.mpr ⟨value, Ir.mem_values hv, ha⟩)

theorem operand?_mentioned {v p : ValueId} {i : Nat} (h : c.ir.operand? v i = some p) :
    p ∈ mentioned c := by
  obtain ⟨value, hv, hp⟩ := Option.bind_eq_some_iff.mp h
  exact operand_mentioned hv (List.mem_of_getElem? hp)

theorem argument_mentioned {site a : ValueId} (hs : site ∈ c.calls.sites)
    (ha : a ∈ c.calls.arguments site) : a ∈ mentioned c :=
  List.mem_append_right _ (List.mem_flatMap.mpr ⟨site, hs, ha⟩)

/-- No rule leads out of the facts that the search ranges over. -/
theorem possible_closed (hr : Regular c) :
    Closed c (fun n => .node n ∈ possible c) (fun o => .object o ∈ possible c) := by
  have hnode : ∀ v, HoldsNode c (fun n => .node n ∈ possible c) v :=
    fun v n hn => node_mem_possible.mpr (ValueFlow.lt_of_def? hn)
  have hobj : ∀ v ∈ mentioned c, HoldsObjects c (fun o => .object o ∈ possible c) v :=
    fun v hv o ho => object_mem_possible.mpr ⟨v, hv, ho⟩
  constructor
  case source => exact fun v _ => hnode v
  case filled =>
    rintro a ⟨site_mem, _, _, _, argument, _⟩
    exact hobj a (argument_mentioned site_mem (List.mem_of_getElem? argument))
  case site => exact fun _ _ v _ => hnode v
  case flow => exact fun e he _ => node_mem_possible.mpr (hr.target e he)
  case store => exact fun _ _ p _ _ hp => ⟨hnode p, hobj p (operand?_mentioned hp)⟩
  case load => exact fun _ _ p _ _ hp => hobj p (operand?_mentioned hp)
  case copy =>
    intro site hs _ _ f _ src dst _ hdst _
    exact ⟨hnode dst, hobj dst (argument_mentioned hs (List.mem_of_getElem? hdst))⟩
  case call => exact fun site _ _ _ _ => hnode site
  case addr =>
    intro n v value hn _ _ _ _
    exact node_mem_possible.mpr (Array.getElem?_eq_some_iff.mp hn).1
  case gep =>
    intro _ v value _ hv a _ _ base hb
    exact hobj base (operand_mentioned hv (List.mem_of_head? hb))

theorem in_possible_iff {f : Fact} :
    f.In (fun n => .node n ∈ possible c) (fun o => .object o ∈ possible c) ↔ f ∈ possible c := by
  cases f with
  | node n => exact Iff.rfl
  | object o => exact Iff.rfl

theorem possible_consequence (hr : Regular c) {f g : Fact} (hf : f ∈ possible c)
    (hg : g ∈ consequences c f) : g ∈ possible c :=
  in_possible_iff.mp ((possible_closed hr).consequences f (in_possible_iff.mpr hf) g hg)

namespace State

/-- Every fact of the state is one the search ranges over. -/
abbrev InRange (c : Context) (s : State) : Prop :=
  s.Within (fun n => .node n ∈ possible c) (fun o => .object o ∈ possible c)

/-- A pass adds to the pending nodes and the objects only. -/
structure Grows (s t : State) : Prop where
  nodes : t.nodes = s.nodes
  pending : ∀ n ∈ s.pending, n ∈ t.pending
  objects : ∀ o ∈ s.objects, o ∈ t.objects

theorem Grows.refl (s : State) : s.Grows s := ⟨rfl, fun _ h => h, fun _ h => h⟩

theorem Grows.trans {s t u : State} (h : s.Grows t) (h' : t.Grows u) : s.Grows u :=
  ⟨h'.nodes.trans h.nodes, fun n hn => h'.pending n (h.pending n hn),
    fun o ho => h'.objects o (h.objects o ho)⟩

theorem grows_push (s : State) (n : Option NodeId) : s.Grows (s.push n) :=
  ⟨rfl, fun _ h => List.mem_append_left _ h, fun _ h => h⟩

theorem grows_taintObjects (s : State) (v : ValueId) : s.Grows (s.taintObjects c v) :=
  ⟨rfl, fun _ h => h, fun _ h => IdSet.mem_union.mpr (.inl h)⟩

theorem grows_copyArguments (s : State) (arguments : List ValueId) (name : String) :
    s.Grows (s.copyArguments c arguments name) := by
  unfold copyArguments
  split
  · exact .refl s
  · split
    · split
      · exact (grows_push s _).trans (grows_taintObjects _ _)
      · exact .refl s
    · exact .refl s

theorem pass_visits {α : Type} {f : State → α → State}
    (hf : ∀ (s : State) (a : α), s.Grows (f s a)) (as : List α) (s : State) :
    s.Grows (as.foldl f s) ∧
      ∀ a ∈ as, ∃ t : State, s.Grows t ∧ (f t a).Grows (as.foldl f s) :=
  foldl_visits Grows.refl Grows.trans hf as s

theorem grows_applyCall (s : State) (site : ValueId) : s.Grows (s.applyCall c site) := by
  have hcopy := (pass_visits (fun s name => grows_copyArguments (c := c) s
    (c.calls.arguments site) name) (c.calleeNames site) s).1
  unfold applyCall
  dsimp only
  split
  · exact hcopy.trans (grows_push _ _)
  · exact hcopy

theorem grows_applyNode (s : State) (node : ValueFlow.Node) : s.Grows (s.applyNode c node) := by
  unfold applyNode
  dsimp only
  split
  · split
    · exact grows_push s _
    · split
      · exact grows_taintObjects s _
      · exact .refl s
    · exact .refl s
  · exact .refl s

end State

theorem Reached.mono {nodes' : NodeId → Prop} {v : ValueId} (h : Reached c nodes v)
    (hn : ∀ n, nodes n → nodes' n) : Reached c nodes' v := by
  obtain ⟨n, hd, hm⟩ := h
  exact ⟨n, hd, hn n hm⟩

theorem Carried.mono {nodes' : NodeId → Prop} {objects' : ObjectId → Prop} {v : ValueId}
    (h : Carried c nodes objects v) (hn : ∀ n, nodes n → nodes' n)
    (ho : ∀ o, objects o → objects' o) : Carried c nodes' objects' v := by
  rcases h with h | ⟨o, hm, h⟩
  · exact .inl (h.mono hn)
  · exact .inr ⟨o, hm, ho o h⟩

theorem HoldsNode.mono {nodes' : NodeId → Prop} {v : ValueId} (h : HoldsNode c nodes v)
    (hn : ∀ n, nodes n → nodes' n) : HoldsNode c nodes' v := fun n hd => hn n (h n hd)

theorem HoldsObjects.mono {objects' : ObjectId → Prop} {v : ValueId}
    (h : HoldsObjects c objects v) (ho : ∀ o, objects o → objects' o) :
    HoldsObjects c objects' v := fun o hm => ho o (h o hm)

namespace State

theorem push_holds (s : State) (v : ValueId) :
    HoldsNode c (· ∈ (s.push (c.def? v)).pending) v := by
  intro n hn
  exact List.mem_append_right _ (Option.mem_toList.mpr hn)

theorem taintObjects_holds (s : State) (v : ValueId) :
    HoldsObjects c (· ∈ (s.taintObjects c v).objects) v :=
  fun _ ho => IdSet.mem_union.mpr (.inr ho)

theorem copyArguments_holds (s : State) {arguments : List ValueId} {name : String}
    {f : Settings.CopyFunction} (hf : c.settings.taint.findCopy? name = some f) {src dst : ValueId}
    (hsrc : arguments[f.srcArg]? = some src) (hdst : arguments[f.dstArg]? = some dst)
    (hc : Carried c (· ∈ s.nodes) (· ∈ s.objects) src) :
    HoldsNode c (· ∈ (s.copyArguments c arguments name).pending) dst ∧
      HoldsObjects c (· ∈ (s.copyArguments c arguments name).objects) dst := by
  have hcarry : s.carries c src = true := carries_iff.mpr hc
  simp only [copyArguments, hf, hsrc, hdst, hcarry, if_true]
  exact ⟨push_holds s dst, taintObjects_holds _ dst⟩

/-- What a call with a tainted source does to the destination. -/
theorem applyCall_copies (s : State) {site : ValueId} {name : String}
    (hn : name ∈ c.calleeNames site) {f : Settings.CopyFunction}
    (hf : c.settings.taint.findCopy? name = some f) {src dst : ValueId}
    (hsrc : (c.calls.arguments site)[f.srcArg]? = some src)
    (hdst : (c.calls.arguments site)[f.dstArg]? = some dst)
    (hc : Carried c (· ∈ s.nodes) (· ∈ s.objects) src) :
    HoldsNode c (· ∈ (s.applyCall c site).pending) dst ∧
      HoldsObjects c (· ∈ (s.applyCall c site).objects) dst := by
  obtain ⟨t, hst, ht⟩ := (pass_visits (fun s name => grows_copyArguments (c := c) s
    (c.calls.arguments site) name) (c.calleeNames site) s).2 name hn
  obtain ⟨hnode, hobj⟩ := copyArguments_holds t hf hsrc hdst
    (hc.mono (fun n h => hst.nodes ▸ h) hst.objects)
  have hpass : ((c.calleeNames site).foldl (copyArguments c (c.calls.arguments site)) s).Grows
      (s.applyCall c site) := by
    unfold applyCall
    dsimp only
    split
    · exact grows_push _ _
    · exact .refl _
  have hall := ht.trans hpass
  exact ⟨hnode.mono hall.pending, hobj.mono hall.objects⟩

theorem applyCall_calls (s : State) {site a : ValueId} (ha : a ∈ c.calls.arguments site)
    (ht : Reached c (· ∈ s.nodes) a) : HoldsNode c (· ∈ (s.applyCall c site).pending) site := by
  have hgrow := (pass_visits (fun s name => grows_copyArguments (c := c) s
    (c.calls.arguments site) name) (c.calleeNames site) s).1
  have hany : (c.calls.arguments site).any (isTainted
      ((c.calleeNames site).foldl (copyArguments c (c.calls.arguments site)) s) c) = true :=
    List.any_eq_true.mpr ⟨a, ha, isTainted_iff.mpr (ht.mono fun n h => hgrow.nodes ▸ h)⟩
  simp only [applyCall, hany, if_true]
  exact push_holds _ site

theorem applyNode_addr (s : State) {v a : ValueId} {value : Value}
    (hv : c.ir.value? v = some value) (ha : a ∈ value.operands)
    (ht : Reached c (· ∈ s.nodes) a) :
    HoldsNode c (· ∈ (s.applyNode c ⟨.addr, v⟩).pending) v := by
  have hany : value.operands.any (s.isTainted c) = true :=
    List.any_eq_true.mpr ⟨a, ha, isTainted_iff.mpr ht⟩
  simp only [applyNode, hv, Option.map_some, Option.getD_some, hany, if_true]
  exact push_holds s v

theorem applyNode_gep (s : State) {v a base : ValueId} {value : Value}
    (hv : c.ir.value? v = some value) (ha : a ∈ value.operands)
    (ht : Reached c (· ∈ s.nodes) a) (hb : value.operands.head? = some base) :
    HoldsObjects c (· ∈ (s.applyNode c ⟨.gep, v⟩).objects) base := by
  have hany : value.operands.any (s.isTainted c) = true :=
    List.any_eq_true.mpr ⟨a, ha, isTainted_iff.mpr ht⟩
  simp only [applyNode, hv, Option.map_some, Option.getD_some, hany, if_true, hb]
  exact taintObjects_holds s base

/-- The tainted facts of one state are among those of another. -/
structure Below (s t : State) : Prop where
  nodes : ∀ n ∈ s.nodes, n ∈ t.nodes
  objects : ∀ o ∈ s.objects, o ∈ t.objects

theorem Below.trans {s t u : State} (h : s.Below t) (h' : t.Below u) : s.Below u :=
  ⟨fun n hn => h'.nodes n (h.nodes n hn), fun o ho => h'.objects o (h.objects o ho)⟩

theorem Grows.below {s t : State} (h : s.Grows t) : s.Below t :=
  ⟨fun _ hn => h.nodes ▸ hn, h.objects⟩

theorem mem_possible_of_facts {s : State} (hs : s.InRange c) {f : Fact} (hf : f ∈ s.facts) :
    f ∈ possible c := by
  rcases mem_facts.mp hf with ⟨n, hn | hn, rfl⟩ | ⟨o, ho, rfl⟩
  · exact hs.node n hn
  · exact hs.pending n hn
  · exact hs.object o ho

theorem below_drain {s : State} (hs : s.InRange c) : s.Below (s.drain c) := by
  constructor
  · intro n hn
    have hf : Fact.node n ∈ s.facts := mem_facts.mpr (.inl ⟨n, .inl hn, rfl⟩)
    exact mem_drain_nodes.mpr (Graph.seed_mem_reach hf (mem_possible_of_facts hs hf))
  · intro o ho
    have hf : Fact.object o ∈ s.facts := mem_facts.mpr (.inr ⟨o, ho, rfl⟩)
    exact mem_drain_objects.mpr (Graph.seed_mem_reach hf (mem_possible_of_facts hs hf))

theorem pending_drain {s : State} (hs : s.InRange c) : ∀ n ∈ s.pending, n ∈ (s.drain c).nodes := by
  intro n hn
  have hf : Fact.node n ∈ s.facts := mem_facts.mpr (.inl ⟨n, .inr hn, rfl⟩)
  exact mem_drain_nodes.mpr (Graph.seed_mem_reach hf (mem_possible_of_facts hs hf))

theorem in_drain_iff {s : State} {f : Fact} :
    f.In (· ∈ (s.drain c).nodes) (· ∈ (s.drain c).objects) ↔
      f ∈ Graph.reach (consequences c) (possible c) s.facts := by
  cases f with
  | node n => exact mem_drain_nodes
  | object o => exact mem_drain_objects

/-- After draining, what follows from a tainted fact is tainted. -/
theorem drain_consequences (hr : Regular c) {s : State} (hs : s.InRange c) {f g : Fact}
    (hf : f.In (· ∈ (s.drain c).nodes) (· ∈ (s.drain c).objects)) (hg : g ∈ consequences c f) :
    g.In (· ∈ (s.drain c).nodes) (· ∈ (s.drain c).objects) := by
  have hw := hs.drain (possible_closed hr)
  have hin : f ∈ possible c := by
    cases f with
    | node n => exact hw.node n hf
    | object o => exact hw.object o hf
  exact in_drain_iff.mpr (Graph.reach_closed (in_drain_iff.mp hf) hg (possible_consequence hr hin hg))

/-- The state after the pass over the calls. -/
def afterCalls (c : Context) (s : State) : State := c.calls.sites.foldl (applyCall c) (s.drain c)

/-- The state after the pass over the nodes. -/
def afterNodes (c : Context) (s : State) : State :=
  c.flow.nodes.toList.foldl (applyNode c) ((s.afterCalls c).drain c)

theorem InRange.afterCalls (hr : Regular c) {s : State} (hs : s.InRange c) :
    (s.afterCalls c).InRange c :=
  (hs.drain (possible_closed hr)).foldl fun _ hw _ hm => hw.applyCall (possible_closed hr) hm

theorem InRange.afterNodes (hr : Regular c) {s : State} (hs : s.InRange c) :
    (s.afterNodes c).InRange c :=
  ((InRange.afterCalls hr hs).drain (possible_closed hr)).foldl fun _ hw _ hm =>
    hw.applyNode hr (possible_closed hr) hm

theorem grows_afterCalls (s : State) : (s.drain c).Grows (s.afterCalls c) :=
  (pass_visits (fun s site => grows_applyCall s site) _ _).1

theorem grows_afterNodes (s : State) : ((s.afterCalls c).drain c).Grows (s.afterNodes c) :=
  (pass_visits (fun s node => grows_applyNode s node) _ _).1

/-- From the state after the calls to the end of the round. -/
theorem afterCalls_below_round (hr : Regular c) {s : State} (hs : s.InRange c) :
    ((s.afterCalls c).drain c).Below (s.round c) :=
  (grows_afterNodes s).below.trans (below_drain (InRange.afterNodes hr hs))

theorem drain_below_round (hr : Regular c) {s : State} (hs : s.InRange c) :
    (s.drain c).Below (s.round c) :=
  ((grows_afterCalls s).below.trans (below_drain (InRange.afterCalls hr hs))).trans
    (afterCalls_below_round hr hs)

theorem below_round (hr : Regular c) {s : State} (hs : s.InRange c) : s.Below (s.round c) :=
  (below_drain hs).trans (drain_below_round hr hs)

/-- All seeds are tainted or about to be. -/
structure Seeded (c : Context) (s : State) : Prop where
  nodes : ∀ n ∈ seedNodes c, n ∈ s.nodes ∨ n ∈ s.pending
  objects : ∀ o ∈ seedObjects c, o ∈ s.objects

theorem Seeded.drain {s : State} (h : s.Seeded c) (hs : s.InRange c) :
    (∀ n ∈ seedNodes c, n ∈ (s.drain c).nodes) ∧ ∀ o ∈ seedObjects c, o ∈ (s.drain c).objects := by
  refine ⟨?_, fun o ho => (below_drain hs).objects o (h.objects o ho)⟩
  intro n hn
  rcases h.nodes n hn with hn | hn
  · exact (below_drain hs).nodes n hn
  · exact pending_drain hs n hn

theorem Seeded.round (hr : Regular c) {s : State} (h : s.Seeded c) (hs : s.InRange c) :
    (s.round c).Seeded c := by
  obtain ⟨hn, ho⟩ := h.drain hs
  have hb := drain_below_round hr hs
  exact ⟨fun n hm => .inl (hb.nodes n (hn n hm)), fun o hm => hb.objects o (ho o hm)⟩

/-- Each call is handled in a state that lies between the drained one and the end of the pass. -/
theorem call_visited (s : State) {site : ValueId} (hm : site ∈ c.calls.sites) :
    ∃ t : State, (s.drain c).Grows t ∧ (t.applyCall c site).Grows (s.afterCalls c) :=
  (pass_visits (fun s site => grows_applyCall s site) _ _).2 site hm

theorem node_visited (s : State) {n : NodeId} {node : ValueFlow.Node}
    (hn : c.flow.node? n = some node) :
    ∃ t : State, ((s.afterCalls c).drain c).Grows t ∧ (t.applyNode c node).Grows (s.afterNodes c) :=
  (pass_visits (fun s node => grows_applyNode s node) _ _).2 node
    (Array.mem_toList_iff.mpr (Array.mem_of_getElem? hn))

/-- What the pass over the calls leaves pending is tainted at the end of the round. -/
theorem calls_pending (hr : Regular c) {s : State} (hs : s.InRange c) :
    ∀ n ∈ (s.afterCalls c).pending, n ∈ (s.round c).nodes := fun n hn =>
  (afterCalls_below_round hr hs).nodes n (pending_drain (InRange.afterCalls hr hs) n hn)

theorem calls_objects (hr : Regular c) {s : State} (hs : s.InRange c) :
    ∀ o ∈ (s.afterCalls c).objects, o ∈ (s.round c).objects := fun o ho =>
  (afterCalls_below_round hr hs).objects o ((below_drain (InRange.afterCalls hr hs)).objects o ho)

theorem nodes_pending (hr : Regular c) {s : State} (hs : s.InRange c) :
    ∀ n ∈ (s.afterNodes c).pending, n ∈ (s.round c).nodes :=
  pending_drain (InRange.afterNodes hr hs)

theorem nodes_objects (hr : Regular c) {s : State} (hs : s.InRange c) :
    ∀ o ∈ (s.afterNodes c).objects, o ∈ (s.round c).objects :=
  (below_drain (InRange.afterNodes hr hs)).objects

theorem round_consequences (hr : Regular c) {s : State} (hs : s.InRange c) {f g : Fact}
    (hf : f.In (· ∈ (s.round c).nodes) (· ∈ (s.round c).objects)) (hg : g ∈ consequences c f) :
    g.In (· ∈ (s.round c).nodes) (· ∈ (s.round c).objects) :=
  drain_consequences hr (InRange.afterNodes hr hs) hf hg

/-- A round that adds nothing leaves a closed pair. Every pass of such a round sees the same facts, so
a rule that some pass has checked holds of the result. -/
theorem closed_of_round (hr : Regular c) {s : State} (hs : s.InRange c) (hseed : s.Seeded c)
    (hfix : (s.round c).Below s) :
    Closed c (· ∈ (s.round c).nodes) (· ∈ (s.round c).objects) := by
  have hcalls : (s.round c).Below (s.drain c) := hfix.trans (below_drain hs)
  have hnodes : (s.round c).Below ((s.afterCalls c).drain c) :=
    (hcalls.trans (grows_afterCalls s).below).trans (below_drain (InRange.afterCalls hr hs))
  obtain ⟨hsn, hso⟩ := hseed.drain hs
  have hb := drain_below_round hr hs
  constructor
  case source => exact fun v hv n hn => hb.nodes n (hsn n (mem_seedNodes.mpr ⟨v, hv, hn⟩))
  case filled => exact fun v hv o ho => hb.objects o (hso o (mem_seedObjects.mpr ⟨v, hv, ho⟩))
  case site =>
    intro o ho v hv n hn
    refine round_consequences hr hs (f := .object o) (g := .node n) ho ?_
    simpa [consequences, hv] using hn
  case flow =>
    intro e he hn
    refine round_consequences hr hs (f := .node e.source) (g := .node e.target) hn ?_
    exact List.mem_append_left _ (List.mem_map.mpr ⟨_, mem_successors.mpr ⟨e, he, rfl, rfl⟩, rfl⟩)
  case store =>
    intro n v p hn hnode hp
    have hmem : ∀ f ∈ memoryFacts c ⟨.store, v⟩, f ∈ consequences c (.node n) := by
      intro f hf
      exact List.mem_append_right _ (by simpa [hnode] using hf)
    constructor
    · intro m hm
      refine round_consequences hr hs (f := .node n) (g := .node m) hn (hmem _ ?_)
      simp [memoryFacts, hp, hm]
    · intro o ho
      refine round_consequences hr hs (f := .node n) (g := .object o) hn (hmem _ ?_)
      simp [memoryFacts, hp, mem_objectFacts, ho]
  case load =>
    intro n v p hn hnode hp o ho
    refine round_consequences hr hs (f := .node n) (g := .object o) hn ?_
    refine List.mem_append_right _ ?_
    simp [hnode, memoryFacts, hp, mem_objectFacts, ho]
  case copy =>
    intro site hm name hn f hf src dst hsrc hdst hc
    obtain ⟨t, hst, ht⟩ := call_visited s hm
    have hseen := hcalls.trans hst.below
    obtain ⟨hnode, hobj⟩ := applyCall_copies t hn hf hsrc hdst (hc.mono hseen.nodes hseen.objects)
    exact ⟨(hnode.mono ht.pending).mono (calls_pending hr hs),
      (hobj.mono ht.objects).mono (calls_objects hr hs)⟩
  case call =>
    intro site hm a ha hreach
    obtain ⟨t, hst, ht⟩ := call_visited s hm
    have hseen := hcalls.trans hst.below
    exact ((applyCall_calls t ha (hreach.mono hseen.nodes)).mono ht.pending).mono
      (calls_pending hr hs)
  case addr =>
    intro n v value hn hv a ha hreach
    obtain ⟨t, hst, ht⟩ := node_visited s hn
    have hseen := hnodes.trans hst.below
    have hnode := ((applyNode_addr t hv ha (hreach.mono hseen.nodes)).mono ht.pending).mono
      (nodes_pending hr hs)
    exact hnode n (hr.distinct.def?_of_node hn)
  case gep =>
    intro n v value hn hv a ha hreach base hbase
    obtain ⟨t, hst, ht⟩ := node_visited s hn
    have hseen := hnodes.trans hst.below
    exact ((applyNode_gep t hv ha (hreach.mono hseen.nodes) hbase).mono ht.objects).mono
      (nodes_objects hr hs)

/-- A round adds neither a node nor an object. -/
def Settled (c : Context) (s : State) : Prop :=
  (s.round c).nodes.size = s.nodes.size ∧ (s.round c).objects.size = s.objects.size

instance (s : State) : Decidable (s.Settled c) := inferInstanceAs (Decidable (_ ∧ _))

theorem size_le_possible {s : State} (hs : s.InRange c) :
    s.nodes.size + s.objects.size ≤ (possible c).length := by
  have hnodup : (s.nodes.toList.map Fact.node ++ s.objects.toList.map Fact.object).Nodup := by
    refine List.nodup_append.mpr ⟨?_, ?_, ?_⟩
    · exact s.nodes.nodup.map fun _ _ h => Fact.node.inj h
    · exact s.objects.nodup.map fun _ _ h => Fact.object.inj h
    · intro f hf g hg he
      obtain ⟨n, _, rfl⟩ := List.mem_map.mp hf
      obtain ⟨o, _, rfl⟩ := List.mem_map.mp hg
      cases he
  have hsub : s.nodes.toList.map Fact.node ++ s.objects.toList.map Fact.object ⊆ possible c := by
    intro f hf
    rcases List.mem_append.mp hf with hf | hf
    · obtain ⟨n, hn, rfl⟩ := List.mem_map.mp hf
      exact hs.node n hn
    · obtain ⟨o, ho, rfl⟩ := List.mem_map.mp hf
      exact hs.object o ho
  have hle := hnodup.length_le_of_subset hsub
  rw [List.length_append, List.length_map, List.length_map] at hle
  exact hle

theorem Below.sizes {s t : State} (h : s.Below t) :
    s.nodes.size ≤ t.nodes.size ∧ s.objects.size ≤ t.objects.size :=
  ⟨IdSet.size_le h.nodes, IdSet.size_le h.objects⟩

/-- The rounds go on exactly as long as they add something: the room never runs out before. -/
theorem room_falls_iff (hr : Regular c) {s : State} (hs : s.InRange c) :
    (s.round c).room c < s.room c ↔ ¬s.Settled c := by
  obtain ⟨hn, ho⟩ := (below_round hr hs).sizes
  have hle := size_le_possible (hs.round hr (possible_closed hr))
  unfold room Settled
  omega

theorem Settled.below (hr : Regular c) {s : State} (hs : s.InRange c) (h : s.Settled c) :
    (s.round c).Below s := by
  have hb := below_round hr hs
  constructor
  · intro n hn
    rwa [IdSet.eq_of_subset hb.nodes (Nat.le_of_eq h.1)]
  · intro o ho
    rwa [IdSet.eq_of_subset hb.objects (Nat.le_of_eq h.2)]

theorem saturate_eq {s : State} {k : Nat}
    (hfall : ∀ j < k, room c ((round c)^[j + 1] s) < room c ((round c)^[j] s))
    (hlast : room c ((round c)^[k] s) ≤ room c ((round c)^[k + 1] s)) :
    saturate c s = ((round c)^[k + 1] s,
      (List.range (k + 1)).map fun j => ((round c)^[j + 1] s).nodes.size) := by
  induction k generalizing s with
  | zero =>
    have hstop : ¬(s.round c).room c < s.room c := Nat.not_lt.mpr hlast
    rw [saturate]
    simp [hstop]
  | succ k ih =>
    have hfirst : (s.round c).room c < s.room c := hfall 0 (Nat.succ_pos k)
    have hrest := ih (s := s.round c) (fun j hj => hfall (j + 1) (Nat.succ_lt_succ hj)) hlast
    rw [saturate]
    simp only [hfirst, if_true, hrest, List.range_succ_eq_map (n := k + 1), List.map_cons,
      List.map_map]
    rfl

end State

/-- The state after some rounds. -/
def after (c : Context) (k : Nat) : State := (State.round c)^[k] (start c)

theorem after_succ (k : Nat) : after c (k + 1) = (after c k).round c :=
  Function.iterate_succ_apply' _ k _

theorem after_within (hr : Regular c) (h : Closed c nodes objects) (k : Nat) :
    (after c k).Within nodes objects := by
  induction k with
  | zero => exact start_within h
  | succ k ih =>
    rw [after_succ]
    exact ih.round hr h

theorem after_inRange (hr : Regular c) (k : Nat) : (after c k).InRange c :=
  after_within hr (possible_closed hr) k

theorem after_seeded (hr : Regular c) (k : Nat) : (after c k).Seeded c := by
  induction k with
  | zero => exact ⟨fun n hn => .inr hn, fun o ho => IdSet.mem_ofList.mpr ho⟩
  | succ k ih =>
    rw [after_succ]
    exact ih.round hr (after_inRange hr k)

/-- The propagation is its rounds up to the first that adds nothing. -/
theorem run_rounds (hr : Regular c) :
    ∃ k, (∀ j < k, ¬(after c j).Settled c) ∧ (after c k).Settled c ∧
      (run c).1.nodes = (after c (k + 1)).nodes ∧ (run c).1.objects = (after c (k + 1)).objects ∧
      (run c).2.growth = (List.range (k + 1)).map fun j => (after c (j + 1)).nodes.size := by
  obtain ⟨k, hfall, hlast⟩ := exists_last_round (State.round c) (State.room c) (start c)
  have hsat := State.saturate_eq hfall hlast
  have hstep : ∀ j, (State.round c)^[j + 1] (start c) = (after c j).round c := after_succ
  refine ⟨k, ?_, ?_, ?_⟩
  · intro j hj
    refine (State.room_falls_iff hr (after_inRange hr j)).mp ?_
    rw [← hstep]
    exact hfall j hj
  · refine Decidable.not_not.mp fun hn => ?_
    have hlt := (State.room_falls_iff hr (after_inRange hr k)).mpr hn
    rw [← hstep] at hlt
    exact Nat.lt_irrefl _ (Nat.lt_of_lt_of_le hlt hlast)
  · have hrun : State.saturate c ⟨∅, .ofList (seedObjects c), seedNodes c⟩ = _ := hsat
    simp only [run, hrun]
    exact ⟨rfl, rfl, rfl⟩

/-- What the propagation finds is closed under its rules. -/
theorem run_closed (hr : Regular c) : Closed c (· ∈ (run c).1.nodes) (· ∈ (run c).1.objects) := by
  obtain ⟨k, _, hsettled, hn, ho, _⟩ := run_rounds hr
  have hrange := after_inRange hr k
  rw [hn, ho, after_succ]
  exact State.closed_of_round hr hrange (after_seeded hr k) (hsettled.below hr hrange)

/-- What the propagation finds is in every pair that is closed under its rules. -/
theorem run_within (hr : Regular c) (h : Closed c nodes objects) :
    (∀ n ∈ (run c).1.nodes, nodes n) ∧ ∀ o ∈ (run c).1.objects, objects o := by
  obtain ⟨k, _, _, hn, ho, _⟩ := run_rounds hr
  have hw := after_within hr h (k + 1)
  rw [hn, ho]
  exact ⟨hw.node, hw.object⟩

theorem after_below (hr : Regular c) {i j : Nat} (hij : i ≤ j) :
    (after c i).Below (after c j) := by
  induction hij with
  | refl => exact ⟨fun _ h => h, fun _ h => h⟩
  | @step j _ ih =>
    rw [after_succ]
    exact ih.trans (State.below_round hr (after_inRange hr j))

theorem growth_ascending (hr : Regular c) : (run c).2.growth.Pairwise (· ≤ ·) := by
  obtain ⟨k, _, _, _, _, hg⟩ := run_rounds hr
  rw [hg]
  refine List.pairwise_map.mpr (List.pairwise_lt_range.imp ?_)
  intro i j hij
  exact (after_below hr (Nat.succ_le_succ (Nat.le_of_lt hij))).sizes.1

theorem growth_last (hr : Regular c) : (run c).2.growth.getLast? = some (run c).1.nodes.size := by
  obtain ⟨k, _, _, hn, _, hg⟩ := run_rounds hr
  rw [hg, hn, List.range_succ]
  simp

theorem regular {t : Tables} {host : HostFacts} {b : Built} (h : b.Parts t host)
    (settings : Settings) : Regular (b.context settings) := by
  refine ⟨?_, h.distinct⟩
  intro e he
  change e ∈ b.program.flow.edges at he
  change e.target < b.program.flow.nodes.size
  rw [h.flow] at he ⊢
  exact (ValueFlow.edge_in_range he).2

/-- The pair is closed under the rules and lies in every pair that is. -/
structure Least (c : Context) (nodes : NodeId → Prop) (objects : ObjectId → Prop) : Prop where
  closed : Closed c nodes objects
  least : ∀ nodes' objects', Closed c nodes' objects' →
    (∀ n, nodes n → nodes' n) ∧ ∀ o, objects o → objects' o

/-- The propagation over a program ends, after the first round that adds nothing, with the least pair of
tainted nodes and objects. The seeds are the definitions of the sources and are tainted, the
allocations are the tainted nodes that allocate, and the number of tainted nodes never falls. -/
theorem propagation_least {t : Tables} {host : HostFacts} {b : Built}
    (h : Built.ofTables t host = .ok b) (settings : Settings) :
    let c := b.context settings
    let taint := (run c).1
    let effort := (run c).2
    Least c (· ∈ taint.nodes) (· ∈ taint.objects) ∧
    (∃ k, effort.rounds = k + 1 ∧ (∀ j < k, ¬(after c j).Settled c) ∧ (after c k).Settled c ∧
      taint.nodes = (after c (k + 1)).nodes ∧ taint.objects = (after c (k + 1)).objects) ∧
    (∀ n, n ∈ taint.seeds ↔ ∃ v, Source c v ∧ c.def? v = some n) ∧
    (∀ n ∈ taint.seeds, n ∈ taint.nodes) ∧
    (∀ n, n ∈ taint.allocations ↔ n ∈ taint.nodes ∧ c.flow.kind? n = some .addr) ∧
    effort.growth.Pairwise (· ≤ ·) ∧ effort.growth.getLast? = some taint.nodes.size ∧
    effort.seeds = taint.seeds.size ∧ effort.nodes = taint.nodes.size ∧
    effort.allocations = taint.allocations.size ∧ effort.objects = taint.objects.size := by
  intro c taint effort
  have hr : Regular c := regular (Built.ofTables_ok_iff.mp h) settings
  have hseeds : ∀ n, n ∈ taint.seeds ↔ ∃ v, Source c v ∧ c.def? v = some n :=
    fun n => IdSet.mem_ofList.trans mem_seedNodes
  refine ⟨⟨run_closed hr, fun _ _ => run_within hr⟩, ?_, hseeds, ?_, ?_, growth_ascending hr,
    growth_last hr, rfl, rfl, rfl, rfl⟩
  · obtain ⟨k, hbefore, hlast, hn, ho, hg⟩ := run_rounds hr
    refine ⟨k, ?_, hbefore, hlast, hn, ho⟩
    change (run c).2.growth.length = k + 1
    rw [hg, List.length_map, List.length_range]
  · intro n hn
    obtain ⟨v, hv, hd⟩ := (hseeds n).mp hn
    exact (run_closed hr).source v hv n hd
  · intro n
    exact IdSet.mem_filter.trans (and_congr_right fun _ => decide_eq_true_iff)

/-- The loop that reads back what `main` stored is a program, and its taint is the least one. -/
theorem guardedLoop_propagation : ∃ b, Built.ofTables guardedLoop plainHost = .ok b ∧
    Least (b.context .unchanged) (· ∈ (run (b.context .unchanged)).1.nodes)
      (· ∈ (run (b.context .unchanged)).1.objects) := by
  obtain ⟨b, hb⟩ := guardedLoop_builds
  exact ⟨b, hb, (propagation_least hb .unchanged).1⟩

end PointerTriage.Taint
