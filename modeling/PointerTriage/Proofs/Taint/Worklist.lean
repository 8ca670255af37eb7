import PointerTriage.Proofs.Taint.Closure

namespace PointerTriage.Taint.Worklist

open State

variable {c : Context}

/-- A tainted node is not queued again. -/
def enqueue (s : State) (n : NodeId) : State :=
  if n ∈ s.nodes then s else { s with pending := s.pending ++ [n] }

/-- The first time an object is tainted, the node that allocates it is queued. -/
def enter (c : Context) (s : State) (o : ObjectId) : State :=
  if o ∈ s.objects then s
  else ((c.pointsTo.site? o).bind c.def?).toList.foldl enqueue
    { s with objects := s.objects.insert o }

def take (c : Context) (s : State) : Fact → State
  | .node n => enqueue s n
  | .object o => enter c s o

def takeAll (c : Context) (s : State) (facts : List Fact) : State := facts.foldl (take c) s

/-- What follows from a node, in the order in which a visit finds it. -/
def found (c : Context) (n : NodeId) : List Fact :=
  match c.flow.node? n with
  | some node => memoryFacts c node ++ (c.flow.successors .all n).map .node
  | none => []

def visit (c : Context) (s : State) (n : NodeId) : State :=
  takeAll c { s with nodes := s.nodes.insert n } (found c n)

section

variable {s : State}

theorem node_mem_facts {n : NodeId} : .node n ∈ s.facts ↔ n ∈ s.nodes ∨ n ∈ s.pending := by
  simp [mem_facts]

theorem object_mem_facts {o : ObjectId} : .object o ∈ s.facts ↔ o ∈ s.objects := by
  simp [mem_facts]

theorem mem_facts_enqueue {n : NodeId} {f : Fact} :
    f ∈ (enqueue s n).facts ↔ f = .node n ∨ f ∈ s.facts := by
  unfold enqueue
  split
  · rename_i hn
    exact (or_iff_right_of_imp fun he => he ▸ node_mem_facts.mpr (.inl hn)).symm
  · cases f with
    | node m =>
      simp only [node_mem_facts, List.mem_append, List.mem_singleton, Fact.node.injEq]
      tauto
    | object o => simp [object_mem_facts]

theorem mem_facts_foldl_enqueue {ns : List NodeId} {f : Fact} :
    f ∈ (ns.foldl enqueue s).facts ↔ f ∈ ns.map .node ∨ f ∈ s.facts := by
  induction ns generalizing s with
  | nil => simp
  | cons n ns ih =>
    rw [List.foldl_cons, ih, mem_facts_enqueue, List.map_cons, List.mem_cons]
    tauto

theorem mem_facts_insert {o : ObjectId} {f : Fact} :
    f ∈ State.facts { s with objects := s.objects.insert o } ↔ f = .object o ∨ f ∈ s.facts := by
  cases f with
  | node n => simp [node_mem_facts]
  | object q => simp [object_mem_facts]

/-- All that taking a fact can add: the fact, and what follows from an object that is new. -/
theorem mem_facts_take {f g : Fact} :
    f ∈ (take c s g).facts ↔ f = g ∨ f ∈ s.facts ∨
      ∃ o, g = .object o ∧ o ∉ s.objects ∧ f ∈ consequences c g := by
  cases g with
  | node n => simp [take, mem_facts_enqueue]
  | object o =>
    change f ∈ (enter c s o).facts ↔ _
    unfold enter
    split
    · rename_i ho
      have hold : f = .object o → f ∈ s.facts := fun he => he ▸ object_mem_facts.mpr ho
      simpa [ho] using hold
    · rename_i ho
      rw [mem_facts_foldl_enqueue, mem_facts_insert]
      simp only [Fact.object.injEq, exists_eq_left', ho, not_false_eq_true, true_and]
      exact or_left_comm.trans (or_congr_right or_comm)

theorem nodes_enqueue (n : NodeId) : (enqueue s n).nodes = s.nodes := by
  unfold enqueue
  split <;> rfl

theorem nodes_foldl_enqueue (ns : List NodeId) : (ns.foldl enqueue s).nodes = s.nodes :=
  List.foldlRecOn (motive := fun t : State => t.nodes = s.nodes) ns enqueue rfl
    fun _ ht n _ => (nodes_enqueue n).trans ht

theorem nodes_take (f : Fact) : (take c s f).nodes = s.nodes := by
  cases f with
  | node n => exact nodes_enqueue n
  | object o =>
    change (enter c s o).nodes = s.nodes
    unfold enter
    split
    · rfl
    · exact nodes_foldl_enqueue _

theorem nodes_takeAll (fs : List Fact) : (takeAll c s fs).nodes = s.nodes :=
  List.foldlRecOn (motive := fun t : State => t.nodes = s.nodes) fs (take c) rfl
    fun _ ht f _ => (nodes_take f).trans ht

theorem nodes_visit (n : NodeId) : (visit c s n).nodes = s.nodes.insert n := nodes_takeAll _

end

/-- The nodes that are still to be visited. -/
def unvisited (c : Context) (s : State) : Nat := (c.flow.nodeIds.filter (· ∉ s.nodes)).length

theorem unvisited_lt {s t : State} {n : NodeId} (hn : n < c.flow.nodes.size) (hs : n ∉ s.nodes)
    (ht : t.nodes = s.nodes.insert n) : unvisited c t < unvisited c s := by
  have hsplit : c.flow.nodeIds.filter (· ∉ t.nodes) =
      (c.flow.nodeIds.filter (· ∉ s.nodes)).filter (· ≠ n) := by
    rw [List.filter_filter]
    refine List.filter_congr fun m _ => ?_
    rw [Bool.eq_iff_iff]
    simp [ht]
  unfold unvisited
  rw [hsplit]
  apply List.length_filter_lt_length_iff_exists.mpr
  exact ⟨n, List.mem_filter.mpr ⟨List.mem_range.mpr hn, by simpa using hs⟩, by simp⟩

theorem unvisited_eq {s t : State} {n : NodeId} (hn : ¬n < c.flow.nodes.size)
    (ht : t.nodes = s.nodes.insert n) : unvisited c t = unvisited c s := by
  unfold unvisited
  congr 1
  refine List.filter_congr fun m hm => ?_
  have hne : m ≠ n := fun he => hn (he ▸ List.mem_range.mp hm)
  simp [ht, hne]

/-- Visits what is queued, each node once. -/
def drain (c : Context) (s : State) : State :=
  match _h : s.pending with
  | [] => s
  | n :: rest =>
    if n ∈ s.nodes then drain c { s with pending := rest }
    else drain c (visit c { s with pending := rest } n)
termination_by (unvisited c s, s.pending.length)
decreasing_by
  · exact Prod.Lex.right _ (by simp [_h])
  · rename_i hn
    by_cases hknown : n < c.flow.nodes.size
    · exact Prod.Lex.left _ _ (unvisited_lt hknown hn (nodes_visit n))
    · -- An unknown node leads nowhere.
      have hnone : c.flow.node? n = none := by
        simpa [ValueFlow.node?] using hknown
      have hvisit : visit c { s with pending := rest } n =
          { s with pending := rest, nodes := s.nodes.insert n } := by
        simp [visit, found, hnone, takeAll]
      rw [unvisited_eq hknown (nodes_visit n), hvisit]
      exact Prod.Lex.right _ (by simp [_h])

/-- What follows from a tainted object is tainted, or queued to be. -/
def Sited (c : Context) (s : State) : Prop :=
  ∀ o ∈ s.objects, ∀ f ∈ consequences c (.object o), f ∈ s.facts

/-- What follows from any tainted fact is tainted, or queued to be. -/
structure Pursued (c : Context) (s : State) : Prop where
  node : ∀ n ∈ s.nodes, ∀ f ∈ consequences c (.node n), f ∈ s.facts
  object : Sited c s

section

variable {s : State}

theorem mem_take_of_mem {f : Fact} (hf : f ∈ s.facts) (g : Fact) : f ∈ (take c s g).facts :=
  mem_facts_take.mpr (.inr (.inl hf))

theorem object_not_mem_consequences {o q : ObjectId} :
    .object q ∉ consequences c (.object o) := by
  simp [consequences]

theorem Sited.take (h : Sited c s) (g : Fact) : Sited c (take c s g) := by
  intro o ho f hf
  by_cases hold : o ∈ s.objects
  · exact mem_take_of_mem (h o hold f hf) g
  · -- A new object is the one that is taken.
    rcases mem_facts_take.mp (object_mem_facts.mpr ho) with rfl | hmem | ⟨q, rfl, _, hcons⟩
    · exact mem_facts_take.mpr (.inr (.inr ⟨o, rfl, hold, hf⟩))
    · exact absurd (object_mem_facts.mp hmem) hold
    · exact absurd hcons object_not_mem_consequences

theorem Sited.takeAll (h : Sited c s) (fs : List Fact) : Sited c (takeAll c s fs) :=
  List.foldlRecOn (motive := Sited c) fs (Worklist.take c) h fun _ ht f _ => ht.take f

theorem mem_takeAll {fs : List Fact} {f : Fact} (hf : f ∈ fs ∨ f ∈ s.facts) :
    f ∈ (takeAll c s fs).facts := by
  induction fs generalizing s with
  | nil => exact hf.resolve_left List.not_mem_nil
  | cons g fs ih =>
    refine ih ?_
    rcases hf with hf | hf
    · rcases List.mem_cons.mp hf with rfl | hf
      · exact .inr (mem_facts_take.mpr (.inl rfl))
      · exact .inl hf
    · exact .inr (mem_take_of_mem hf g)

/-- Taking facts adds no more than these and what follows from the objects among them. -/
theorem mem_facts_takeAll {fs : List Fact} {f : Fact} (hf : f ∈ (takeAll c s fs).facts) :
    f ∈ fs ∨ f ∈ s.facts ∨ ∃ o, .object o ∈ fs ∧ f ∈ consequences c (.object o) := by
  refine List.foldlRecOn (motive := fun t : State => ∀ f ∈ t.facts, f ∈ fs ∨ f ∈ s.facts ∨
    ∃ o, .object o ∈ fs ∧ f ∈ consequences c (.object o)) fs (take c) (fun f hf => .inr (.inl hf))
    ?_ f hf
  intro t ht g hg f hf
  rcases mem_facts_take.mp hf with rfl | hf | ⟨o, rfl, _, hf⟩
  · exact .inl hg
  · exact ht f hf
  · exact .inr (.inr ⟨o, hg, hf⟩)

theorem takeAll_within {P : Fact → Prop} (hP : ∀ f, P f → ∀ g ∈ consequences c f, P g)
    {fs : List Fact} (hfs : ∀ f ∈ fs, P f) (hs : ∀ f ∈ s.facts, P f) :
    ∀ f ∈ (takeAll c s fs).facts, P f := by
  intro f hf
  rcases mem_facts_takeAll hf with hf | hf | ⟨o, ho, hf⟩
  · exact hfs f hf
  · exact hs f hf
  · exact hP _ (hfs _ ho) f hf

theorem mem_found {n : NodeId} {f : Fact} (hf : f ∈ found c n) : f ∈ consequences c (.node n) := by
  unfold found at hf
  split at hf
  · rename_i node hnode
    simp only [consequences, hnode, Option.map_some, Option.getD_some]
    exact List.mem_append.mpr (List.mem_append.mp hf).symm
  · exact absurd hf List.not_mem_nil

theorem found_of_mem {n : NodeId} (hn : n < c.flow.nodes.size) {f : Fact}
    (hf : f ∈ consequences c (.node n)) : f ∈ found c n := by
  have hnode : c.flow.node? n = some c.flow.nodes[n] := Array.getElem?_eq_getElem hn
  simp only [consequences, hnode, Option.map_some, Option.getD_some] at hf
  simp only [found, hnode]
  exact List.mem_append.mpr (List.mem_append.mp hf).symm

/-- The state without the first of its queue, which is visited. -/
theorem mem_facts_pop {n : NodeId} {rest : List NodeId} (hq : s.pending = n :: rest) {f : Fact} :
    f ∈ s.facts ↔ f ∈ State.facts { s with pending := rest, nodes := s.nodes.insert n } := by
  cases f with
  | node m =>
    simp only [node_mem_facts, hq, List.mem_cons, IdSet.mem_insert]
    tauto
  | object o => simp [object_mem_facts]

theorem mem_facts_skip {n : NodeId} {rest : List NodeId} (hq : s.pending = n :: rest)
    (hn : n ∈ s.nodes) {f : Fact} :
    f ∈ s.facts ↔ f ∈ State.facts { s with pending := rest } := by
  cases f with
  | node m =>
    simp only [node_mem_facts, hq, List.mem_cons]
    have hm : m = n → m ∈ s.nodes := fun he => he ▸ hn
    tauto
  | object o => simp [object_mem_facts]

theorem Pursued.visit {n : NodeId} {rest : List NodeId} (h : Pursued c s)
    (hq : s.pending = n :: rest) (hn : n < c.flow.nodes.size) :
    Pursued c (visit c { s with pending := rest } n) := by
  have hkeep : ∀ f ∈ s.facts, f ∈ (Worklist.visit c { s with pending := rest } n).facts :=
    fun f hf => mem_takeAll (.inr ((mem_facts_pop hq).mp hf))
  constructor
  · intro m hm f hf
    rw [nodes_visit] at hm
    rcases IdSet.mem_insert.mp hm with rfl | hm
    · exact mem_takeAll (.inl (found_of_mem hn hf))
    · exact hkeep f (h.node m hm f hf)
  · refine Sited.takeAll ?_ _
    intro o ho f hf
    exact (mem_facts_pop hq).mp (h.object o ho f hf)

theorem pending_drain (c : Context) (s : State) : (drain c s).pending = [] := by
  fun_induction drain c s with
  | case1 s hq => exact hq
  | case2 s n rest hq hn ih => exact ih
  | case3 s n rest hq hn ih => exact ih

theorem mem_drain_of_mem {f : Fact} (hf : f ∈ s.facts) : f ∈ (drain c s).facts := by
  fun_induction drain c s with
  | case1 s hq => exact hf
  | case2 s n rest hq hn ih => exact ih ((mem_facts_skip hq hn).mp hf)
  | case3 s n rest hq hn ih => exact ih (mem_takeAll (.inr ((mem_facts_pop hq).mp hf)))

theorem drain_within {P : Fact → Prop} (hP : ∀ f, P f → ∀ g ∈ consequences c f, P g)
    (hs : ∀ f ∈ s.facts, P f) : ∀ f ∈ (drain c s).facts, P f := by
  fun_induction drain c s with
  | case1 s hq => exact hs
  | case2 s n rest hq hn ih => exact ih fun f hf => hs f ((mem_facts_skip hq hn).mpr hf)
  | case3 s n rest hq hn ih =>
    have hnode : P (.node n) := hs _ (node_mem_facts.mpr (.inr (hq ▸ List.mem_cons_self)))
    refine ih (takeAll_within hP (fun f hf => hP _ hnode f (mem_found hf)) ?_)
    exact fun f hf => hs f ((mem_facts_pop hq).mpr hf)

theorem Pursued.drain (hr : Regular c) (h : Pursued c s) (hs : ∀ f ∈ s.facts, f ∈ possible c) :
    Pursued c (drain c s) := by
  fun_induction Worklist.drain c s with
  | case1 s hq => exact h
  | case2 s n rest hq hn ih =>
    refine ih ⟨?_, ?_⟩ fun f hf => hs f ((mem_facts_skip hq hn).mpr hf)
    · exact fun m hm f hf => (mem_facts_skip hq hn).mp (h.node m hm f hf)
    · exact fun o ho f hf => (mem_facts_skip hq hn).mp (h.object o ho f hf)
  | case3 s n rest hq hn ih =>
    have hnode : .node n ∈ possible c := hs _ (node_mem_facts.mpr (.inr (hq ▸ List.mem_cons_self)))
    refine ih (h.visit hq (node_mem_possible.mp hnode)) ?_
    refine takeAll_within (fun f hf g hg => possible_consequence hr hf hg) ?_ ?_
    · exact fun f hf => possible_consequence hr hnode (mem_found hf)
    · exact fun f hf => hs f ((mem_facts_pop hq).mpr hf)

/-- With an empty queue, what is pursued is closed. -/
theorem Pursued.closed (h : Pursued c s) (hq : s.pending = []) {f g : Fact} (hf : f ∈ s.facts)
    (hg : g ∈ consequences c f) : g ∈ s.facts := by
  cases f with
  | node n =>
    have hn : n ∈ s.nodes := (node_mem_facts.mp hf).resolve_right (by simp [hq])
    exact h.node n hn g hg
  | object o => exact h.object o (object_mem_facts.mp hf) g hg

/-- Visiting what is queued taints what the closure of the facts taints. -/
theorem mem_facts_drain (hr : Regular c) (h : Pursued c s) (hs : ∀ f ∈ s.facts, f ∈ possible c)
    {f : Fact} :
    f ∈ (drain c s).facts ↔ f ∈ Graph.reach (consequences c) (possible c) s.facts := by
  constructor
  · intro hf
    refine (drain_within (P := fun f => f ∈ possible c ∧
      f ∈ Graph.reach (consequences c) (possible c) s.facts) ?_ ?_ f hf).2
    · intro f hf g hg
      have hg' := possible_consequence hr hf.1 hg
      exact ⟨hg', Graph.reach_closed hf.2 hg hg'⟩
    · exact fun f hf => ⟨hs f hf, Graph.seed_mem_reach hf (hs f hf)⟩
  · refine Graph.reach_induction (P := fun f => f ∈ (Worklist.drain c s).facts) ?_ ?_ f
    · exact fun f hf _ => mem_drain_of_mem hf
    · exact fun f hf g hg _ => (h.drain hr hs).closed (pending_drain c s) hf hg

end

theorem eq_of_facts {s t : State} (hs : s.pending = []) (ht : t.pending = [])
    (h : ∀ f, f ∈ s.facts ↔ f ∈ t.facts) : s = t := by
  obtain ⟨nodes, objects, pending⟩ := s
  obtain ⟨nodes', objects', pending'⟩ := t
  change pending = [] at hs
  change pending' = [] at ht
  subst hs ht
  have hnodes : nodes = nodes' := IdSet.ext fun n => by
    simpa [node_mem_facts] using h (.node n)
  have hobjects : objects = objects' := IdSet.ext fun o => by
    simpa [object_mem_facts] using h (.object o)
  rw [hnodes, hobjects]

theorem mem_facts_closure {s : State} {f : Fact} :
    f ∈ (s.drain c).facts ↔ f ∈ Graph.reach (consequences c) (possible c) s.facts := by
  cases f with
  | node n => rw [node_mem_facts, ← mem_drain_nodes]; exact or_iff_left List.not_mem_nil
  | object o => rw [object_mem_facts, mem_drain_objects]

/-- What a closure leaves is pursued. -/
theorem pursued_closure (hr : Regular c) {s : State} (hs : s.InRange c) : Pursued c (s.drain c) := by
  have hin : ∀ f : Fact, f.In (· ∈ (s.drain c).nodes) (· ∈ (s.drain c).objects) →
      f ∈ (s.drain c).facts := fun f hf => mem_facts_closure.mpr (in_drain_iff.mp hf)
  constructor
  · exact fun n hn f hf => hin f (drain_consequences hr hs (f := .node n) hn hf)
  · exact fun o ho f hf => hin f (drain_consequences hr hs (f := .object o) ho hf)

/-- The first state holds the facts of the second, and only what follows from its objects besides. -/
structure Follows (c : Context) (s t : State) : Prop where
  nodes : s.nodes = t.nodes
  objects : s.objects = t.objects
  pursued : Pursued c s
  holds : ∀ f ∈ t.facts, f ∈ s.facts
  derived : ∀ f ∈ s.facts, f ∈ t.facts ∨ ∃ o ∈ t.objects, f ∈ consequences c (.object o)

theorem Pursued.follows {s : State} (h : Pursued c s) : Follows c s s :=
  ⟨rfl, rfl, h, fun _ hf => hf, fun _ hf => .inl hf⟩

/-- Visiting what is queued leads to the closure of the facts. -/
theorem Follows.drain (hr : Regular c) {s t : State} (h : Follows c s t) (ht : t.InRange c) :
    Worklist.drain c s = t.drain c := by
  have hfacts : ∀ f ∈ s.facts, f ∈ possible c ∧
      f ∈ Graph.reach (consequences c) (possible c) t.facts := by
    intro f hf
    rcases h.derived f hf with hf | ⟨o, ho, hf⟩
    · have hin := mem_possible_of_facts ht hf
      exact ⟨hin, Graph.seed_mem_reach hf hin⟩
    · have ho := object_mem_facts.mpr ho
      have hin := mem_possible_of_facts ht ho
      have hf' := possible_consequence hr hin hf
      exact ⟨hf', Graph.reach_closed (Graph.seed_mem_reach ho hin) hf hf'⟩
  refine eq_of_facts (pending_drain c s) rfl fun f => ?_
  rw [mem_facts_drain hr h.pursued fun f hf => (hfacts f hf).1, mem_facts_closure]
  constructor
  · exact Graph.reach_induction (fun g hg _ => (hfacts g hg).2)
      (fun _ hg _ hb hd => Graph.reach_closed hg hb hd) f
  · exact Graph.reach_mono (fun _ _ hb => hb) h.holds f

theorem Pursued.takeAll {s : State} (h : Pursued c s) (fs : List Fact) :
    Pursued c (takeAll c s fs) := by
  refine ⟨?_, h.object.takeAll fs⟩
  intro n hn f hf
  rw [nodes_takeAll] at hn
  exact mem_takeAll (.inr (h.node n hn f hf))

theorem Follows.takeAll {s t t' : State} (h : Follows c s t) {fs : List Fact}
    (hn : t'.nodes = t.nodes) (hf : ∀ f, f ∈ t'.facts ↔ f ∈ fs ∨ f ∈ t.facts) :
    Follows c (takeAll c s fs) t' := by
  have hderived : ∀ f ∈ (Worklist.takeAll c s fs).facts,
      f ∈ t'.facts ∨ ∃ o ∈ t'.objects, f ∈ consequences c (.object o) := by
    intro f hmem
    rcases mem_facts_takeAll hmem with hmem | hmem | ⟨o, ho, hmem⟩
    · exact .inl ((hf f).mpr (.inl hmem))
    · rcases h.derived f hmem with hmem | ⟨o, ho, hmem⟩
      · exact .inl ((hf f).mpr (.inr hmem))
      · exact .inr ⟨o, object_mem_facts.mp ((hf _).mpr (.inr (object_mem_facts.mpr ho))), hmem⟩
    · exact .inr ⟨o, object_mem_facts.mp ((hf _).mpr (.inl ho)), hmem⟩
  have hholds : ∀ f ∈ t'.facts, f ∈ (Worklist.takeAll c s fs).facts := fun f hmem =>
    mem_takeAll (((hf f).mp hmem).imp_right (h.holds f))
  refine ⟨by rw [nodes_takeAll, h.nodes, hn], ?_, h.pursued.takeAll fs, hholds, hderived⟩
  refine IdSet.ext fun o => ?_
  rw [← object_mem_facts, ← object_mem_facts]
  constructor
  · intro ho
    refine (hderived _ ho).resolve_right fun hex => ?_
    obtain ⟨q, _, hq⟩ := hex
    exact object_not_mem_consequences hq
  · exact hholds _

/-- The node that defines a value. -/
def nodeFacts (c : Context) (v : ValueId) : List Fact := (c.def? v).toList.map .node

theorem mem_facts_push {t : State} {v : ValueId} {f : Fact} :
    f ∈ (t.push (c.def? v)).facts ↔ f ∈ nodeFacts c v ∨ f ∈ t.facts := by
  cases f with
  | node n =>
    simp only [node_mem_facts, State.push, nodeFacts, List.mem_append, List.mem_map, Fact.node.injEq,
      exists_eq_right]
    tauto
  | object o => simp [object_mem_facts, State.push, nodeFacts]

theorem mem_facts_taintObjects {t : State} {v : ValueId} {f : Fact} :
    f ∈ (t.taintObjects c v).facts ↔ f ∈ objectFacts c v ∨ f ∈ t.facts := by
  rw [mem_objectFacts]
  cases f with
  | node n => simp [node_mem_facts, State.taintObjects]
  | object o =>
    simp only [object_mem_facts, State.taintObjects, IdSet.mem_union, Fact.object.injEq,
      exists_eq_right']
    exact or_comm

def copyArguments (c : Context) (arguments : List ValueId) (s : State) (name : String) : State :=
  match c.settings.taint.findCopy? name with
  | none => s
  | some f =>
    match arguments[f.srcArg]?, arguments[f.dstArg]? with
    | some src, some dst =>
      if s.carries c src then takeAll c s (nodeFacts c dst ++ objectFacts c dst) else s
    | _, _ => s

def applyCall (c : Context) (s : State) (site : ValueId) : State :=
  let arguments := c.calls.arguments site
  let s := (c.calleeNames site).foldl (copyArguments c arguments) s
  if arguments.any (s.isTainted c) then takeAll c s (nodeFacts c site) else s

/-- A node comes with its id. -/
def applyNode (c : Context) (s : State) (node : ValueFlow.Node × NodeId) : State :=
  let operands := ((c.ir.value? node.1.value).map Value.operands).getD []
  if operands.any (s.isTainted c) then
    match node.1.kind with
    | .addr => takeAll c s [.node node.2]
    | .gep =>
      match operands.head? with
      | some base => takeAll c s (objectFacts c base)
      | none => s
    | _ => s
  else s

def round (c : Context) (s : State) : State :=
  let s := c.calls.sites.foldl (applyCall c) (drain c s)
  let s := c.flow.nodes.toList.zipIdx.foldl (applyNode c) (drain c s)
  drain c s

section

variable {s t : State} (h : Follows c s t)
include h

theorem Follows.isTainted (v : ValueId) : s.isTainted c v = t.isTainted c v := by
  unfold State.isTainted
  rw [h.nodes]

theorem Follows.carries (v : ValueId) : s.carries c v = t.carries c v := by
  unfold State.carries
  rw [h.isTainted, h.objects]

theorem Follows.copyArguments (arguments : List ValueId) (name : String) :
    Follows c (copyArguments c arguments s name) (t.copyArguments c arguments name) := by
  unfold Worklist.copyArguments State.copyArguments
  cases c.settings.taint.findCopy? name with
  | none => exact h
  | some f =>
    dsimp only
    cases arguments[f.srcArg]? with
    | none => exact h
    | some src =>
      cases arguments[f.dstArg]? with
      | none => exact h
      | some dst =>
        dsimp only
        rw [h.carries]
        split
        · refine h.takeAll rfl fun f => ?_
          rw [mem_facts_taintObjects, mem_facts_push, List.mem_append]
          tauto
        · exact h

theorem Follows.foldl {α : Type} {f g : State → α → State} (as : List α)
    (hfg : ∀ a ∈ as, ∀ s t, Follows c s t → Follows c (f s a) (g t a)) :
    Follows c (as.foldl f s) (as.foldl g t) := by
  induction as generalizing s t with
  | nil => exact h
  | cons a as ih =>
    exact ih (hfg a List.mem_cons_self s t h) fun b hb => hfg b (List.mem_cons_of_mem _ hb)

theorem Follows.applyCall (site : ValueId) :
    Follows c (applyCall c s site) (t.applyCall c site) := by
  have hcopies := h.foldl (c.calleeNames site) fun name _ s t h =>
    Follows.copyArguments h (c.calls.arguments site) name
  unfold Worklist.applyCall State.applyCall
  dsimp only
  simp only [funext hcopies.isTainted]
  split
  · exact hcopies.takeAll rfl fun f => mem_facts_push
  · exact hcopies

theorem Follows.applyNode (hr : Regular c) {node : ValueFlow.Node} {n : NodeId}
    (hn : c.flow.node? n = some node) :
    Follows c (applyNode c s (node, n)) (t.applyNode c node) := by
  obtain ⟨kind, v⟩ := node
  unfold Worklist.applyNode State.applyNode
  dsimp only
  simp only [funext h.isTainted]
  split
  · cases kind with
    | addr =>
      have hdef : c.def? v = some n := hr.distinct.def?_of_node hn
      refine h.takeAll rfl fun f => ?_
      rw [mem_facts_push, nodeFacts, hdef]
      rfl
    | gep =>
      cases (((c.ir.value? v).map Value.operands).getD []).head? with
      | none => exact h
      | some base => exact h.takeAll rfl fun f => mem_facts_taintObjects
    | _ => exact h
  · exact h

/-- A round with a worklist does what a round of closures does. -/
theorem Follows.round (hr : Regular c) (ht : t.InRange c) : round c s = t.round c := by
  have hcalls : Follows c (c.calls.sites.foldl (Worklist.applyCall c) (t.drain c))
      (t.afterCalls c) :=
    (pursued_closure hr ht).follows.foldl _ fun site _ _ _ h => h.applyCall site
  have hcallsRange := InRange.afterCalls hr ht
  have hids : t.afterNodes c = c.flow.nodes.toList.zipIdx.foldl
      (fun t node => t.applyNode c node.1) ((t.afterCalls c).drain c) := by
    rw [State.afterNodes, ← List.foldl_map (f := Prod.fst), List.zipIdx_map_fst]
  have hnodes : Follows c (c.flow.nodes.toList.zipIdx.foldl (Worklist.applyNode c)
      ((t.afterCalls c).drain c)) (t.afterNodes c) := by
    rw [hids]
    refine (pursued_closure hr hcallsRange).follows.foldl _ fun node hnode _ _ h => ?_
    refine Follows.applyNode h hr ?_
    have hget := (List.mem_zipIdx_iff_getElem?.mp hnode)
    simpa [ValueFlow.node?] using hget
  calc Worklist.round c s = Worklist.drain c (c.flow.nodes.toList.zipIdx.foldl
        (Worklist.applyNode c) (Worklist.drain c (c.calls.sites.foldl (Worklist.applyCall c)
          (Worklist.drain c s)))) := rfl
    _ = Worklist.drain c (c.flow.nodes.toList.zipIdx.foldl (Worklist.applyNode c)
        ((t.afterCalls c).drain c)) := by rw [h.drain hr ht, hcalls.drain hr hcallsRange]
    _ = t.round c := hnodes.drain hr (InRange.afterNodes hr ht)

end

/-- The seeds, in the order in which they are found. -/
def seeds (c : Context) : List Fact :=
  (entryParams c).flatMap (nodeFacts c) ++ (inputCalls c).flatMap fun call =>
    ((inputArguments c call).flatMap fun v => nodeFacts c v ++ objectFacts c v) ++
      if call.2.taintReturn then nodeFacts c call.1 else []

def start (c : Context) : State := takeAll c ⟨∅, ∅, []⟩ (seeds c)

theorem mem_facts_start {f : Fact} : f ∈ (Taint.start c).facts ↔ f ∈ seeds c := by
  unfold seeds Taint.start
  cases f with
  | node n =>
    have hnode : ∀ v, .node n ∈ nodeFacts c v ↔ c.def? v = some n := by
      simp [nodeFacts]
    have hobject : ∀ v, .node n ∉ objectFacts c v := by
      simp [mem_objectFacts]
    have hreturn : ∀ call : ValueId × Settings.InputFunction,
        .node n ∈ (if call.2.taintReturn then nodeFacts c call.1 else []) ↔
          ∃ v ∈ (if call.2.taintReturn then [call.1] else []), c.def? v = some n := by
      intro call
      split <;> simp [hnode]
    simp only [node_mem_facts, IdSet.not_mem_empty, false_or, seedNodes, sources,
      List.mem_filterMap, List.mem_append, List.mem_flatMap, hnode, hobject, hreturn, or_false]
    grind
  | object o =>
    have hnode : ∀ v, .object o ∉ nodeFacts c v := by
      simp [nodeFacts]
    have hobject : ∀ v, .object o ∈ objectFacts c v ↔ o ∈ (c.pointsTo.objects v).toList := by
      simp [mem_objectFacts, IdSet.mem_def]
    have hreturn : ∀ call : ValueId × Settings.InputFunction,
        .object o ∉ (if call.2.taintReturn then nodeFacts c call.1 else []) := by
      intro call
      split <;> simp [hnode]
    simp only [object_mem_facts, IdSet.mem_ofList, seedObjects, List.mem_append, List.mem_flatMap,
      hnode, hobject, hreturn, or_false, false_or, and_false, exists_false]
    grind

theorem follows_start : Follows c (start c) (Taint.start c) := by
  have hempty : Pursued c ⟨∅, ∅, []⟩ :=
    ⟨fun n hn => absurd hn (IdSet.not_mem_empty n), fun o ho => absurd ho (IdSet.not_mem_empty o)⟩
  refine hempty.follows.takeAll rfl fun f => ?_
  rw [mem_facts_start]
  exact (or_iff_left List.not_mem_nil).symm

/-- The state after some rounds with a worklist. -/
def after (c : Context) (k : Nat) : State := (round c)^[k] (start c)

theorem after_succ_eq (hr : Regular c) (k : Nat) : after c (k + 1) = Taint.after c (k + 1) := by
  induction k with
  | zero => exact follows_start.round hr (start_within (possible_closed hr))
  | succ k ih =>
    have hrange := Taint.after_inRange hr k
    have hpursued : Pursued c (Taint.after c (k + 1)) := by
      rw [Taint.after_succ]
      exact pursued_closure hr (InRange.afterNodes hr hrange)
    rw [after, Function.iterate_succ_apply', ← after, ih, Taint.after_succ (k + 1)]
    exact hpursued.follows.round hr (Taint.after_inRange hr (k + 1))

/-- A round from one state to the other has added neither a node nor an object. -/
def Same (s t : State) : Prop := t.nodes.size = s.nodes.size ∧ t.objects.size = s.objects.size

/-- The propagation taints what a worklist taints that visits a node when it is first met and enters
an object when it is first tainted, in as many rounds and with the same growth. -/
theorem run_eq_worklist (hr : Regular c) :
    ∃ k, (∀ j < k, ¬Same (after c j) (after c (j + 1))) ∧ Same (after c k) (after c (k + 1)) ∧
      (run c).1.nodes = (after c (k + 1)).nodes ∧ (run c).1.objects = (after c (k + 1)).objects ∧
      (run c).2.growth = (List.range (k + 1)).map fun j => (after c (j + 1)).nodes.size := by
  have hsame : ∀ j, Same (after c j) (after c (j + 1)) ↔ (Taint.after c j).Settled c := by
    intro j
    unfold Same State.Settled
    rw [after_succ_eq hr, Taint.after_succ]
    cases j with
    | zero =>
      have hstart : Follows c (after c 0) (Taint.after c 0) := follows_start
      rw [hstart.nodes, hstart.objects]
    | succ j => rw [after_succ_eq hr]
  simp only [hsame]
  simp only [after_succ_eq hr]
  exact run_rounds hr

end PointerTriage.Taint.Worklist
