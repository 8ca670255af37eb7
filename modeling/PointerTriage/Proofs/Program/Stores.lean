import PointerTriage.Proofs.Program.CrossLinks

namespace PointerTriage

namespace ControlFlow

/-- The nodes that each location keeps, and the location that each node keeps. -/
structure Stores where
  attached : Array (List NodeId)
  located : Array (Option LocationId)

namespace Stores

def empty (locations nodes : Nat) : Stores := ⟨.replicate locations [], .replicate nodes none⟩

def attach (s : Stores) (c : LocationId) (n : NodeId) : Stores :=
  { s with attached := s.attached.modify c fun ns => if ns.contains n then ns else ns ++ [n] }

def locate (s : Stores) (n : NodeId) (c : LocationId) : Stores :=
  { s with located := s.located.modify n fun _ => some c }

def put (s : Stores) (place : NodeId × LocationId) : Stores :=
  (s.attach place.2 place.1).locate place.1 place.2

/-- The stores keep the places of the graph, for the nodes in range. -/
structure Holds (s : Stores) (nodes : Nat) (g : ControlFlow) : Prop where
  attached : ∀ c, s.attached[c]? = if c < g.nodes.size then some (g.flowNodes c) else none
  located : ∀ n, s.located[n]? = if n < nodes then some (g.location? n) else none

variable {s : Stores} {nodes : Nat} {g : ControlFlow}

theorem holds_empty : (empty g.nodes.size nodes).Holds nodes { g with places := [] } :=
  ⟨fun _ => Array.getElem?_replicate, fun _ => Array.getElem?_replicate⟩

/-- A node that sits nowhere yet comes last at its location. -/
theorem Holds.put (h : s.Holds nodes g) {n : NodeId} (hnew : ∀ c, (n, c) ∉ g.places)
    (c : LocationId) : (s.put (n, c)).Holds nodes { g with places := g.places ++ [(n, c)] } := by
  constructor
  case attached =>
    intro c'
    simp only [Stores.put, locate, attach, Array.getElem?_modify, h.attached]
    by_cases hc : c = c'
    · subst hc
      rw [if_pos rfl]
      split <;> simp [flowNodes, hnew]
    · simp [hc, flowNodes]
  case located =>
    intro n'
    simp only [Stores.put, locate, attach, Array.getElem?_modify, h.located]
    by_cases hn : n = n'
    · subst hn
      have hnone : g.places.find? (·.1 == n) = none := by
        refine List.find?_eq_none.mpr ?_
        intro place hplace heq
        exact hnew place.2 (eq_of_beq heq ▸ hplace)
      rw [if_pos rfl]
      split <;> simp [location?, List.find?_append, hnone]
    · simp [hn, location?, List.find?_append]

theorem holds_foldl {places : List (NodeId × LocationId)} (hd : (places.map (·.1)).Nodup) :
    (places.foldl Stores.put (empty g.nodes.size nodes)).Holds nodes { g with places } := by
  induction places using List.reverseRecOn with
  | nil => exact holds_empty
  | append_singleton places place ih =>
    rw [List.map_append, List.nodup_append] at hd
    obtain ⟨hd, _, hout⟩ := hd
    rw [List.foldl_concat]
    refine (ih hd).put (n := place.1) ?_ place.2
    intro c hm
    exact hout place.1 (List.mem_map.mpr ⟨_, hm, rfl⟩) place.1 (by simp) rfl

end Stores

theorem nodup_params {ir : Ir} (hh : ir.tables.Housed) {f : Function} (hf : f ∈ ir.defined) :
    f.params.Nodup := by
  refine List.pairwise_iff_getElem.mpr ?_
  intro i j hi hj hij heq
  obtain ⟨value, hvalue, hk⟩ := hh.param f (Ir.mem_defined.mp hf).1 i _ (List.getElem?_eq_getElem hi)
  obtain ⟨value', hvalue', hk'⟩ :=
    hh.param f (Ir.mem_defined.mp hf).1 j _ (List.getElem?_eq_getElem hj)
  rw [heq, hvalue'] at hvalue
  cases hvalue
  cases hk.symm.trans hk'
  exact Nat.lt_irrefl _ hij

section

variable {ir : Ir} (hs : ir.tables.Sound) (hh : ir.tables.Housed)
include hs hh

/-- Each function places its parameters and its instructions, and these are of no other function. -/
theorem nodup_sittings : (sittings ir).Nodup := by
  refine List.nodup_append.mpr
    ⟨List.nodup_flatMap.mpr ⟨?_, (defined_ids hs).imp_of_mem ?_⟩, ?_, ?_⟩
  · intro f hf
    refine List.nodup_append.mpr ⟨?_, ?_, ?_⟩
    · exact (nodup_params hh hf).map (fun _ _ heq => (Prod.mk.inj heq).1)
    · exact (Ir.nodup_instructions hs hh hf).map (fun _ _ heq => (Prod.mk.inj heq).1)
    · rintro _ hm _ hm' rfl
      obtain ⟨_, _, rfl⟩ := List.mem_map.mp hm
      obtain ⟨_, _, heq⟩ := List.mem_map.mp hm'
      cases heq
  · intro f f' hf hf' hne s hm hm'
    simp only [List.mem_append, List.mem_map, List.mem_flatMap] at hm hm'
    rcases hm with ⟨_, _, rfl⟩ | ⟨v, ⟨b, hb, hv⟩, rfl⟩
    · simp [hne.symm] at hm'
    · obtain ⟨b', hb', hv'⟩ : ∃ b ∈ ir.body f', v ∈ b.instructions := by simpa using hm'
      have hblock := Ir.eq_of_mem_instructions hs hh ((Ir.mem_body hs).mp hb).1
        ((Ir.mem_body hs).mp hb').1 hv hv'
      subst hblock
      exact hne ((Ir.function_of_mem_body hs hh hf hb).symm.trans
        (Ir.function_of_mem_body hs hh hf' hb'))
  · refine List.pairwise_map.mpr ((hs.ids_ascending.filter _).imp ?_)
    intro v w hlt heq
    exact Nat.ne_of_lt hlt (Prod.mk.inj heq).1
  · rintro _ hm _ hm' rfl
    obtain ⟨_, _, rfl⟩ := List.mem_map.mp hm'
    simp at hm

/-- No node is placed twice. -/
theorem nodup_placesOf (g : ControlFlow) (flow : ValueFlow) :
    ((g.placesOf ir flow).map (·.1)).Nodup := by
  rw [placesOf_eq, List.map_flatMap]
  refine List.nodup_flatMap.mpr ⟨?_, (nodup_sittings hs hh).imp_of_mem ?_⟩
  · intro s _
    unfold place
    split <;> simp
  · rintro ⟨v, p⟩ ⟨w, q⟩ hv hw hne n hm hm'
    obtain ⟨⟨_, c⟩, hplace, rfl⟩ := List.mem_map.mp hm
    obtain ⟨⟨_, c'⟩, hplace', rfl⟩ := List.mem_map.mp hm'
    cases ValueFlow.eq_of_def? (mem_place.mp hplace).1 (mem_place.mp hplace').1
    have hpoint := ((mem_sittings hs hh).mp hv).unique hs hh ((mem_sittings hs hh).mp hw)
    exact hne (hpoint ▸ rfl)

end

end ControlFlow

namespace Built

theorem places_inRange {s : Snapshot} {b : Built} (h : s.build = .ok b) {n : NodeId} {c : LocationId}
    (hp : (n, c) ∈ b.program.control.places) :
    n < b.program.flow.nodes.size ∧ c < b.program.control.nodes.size := by
  obtain ⟨_, host, _, _, hparts, hs, hh⟩ := Snapshot.layout_of_build h
  obtain ⟨v, p, _, hn, hc⟩ := (ControlFlow.mem_places hs hh hparts.control).mp hp
  have hg := ControlFlow.nodes_of_ofIr hparts.control
  obtain ⟨_, hnode, _⟩ := Option.map_eq_some_iff.mp (ValueFlow.value?_of_def? hn)
  obtain ⟨_, _, hlocation⟩ := (ControlFlow.locate?_eq_some_iff hs hh hg).mp hc
  exact ⟨(Array.getElem?_eq_some_iff.mp hnode).1, (Array.getElem?_eq_some_iff.mp hlocation).1⟩

/-- The places of a program are what the two stores keep once they are filled side by side, node by
node. -/
theorem stores_of_build {s : Snapshot} {b : Built} (h : s.build = .ok b) :
    (b.program.control.places.foldl ControlFlow.Stores.put
      (.empty b.program.control.nodes.size b.program.flow.nodes.size)).Holds
      b.program.flow.nodes.size b.program.control := by
  obtain ⟨_, host, _, _, hparts, hs, hh⟩ := Snapshot.layout_of_build h
  refine ControlFlow.Stores.holds_foldl (g := b.program.control) ?_
  obtain ⟨_, hcontrol⟩ := ControlFlow.ofIr_ok hparts.control
  rw [hcontrol]
  exact ControlFlow.nodup_placesOf hs hh _ _

/-- Reading either store is looking through the places. -/
theorem read_stores_of_build {s : Snapshot} {b : Built} (h : s.build = .ok b) :
    let stores := b.program.control.places.foldl ControlFlow.Stores.put
      (.empty b.program.control.nodes.size b.program.flow.nodes.size)
    (∀ c, stores.attached.getD c [] = b.program.control.flowNodes c) ∧
      ∀ n, stores.located.getD n none = b.program.control.location? n := by
  have hholds := stores_of_build h
  constructor
  · intro c
    rw [Array.getD_eq_getD_getElem?, hholds.attached]
    split
    · rfl
    · rename_i hc
      refine (List.eq_nil_iff_forall_not_mem.mpr ?_).symm
      intro n hn
      exact hc (places_inRange h (c := c) (n := n) (by simpa [ControlFlow.flowNodes] using hn)).2
  · intro n
    rw [Array.getD_eq_getD_getElem?, hholds.located]
    split
    · rfl
    · rename_i hn
      refine (Option.map_eq_none_iff.mpr (List.find?_eq_none.mpr ?_)).symm
      intro place hplace heq
      exact hn (eq_of_beq heq ▸ (places_inRange h hplace).1)

end Built

end PointerTriage
