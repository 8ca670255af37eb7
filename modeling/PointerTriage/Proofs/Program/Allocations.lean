import PointerTriage.Proofs.Outcome.Order
import PointerTriage.Proofs.Taint.Soundness

namespace PointerTriage.Built

section

variable {b : Built} {t : Tables} {host : HostFacts} (h : b.Parts t host)
include h

theorem Parts.node_iff_allocates {v : ValueId} :
    (∃ n, b.program.flow.node? n = some ⟨.addr, v⟩) ↔
      b.program.ir.allocates host.allocators v = true := by
  constructor
  · intro hex
    obtain ⟨n, hn⟩ := hex
    rw [h.flow, ValueFlow.node?_ofIr] at hn
    obtain ⟨value, hv, hk, rfl⟩ := ValueFlow.mem_nodesOf.mp (List.mem_of_getElem? hn)
    exact allocates_of_kind (h.sound.value?_of_mem hv) hk
  · intro hallocates
    obtain ⟨value, hv, hk⟩ := kind_of_allocates h.sound hallocates
    obtain ⟨n, _, hn⟩ := h.def_of_kind hv hk
    exact ⟨n, hn⟩

theorem Parts.site?_eq (o : ObjectId) :
    b.pointsTo.site? o = (PointsTo.allocationSites b.program.ir host.allocators)[o]? := by
  rw [h.pointsTo]
  exact PointsTo.site?_solve h.sound host o

theorem Parts.site_iff_allocates {v : ValueId} :
    (∃ o, b.pointsTo.site? o = some v) ↔ b.program.ir.allocates host.allocators v = true := by
  simp only [h.site?_eq]
  exact List.mem_iff_getElem?.symm.trans (PointsTo.mem_allocationSites h.sound)

/-- The object at a site and the site of an object are found from one another. -/
theorem Parts.locationAt?_eq_some_iff {v : ValueId} {o : ObjectId} :
    b.pointsTo.locationAt? v = some o ↔ b.pointsTo.site? o = some v :=
  h.paired.index v o

theorem Parts.mem_objects_of_site {v : ValueId} {o : ObjectId} (hsite : b.pointsTo.site? o = some v) :
    o ∈ b.pointsTo.objects v := by
  rw [h.site?_eq] at hsite
  rw [h.pointsTo]
  exact (PointsTo.mem_solve_iff h.sound).mpr (.own hsite)

/-- Objects are numbered in the order of their sites. -/
theorem Parts.site_lt_site {o o' : ObjectId} {v v' : ValueId} (hv : b.pointsTo.site? o = some v)
    (hv' : b.pointsTo.site? o' = some v') (hlt : o < o') : v < v' := by
  rw [h.site?_eq] at hv hv'
  obtain ⟨ho, rfl⟩ := List.getElem?_eq_some_iff.mp hv
  obtain ⟨ho', rfl⟩ := List.getElem?_eq_some_iff.mp hv'
  exact List.pairwise_iff_getElem.mp (PointsTo.ascending_allocationSites h.sound _) o o' ho ho' hlt

/-- What has an allocation node has an object, and points to it. -/
theorem Parts.object_of_node {n : NodeId} {v : ValueId}
    (hn : b.program.flow.node? n = some ⟨.addr, v⟩) :
    ∃ o, b.pointsTo.site? o = some v ∧ o ∈ b.pointsTo.objects v := by
  obtain ⟨o, ho⟩ := h.site_iff_allocates.mpr (h.node_iff_allocates.mp ⟨n, hn⟩)
  exact ⟨o, ho, h.mem_objects_of_site ho⟩

end

/-- The objects of a program and its allocation nodes belong to the same values, one each, in the same
order; a tainted object comes with its node. -/
structure ObjectsMatchNodes (b : Built) : Prop where
  node_iff : ∀ v, (∃ n, b.program.flow.node? n = some ⟨.addr, v⟩) ↔
    ∃ o, b.pointsTo.locationAt? v = some o
  node_unique : ∀ n v, b.program.flow.node? n = some ⟨.addr, v⟩ → b.program.flow.def? v = some n
  site_iff : ∀ v o, b.pointsTo.locationAt? v = some o ↔ b.pointsTo.site? o = some v
  own : ∀ v o, b.pointsTo.locationAt? v = some o → o ∈ b.pointsTo.objects v
  ascending : ∀ o o' v v', b.pointsTo.site? o = some v → b.pointsTo.site? o' = some v' →
    o < o' → v < v'
  exposed : ∀ settings, ∀ o ∈ (Taint.run (b.context settings)).1.objects,
    ∃ v n, b.pointsTo.site? o = some v ∧ b.program.flow.node? n = some ⟨.addr, v⟩ ∧
      n ∈ (Taint.run (b.context settings)).1.allocations

/-- Whatever the allocators of a program are, its objects match its allocation nodes. -/
theorem objects_match_nodes {t : Tables} {host : HostFacts} {b : Built}
    (hb : ofTables t host = .ok b) : b.ObjectsMatchNodes := by
  have h := ofTables_ok_iff.mp hb
  constructor
  case node_iff =>
    intro v
    simp only [h.locationAt?_eq_some_iff]
    exact h.node_iff_allocates.trans h.site_iff_allocates.symm
  case node_unique => exact fun n v hn => h.distinct.def?_of_node hn
  case site_iff => exact fun v o => h.locationAt?_eq_some_iff
  case own => exact fun v o ho => h.mem_objects_of_site (h.locationAt?_eq_some_iff.mp ho)
  case ascending => exact fun o o' v v' hv hv' hlt => h.site_lt_site hv hv' hlt
  case exposed =>
    intro settings o ho
    obtain ⟨_, v, n, hv, hn, hreported⟩ := Taint.exposed_of_tainted h ho
    obtain ⟨m, hm⟩ := h.node_iff_allocates.mpr (h.site_iff_allocates.mp ⟨o, hv⟩)
    cases hn.symm.trans (h.distinct.def?_of_node hm)
    exact ⟨v, n, hv, hm, hreported⟩

/-- `dispatch` has two objects, of the variable 0 and of the call 8 of its own allocator. Both are
tainted, and so both nodes are reported. -/
theorem objects_match_nodes_dispatch : ∃ b, dispatch.build = .ok b ∧ b.ObjectsMatchNodes ∧
    b.pointsTo.locationAt? 0 = some 0 ∧ b.pointsTo.locationAt? 8 = some 1 ∧
    ∀ o ∈ [0, 1], ∃ v n, b.pointsTo.site? o = some v ∧
      b.program.flow.node? n = some ⟨.addr, v⟩ ∧
      n ∈ (Taint.run (b.context .unchanged)).1.allocations := by
  obtain ⟨b, hb, hvalues⟩ := exists_ok_of_map (x := dispatch.build)
    (f := fun b => (b.pointsTo.locationAt? 0, b.pointsTo.locationAt? 8,
      (Taint.run (b.context .unchanged)).1.objects.toList))
    (y := (some 0, some 1, [0, 1])) (by decide +kernel)
  obtain ⟨_, _, _, htables⟩ := Snapshot.build_ok_iff.mp hb
  have hmatch := objects_match_nodes htables
  simp only [Prod.mk.injEq] at hvalues
  obtain ⟨hvariable, hcall, htainted⟩ := hvalues
  refine ⟨b, hb, hmatch, hvariable, hcall, ?_⟩
  intro o ho
  exact hmatch.exposed .unchanged o (IdSet.mem_def.mpr (htainted ▸ ho))

end PointerTriage.Built
