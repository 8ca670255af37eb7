import PointerTriage.PointsTo.Solver
import PointerTriage.Proofs.Sets
import PointerTriage.Proofs.ValueFlow.Definitions

namespace PointerTriage.PointsTo

/-- The values that allocate, in order; an object is a position in this list. -/
def allocationSites (ir : Ir) (allocators : List String) : List ValueId :=
  (ir.values.filter (ir.allocates allocators ·.id)).map Value.id

theorem ascending_allocationSites {ir : Ir} (hs : ir.tables.Sound) (allocators : List String) :
    (allocationSites ir allocators).Pairwise (· < ·) :=
  List.pairwise_map.mpr (hs.ids_ascending.filter _)

theorem nodup_allocationSites {ir : Ir} (hs : ir.tables.Sound) (allocators : List String) :
    (allocationSites ir allocators).Nodup :=
  (ascending_allocationSites hs allocators).imp Nat.ne_of_lt

theorem mem_allocationSites {ir : Ir} (hs : ir.tables.Sound) {allocators : List String}
    {v : ValueId} : v ∈ allocationSites ir allocators ↔ ir.allocates allocators v = true := by
  unfold allocationSites
  rw [List.mem_map]
  constructor
  · intro hex
    obtain ⟨value, hvalue, rfl⟩ := hex
    exact (List.mem_filter.mp hvalue).2
  · intro hallocates
    obtain ⟨value, hvalue, _⟩ := kind_of_allocates hs hallocates
    have hid := hs.id_of_value? hvalue
    exact ⟨value, List.mem_filter.mpr ⟨Ir.mem_values hvalue, hid ▸ hallocates⟩, hid⟩

theorem getElem?_concat_eq_some_iff {α : Type} {l : List α} {a b : α} {i : Nat} :
    (l ++ [a])[i]? = some b ↔ l[i]? = some b ∨ (i = l.length ∧ a = b) := by
  rw [List.getElem?_append]
  split
  · rename_i hi
    exact (or_iff_left fun hlast => Nat.ne_of_lt hi hlast.1).symm
  · rename_i hi
    rw [List.getElem?_eq_none (Nat.le_of_not_lt hi), List.getElem?_singleton]
    split
    · rename_i hlast
      have : i = l.length := by omega
      simp [this]
    · rename_i hlast
      have : i ≠ l.length := by omega
      simp [this]

/-- The inverse map holds the pairs of the relation, and the index leads from a site to its object. -/
structure Paired (p : PointsTo) : Prop where
  inverse : ∀ v o, v ∈ p.pointers o ↔ o ∈ p.objects v
  index : ∀ v o, p.locationAt? v = some o ↔ p.site? o = some v

theorem paired_empty : empty.Paired where
  inverse v o := iff_of_false (Relation.not_mem_image_empty o v) (Relation.not_mem_image_empty v o)
  index v o := iff_of_false (by simp [locationAt?, empty, IdMap.get?, IdMap.empty])
    (by simp [site?, empty])

theorem site?_eq (p : PointsTo) (o : ObjectId) :
    p.site? o = (p.locations.map Location.site)[o]? := by
  rw [List.getElem?_map, site?]

theorem Paired.locationAt?_eq_some_iff {p : PointsTo} (h : p.Paired) {sites : List ValueId}
    (hl : p.locations.map Location.site = sites) {v : ValueId} {o : ObjectId} :
    p.locationAt? v = some o ↔ sites[o]? = some v := by
  rw [h.index, site?_eq, hl]

theorem Paired.locationAt?_eq_none_iff {p : PointsTo} (h : p.Paired) {v : ValueId} :
    p.locationAt? v = none ↔ v ∉ p.locations.map Location.site := by
  rw [List.mem_iff_getElem?, Option.eq_none_iff_forall_ne_some, not_exists]
  exact forall_congr' fun o => not_congr (h.locationAt?_eq_some_iff rfl)

/-- A new pair goes into both maps; a known one, and an unknown object, change nothing. -/
theorem relate_cases (p : PointsTo) (v : ValueId) (o : ObjectId) :
    (o < p.locations.length ∧ o ∉ p.objects v ∧ p.relate v o =
      ({ p with relation := p.relation.insert v o, inverse := p.inverse.insert o v }, true)) ∨
    ((o < p.locations.length → o ∈ p.objects v) ∧ p.relate v o = (p, false)) := by
  unfold relate
  split
  · rename_i hlt
    split
    · rename_i hold
      exact .inr ⟨fun _ => hold, rfl⟩
    · rename_i hnew
      exact .inl ⟨hlt, hnew, rfl⟩
  · rename_i hge
    exact .inr ⟨fun hlt => absurd hlt hge, rfl⟩

theorem locations_add (p : PointsTo) (v : ValueId) (o : ObjectId) :
    (p.add v o).locations = p.locations := by
  unfold add
  rcases p.relate_cases v o with ⟨_, _, he⟩ | ⟨_, he⟩ <;> rw [he]

theorem mem_objects_add {p : PointsTo} {v w : ValueId} {o q : ObjectId} :
    q ∈ (p.add v o).objects w ↔
      (w = v ∧ q = o ∧ o < p.locations.length) ∨ q ∈ p.objects w := by
  unfold add
  rcases p.relate_cases v o with ⟨hlt, _, he⟩ | ⟨hold, he⟩
  · rw [he]
    simp only [objects, Relation.mem_image_insert, hlt, and_true]
  · rw [he, or_iff_right_of_imp]
    intro hpair
    obtain ⟨rfl, rfl, hlt⟩ := hpair
    exact hold hlt

theorem Paired.add {p : PointsTo} (h : p.Paired) (v : ValueId) (o : ObjectId) :
    (p.add v o).Paired := by
  unfold PointsTo.add
  rcases p.relate_cases v o with ⟨_, _, he⟩ | ⟨_, he⟩
  · rw [he]
    refine ⟨?_, h.index⟩
    intro w q
    have hold := h.inverse w q
    simp only [pointers, objects] at hold ⊢
    rw [Relation.mem_image_insert, Relation.mem_image_insert, hold, and_comm]
  · rw [he]
    exact h

theorem sites_setShape (p : PointsTo) (o : ObjectId) (shape : Shape) :
    (p.setShape o shape).locations.map Location.site = p.locations.map Location.site := by
  apply List.ext_getElem?
  intro i
  simp only [PointsTo.setShape, List.getElem?_map, List.getElem?_modify]
  cases p.locations[i]? with
  | none => rfl
  | some l =>
    simp only [Option.map_eq_map, Option.map_some]
    split <;> rfl

theorem Paired.setShape {p : PointsTo} (h : p.Paired) (o : ObjectId) (shape : Shape) :
    (p.setShape o shape).Paired where
  inverse := h.inverse
  index v q := by rw [site?_eq, sites_setShape, ← site?_eq]; exact h.index v q

theorem addLocation_of_known {p : PointsTo} {v : ValueId} {o : ObjectId}
    (hv : p.locationAt? v = some o) : p.addLocation v = (p, o) := by
  simp [addLocation, hv]

section

variable {p : PointsTo} {v : ValueId} (hv : p.locationAt? v = none)
include hv

/-- A new site gets the next object. -/
theorem addLocation_of_new :
    p.addLocation v = (PointsTo.add
      { p with
        locations := p.locations ++ [⟨v, none⟩], index := p.index.set v p.locations.length }
      v p.locations.length, p.locations.length) := by
  simp [addLocation, hv]

theorem locations_addLocation :
    (p.addLocation v).1.locations = p.locations ++ [⟨v, none⟩] := by
  rw [addLocation_of_new hv]
  exact locations_add _ _ _

theorem mem_objects_addLocation {w : ValueId} {o : ObjectId} :
    o ∈ (p.addLocation v).1.objects w ↔
      (w = v ∧ o = p.locations.length) ∨ o ∈ p.objects w := by
  rw [addLocation_of_new hv, mem_objects_add]
  simp only [List.length_append, List.length_singleton, Nat.lt_succ_self, and_true]
  rfl

end

/-- A new site keeps its object in the index. -/
theorem Paired.push {p : PointsTo} (h : p.Paired) {v : ValueId} (hv : p.locationAt? v = none) :
    Paired { p with
      locations := p.locations ++ [⟨v, none⟩], index := p.index.set v p.locations.length } := by
  refine ⟨h.inverse, ?_⟩
  intro w o
  -- No object has the new site, so that its entry replaces none.
  have hfresh : p.site? o = some w → w ≠ v := by
    rintro hsite rfl
    rw [(h.index w o).mpr hsite] at hv
    cases hv
  have hindex : (p.index.set v p.locations.length).get? w = some o ↔
      (w = v ∧ o = p.locations.length) ∨ (w ≠ v ∧ p.site? o = some w) := by
    rw [IdMap.get?_set, ← h.index, locationAt?]
  have hsites : ((p.locations ++ [(⟨v, none⟩ : Location)]).map Location.site)[o]? = some w ↔
      p.site? o = some w ∨ (o = p.locations.length ∧ v = w) := by
    rw [List.map_append, List.map_singleton, getElem?_concat_eq_some_iff, List.length_map, site?_eq]
  rw [site?_eq]
  refine hindex.trans (Iff.trans ?_ hsites.symm)
  grind

theorem Paired.addLocation {p : PointsTo} (h : p.Paired) (v : ValueId) :
    (p.addLocation v).1.Paired := by
  cases hv : p.locationAt? v with
  | some o =>
    rw [addLocation_of_known hv]
    exact h
  | none =>
    rw [addLocation_of_new hv]
    exact (h.push hv).add v _

/-- The objects are those of a list of sites, and a value points to those it allocates. -/
structure Registered (p : PointsTo) (sites : List ValueId) : Prop where
  paired : p.Paired
  located : p.locations.map Location.site = sites
  own : ∀ v o, o ∈ p.objects v ↔ sites[o]? = some v

theorem registered_empty : empty.Registered [] where
  paired := paired_empty
  located := rfl
  own v o := iff_of_false (Relation.not_mem_image_empty v o) (by simp)

theorem Registered.setShape {p : PointsTo} {sites : List ValueId} (h : p.Registered sites)
    (o : ObjectId) (shape : Shape) : (p.setShape o shape).Registered sites :=
  ⟨h.paired.setShape o shape, (sites_setShape p o shape).trans h.located, h.own⟩

theorem Registered.addLocation {p : PointsTo} {sites : List ValueId} (h : p.Registered sites)
    {v : ValueId} (hv : v ∉ sites) : (p.addLocation v).1.Registered (sites ++ [v]) := by
  obtain ⟨hpaired, rfl, hown⟩ := h
  have hnew := hpaired.locationAt?_eq_none_iff.mpr hv
  refine ⟨hpaired.addLocation v, by rw [locations_addLocation hnew]; simp, ?_⟩
  intro w o
  rw [mem_objects_addLocation hnew, getElem?_concat_eq_some_iff, ← hown, List.length_map, or_comm,
    and_comm, eq_comm (a := w)]

/-- One more site, with the shape of what it hands out. -/
def register (p : PointsTo) (v : Value) : PointsTo :=
  match v.allocated? with
  | some shape => (p.addLocation v.id).1.setShape (p.addLocation v.id).2 shape
  | none => (p.addLocation v.id).1

theorem Registered.register {p : PointsTo} {sites : List ValueId} (h : p.Registered sites)
    {v : Value} (hv : v.id ∉ sites) : (p.register v).Registered (sites ++ [v.id]) := by
  unfold PointsTo.register
  split
  · exact (h.addLocation hv).setShape _ _
  · exact h.addLocation hv

theorem Registered.foldl {values : List Value} {p : PointsTo} {sites : List ValueId}
    (h : p.Registered sites) (hd : (sites ++ values.map Value.id).Nodup) :
    (values.foldl PointsTo.register p).Registered (sites ++ values.map Value.id) := by
  induction values generalizing p sites with
  | nil => simpa using h
  | cons v values ih =>
    rw [List.map_cons, List.append_cons] at hd ⊢
    refine ih (h.register ?_) hd
    have hv := (List.nodup_append.mp (List.nodup_append.mp hd).1).2.2
    intro hm
    exact hv _ hm _ (by simp) rfl

/-- The objects of a program with the pointers of their own sites only. -/
def ownObjects (ir : Ir) (allocators : List String) : PointsTo :=
  (ir.values.filter (ir.allocates allocators ·.id)).foldl PointsTo.register empty

theorem registered_ownObjects {ir : Ir} (hs : ir.tables.Sound) (allocators : List String) :
    (ownObjects ir allocators).Registered (allocationSites ir allocators) :=
  registered_empty.foldl (nodup_allocationSites hs allocators)

theorem locations_addAll (p : PointsTo) (pairs : List (ValueId × ObjectId)) :
    (p.addAll pairs).locations = p.locations :=
  List.foldlRecOn (motive := fun q : PointsTo => q.locations = p.locations) pairs _ rfl
    fun q hq _ _ => (locations_add q _ _).trans hq

theorem mem_objects_addAll {p : PointsTo} {pairs : List (ValueId × ObjectId)} {v : ValueId}
    {o : ObjectId} : o ∈ (p.addAll pairs).objects v ↔
      ((v, o) ∈ pairs ∧ o < p.locations.length) ∨ o ∈ p.objects v := by
  induction pairs generalizing p with
  | nil => simp [addAll]
  | cons pair pairs ih =>
    obtain ⟨w, q⟩ := pair
    change o ∈ ((p.add w q).addAll pairs).objects v ↔ _
    rw [ih, mem_objects_add, locations_add, List.mem_cons, Prod.mk.injEq]
    grind

theorem Paired.addAll {p : PointsTo} (h : p.Paired) (pairs : List (ValueId × ObjectId)) :
    (p.addAll pairs).Paired :=
  List.foldlRecOn (motive := Paired) pairs _ h fun _ hq _ _ => hq.add _ _

/-- Adds what the host knows, a fact at a time. -/
def addFact (own p : PointsTo) (fact : ValueId × ValueId) : PointsTo :=
  match own.locationAt? fact.2 with
  | some o => p.add fact.1 o
  | none => p

theorem ofSites_eq (ir : Ir) (host : HostFacts) :
    ofSites ir host = host.pointsTo.foldl (addFact (ownObjects ir host.allocators))
      (ownObjects ir host.allocators) := rfl

section

variable {own : PointsTo} {sites : List ValueId} (hown : own.Registered sites)
include hown

theorem mem_objects_addFact {p : PointsTo} (hp : p.locations = own.locations)
    {fact : ValueId × ValueId} {v : ValueId} {o : ObjectId} :
    o ∈ (addFact own p fact).objects v ↔
      (v = fact.1 ∧ sites[o]? = some fact.2) ∨ o ∈ p.objects v := by
  unfold addFact
  cases hf : own.locationAt? fact.2 with
  | none =>
    have hno : sites[o]? ≠ some fact.2 := by
      intro h
      rw [← hown.paired.locationAt?_eq_some_iff hown.located, hf] at h
      cases h
    simp [hno]
  | some q =>
    have hq := (hown.paired.locationAt?_eq_some_iff hown.located).mp hf
    have hlt : q < p.locations.length := by
      have hlen : own.locations.length = sites.length := by rw [← hown.located, List.length_map]
      rw [hp, hlen]
      exact (List.getElem?_eq_some_iff.mp hq).1
    simp only [mem_objects_add, hlt, and_true]
    rw [← hown.paired.locationAt?_eq_some_iff hown.located, hf, Option.some.injEq, eq_comm (a := q)]

omit hown in
theorem locations_addFact (p : PointsTo) (fact : ValueId × ValueId) :
    (addFact own p fact).locations = p.locations := by
  unfold addFact
  split
  · exact locations_add p _ _
  · rfl

theorem mem_objects_facts {facts : List (ValueId × ValueId)} {p : PointsTo}
    (hp : p.locations = own.locations) {v : ValueId} {o : ObjectId} :
    o ∈ (facts.foldl (addFact own) p).objects v ↔
      (∃ s, (v, s) ∈ facts ∧ sites[o]? = some s) ∨ o ∈ p.objects v := by
  induction facts generalizing p with
  | nil => simp
  | cons fact facts ih =>
    rw [List.foldl_cons, ih ((locations_addFact p fact).trans hp), mem_objects_addFact hown hp]
    constructor
    · intro hor
      rcases hor with ⟨s, hs, ho⟩ | ⟨rfl, ho⟩ | ho
      · exact .inl ⟨s, List.mem_cons_of_mem _ hs, ho⟩
      · exact .inl ⟨fact.2, List.mem_cons_self, ho⟩
      · exact .inr ho
    · intro hor
      rcases hor with ⟨s, hs, ho⟩ | ho
      · rcases List.mem_cons.mp hs with rfl | hs
        · exact .inr (.inl ⟨rfl, ho⟩)
        · exact .inl ⟨s, hs, ho⟩
      · exact .inr (.inr ho)

end

theorem sites_ofSites {ir : Ir} (hs : ir.tables.Sound) (host : HostFacts) :
    (ofSites ir host).locations.map Location.site = allocationSites ir host.allocators := by
  have hkeep : (ofSites ir host).locations = (ownObjects ir host.allocators).locations := by
    rw [ofSites_eq]
    exact List.foldlRecOn
      (motive := fun p : PointsTo => p.locations = (ownObjects ir host.allocators).locations)
      host.pointsTo _ rfl fun p hp fact _ => (locations_addFact p fact).trans hp
  rw [hkeep]
  exact (registered_ownObjects hs host.allocators).located

theorem paired_ofSites {ir : Ir} (hs : ir.tables.Sound) (host : HostFacts) :
    (ofSites ir host).Paired := by
  rw [ofSites_eq]
  refine List.foldlRecOn (motive := Paired) host.pointsTo _
    (registered_ownObjects hs host.allocators).paired ?_
  intro p hp fact _
  unfold addFact
  split
  · exact hp.add _ _
  · exact hp

/-- Where the passes start: own objects, and those that the host knows of. -/
theorem mem_objects_ofSites {ir : Ir} (hs : ir.tables.Sound) {host : HostFacts} {v : ValueId}
    {o : ObjectId} :
    o ∈ (ofSites ir host).objects v ↔
      (allocationSites ir host.allocators)[o]? = some v ∨
      ∃ s, (v, s) ∈ host.pointsTo ∧ (allocationSites ir host.allocators)[o]? = some s := by
  have hown := registered_ownObjects hs host.allocators
  rw [ofSites_eq, mem_objects_facts hown rfl, hown.own, or_comm]

end PointerTriage.PointsTo
