import Mathlib.Data.List.ProdSigma
import PointerTriage.PointsTo.Solver
import PointerTriage.Proofs.Saturation
import PointerTriage.Proofs.Sets

namespace PointerTriage

/-- The pair of a points-to relation and a memory relation meets a constraint. -/
def Constraint.Meets (pts : ValueId → ObjectId → Prop) (mem : ObjectId → ObjectId → Prop) :
    Constraint → Prop
  | .copy source target => ∀ o, pts source o → pts target o
  | .store value pointer => ∀ t o, pts pointer t → pts value o → mem t o
  | .load pointer result => ∀ t o, pts pointer t → mem t o → pts result o

/-- The value whose points-to set a constraint may add to. -/
def Constraint.target? : Constraint → Option ValueId
  | .copy _ target => some target
  | .store _ _ => none
  | .load _ result => some result

namespace PointsTo.State

variable {pts : ValueId → ObjectId → Prop} {mem : ObjectId → ObjectId → Prop}

/-- Both relations of the state lie in the pair. -/
structure Within (s : State) (pts : ValueId → ObjectId → Prop) (mem : ObjectId → ObjectId → Prop) :
    Prop where
  points : ∀ v, ∀ o ∈ s.pointsTo.image v, pts v o
  keeps : ∀ t, ∀ o ∈ s.memory.image t, mem t o

/-- One state lies in another. -/
def Below (s t : State) : Prop :=
  s.Within (fun v o => o ∈ t.pointsTo.image v) fun u o => o ∈ t.memory.image u

/-- The state meets a constraint. -/
def Meets (s : State) (k : Constraint) : Prop :=
  k.Meets (fun v o => o ∈ s.pointsTo.image v) fun t o => o ∈ s.memory.image t

theorem Below.refl (s : State) : s.Below s := ⟨fun _ _ h => h, fun _ _ h => h⟩

theorem Below.within {s t : State} (h : s.Below t) (ht : t.Within pts mem) : s.Within pts mem :=
  ⟨fun v o ho => ht.points v o (h.points v o ho), fun u o ho => ht.keeps u o (h.keeps u o ho)⟩

theorem Below.trans {s t u : State} (h : s.Below t) (h' : t.Below u) : s.Below u := h.within h'

theorem mem_apply_copy {s : State} {source target v o : Nat} :
    o ∈ (s.apply (.copy source target)).pointsTo.image v ↔
      (v = target ∧ o ∈ s.pointsTo.image source) ∨ o ∈ s.pointsTo.image v :=
  Relation.mem_image_insertAll

theorem mem_foldl_stores {stored : IdSet} {targets : List ObjectId} {m : Relation} {t o : Nat} :
    o ∈ (targets.foldl (fun m p => m.insertAll p stored) m).image t ↔
      (t ∈ targets ∧ o ∈ stored) ∨ o ∈ m.image t := by
  induction targets generalizing m with
  | nil => simp
  | cons p targets ih =>
    rw [List.foldl_cons, ih, Relation.mem_image_insertAll, List.mem_cons]
    tauto

theorem mem_apply_store {s : State} {value pointer t o : Nat} :
    o ∈ (s.apply (.store value pointer)).memory.image t ↔
      (t ∈ s.pointsTo.image pointer ∧ o ∈ s.pointsTo.image value) ∨ o ∈ s.memory.image t :=
  mem_foldl_stores

theorem mem_foldl_loads {result : ValueId} {sets : List IdSet} {r : Relation} {v o : Nat} :
    o ∈ (sets.foldl (fun r objects => r.insertAll result objects) r).image v ↔
      (v = result ∧ ∃ objects ∈ sets, o ∈ objects) ∨ o ∈ r.image v := by
  induction sets generalizing r with
  | nil => simp
  | cons objects sets ih =>
    rw [List.foldl_cons, ih, Relation.mem_image_insertAll, List.exists_mem_cons_iff, and_or_left,
      or_left_comm, or_assoc]

theorem mem_apply_load {s : State} {pointer result v o : Nat} :
    o ∈ (s.apply (.load pointer result)).pointsTo.image v ↔
      (v = result ∧ ∃ t ∈ s.pointsTo.image pointer, o ∈ s.memory.image t) ∨
        o ∈ s.pointsTo.image v := by
  refine mem_foldl_loads.trans ?_
  simp [IdSet.mem_def]

theorem below_apply (s : State) (k : Constraint) : s.Below (s.apply k) := by
  cases k with
  | copy source target => exact ⟨fun v o ho => mem_apply_copy.mpr (.inr ho), fun _ _ h => h⟩
  | store value pointer => exact ⟨fun _ _ h => h, fun t o ho => mem_apply_store.mpr (.inr ho)⟩
  | load pointer result => exact ⟨fun v o ho => mem_apply_load.mpr (.inr ho), fun _ _ h => h⟩

theorem Within.apply {s : State} (hw : s.Within pts mem) {k : Constraint} (hk : k.Meets pts mem) :
    (s.apply k).Within pts mem := by
  cases k with
  | copy source target =>
    refine ⟨?_, hw.keeps⟩
    intro v o ho
    rcases mem_apply_copy.mp ho with ⟨rfl, hm⟩ | hm
    · exact hk o (hw.points source o hm)
    · exact hw.points v o hm
  | store value pointer =>
    refine ⟨hw.points, ?_⟩
    intro t o ho
    rcases mem_apply_store.mp ho with ⟨ht, hm⟩ | hm
    · exact hk t o (hw.points pointer t ht) (hw.points value o hm)
    · exact hw.keeps t o hm
  | load pointer result =>
    refine ⟨?_, hw.keeps⟩
    intro v o ho
    rcases mem_apply_load.mp ho with ⟨rfl, t, ht, hm⟩ | hm
    · exact hk t o (hw.points pointer t ht) (hw.keeps t o hm)
    · exact hw.points v o hm

/-- A state meets a constraint that adds nothing to it, in a state that holds at least as much. -/
theorem meets_of_apply {s t : State} {k : Constraint} (hst : s.Below t)
    (h : (t.apply k).Below s) : s.Meets k := by
  cases k with
  | copy source target =>
    intro o ho
    exact h.points target o (mem_apply_copy.mpr (.inl ⟨rfl, hst.points source o ho⟩))
  | store value pointer =>
    intro u o hu ho
    exact h.keeps u o (mem_apply_store.mpr (.inl ⟨hst.points pointer u hu, hst.points value o ho⟩))
  | load pointer result =>
    intro u o hu ho
    exact h.points result o
      (mem_apply_load.mpr (.inl ⟨rfl, u, hst.points pointer u hu, hst.keeps u o ho⟩))

variable {constraints : List Constraint}

theorem below_pass (s : State) : s.Below (s.pass constraints) :=
  (foldl_visits Below.refl Below.trans below_apply constraints s).1

theorem Within.pass {s : State} (hw : s.Within pts mem)
    (hk : ∀ k ∈ constraints, k.Meets pts mem) : (s.pass constraints).Within pts mem :=
  List.foldlRecOn (motive := fun t : State => t.Within pts mem) constraints State.apply hw
    fun _ hw k hm => hw.apply (hk k hm)

/-- A pass adds nothing. -/
def Settled (constraints : List Constraint) (s : State) : Prop :=
  (s.pass constraints).size = s.size

instance (s : State) : Decidable (s.Settled constraints) := inferInstanceAs (Decidable (_ = _))

theorem Below.size_le {s t : State} (h : s.Below t) :
    s.pointsTo.size ≤ t.pointsTo.size ∧ s.memory.size ≤ t.memory.size :=
  ⟨Relation.size_le h.points, Relation.size_le h.keeps⟩

theorem Settled.below {s : State} (h : s.Settled constraints) : (s.pass constraints).Below s := by
  have hb : s.Below (s.pass constraints) := below_pass s
  obtain ⟨hp, hm⟩ := hb.size_le
  unfold Settled size at h
  constructor
  · intro v o ho
    rwa [Relation.image_eq_of_subset hb.points (by omega) v]
  · intro t o ho
    rwa [Relation.image_eq_of_subset hb.keeps (by omega) t]

/-- A pass that adds nothing has found every constraint met. -/
theorem Settled.meets {s : State} (h : s.Settled constraints) :
    ∀ k ∈ constraints, (s.pass constraints).Meets k := by
  intro k hk
  obtain ⟨t, hst, ht⟩ := (foldl_visits Below.refl Below.trans below_apply constraints s).2 k hk
  exact meets_of_apply (h.below.trans hst) ht

/-- Values of a list and objects below a number, and objects below it in memory. -/
abbrev InRange (keys : List ValueId) (n : Nat) (s : State) : Prop :=
  s.Within (fun v o => v ∈ keys ∧ o < n) fun t o => t < n ∧ o < n

theorem InRange.size_le {keys : List ValueId} {n : Nat} {s : State} (hs : s.InRange keys n) :
    s.size ≤ (keys.length + n) * n := by
  have hp : s.pointsTo.pairs.length ≤ (keys ×ˢ List.range n).length := by
    refine s.pointsTo.nodup_pairs.length_le_of_subset ?_
    rintro ⟨v, o⟩ ho
    obtain ⟨hv, hn⟩ := hs.points v o (Relation.mem_pairs.mp ho)
    exact List.mem_product.mpr ⟨hv, List.mem_range.mpr hn⟩
  have hm : s.memory.pairs.length ≤ (List.range n ×ˢ List.range n).length := by
    refine s.memory.nodup_pairs.length_le_of_subset ?_
    rintro ⟨t, o⟩ ho
    obtain ⟨ht, hn⟩ := hs.keeps t o (Relation.mem_pairs.mp ho)
    exact List.mem_product.mpr ⟨List.mem_range.mpr ht, List.mem_range.mpr hn⟩
  rw [Relation.length_pairs, List.length_product, List.length_range] at hp hm
  rw [size, Nat.add_mul]
  exact Nat.add_le_add hp hm

/-- No constraint leads out of a range that has its target. -/
theorem meets_range {keys : List ValueId} {n : Nat} {k : Constraint}
    (hk : ∀ v, k.target? = some v → v ∈ keys) :
    k.Meets (fun v o => v ∈ keys ∧ o < n) fun t o => t < n ∧ o < n := by
  cases k with
  | copy source target => exact fun o ho => ⟨hk target rfl, ho.2⟩
  | store value pointer => exact fun t o ht ho => ⟨ht.2, ho.2⟩
  | load pointer result => exact fun t o _ ho => ⟨hk result rfl, ho.2⟩

theorem saturate_eq {capacity : Nat} {s : State} {k : Nat}
    (hfall : ∀ j < k, capacity - ((pass constraints)^[j + 1] s).size <
      capacity - ((pass constraints)^[j] s).size)
    (hlast : capacity - ((pass constraints)^[k] s).size ≤
      capacity - ((pass constraints)^[k + 1] s).size) :
    saturate constraints capacity s = ((pass constraints)^[k + 1] s, k + 1) := by
  induction k generalizing s with
  | zero =>
    have hstop : ¬capacity - (s.pass constraints).size < capacity - s.size := Nat.not_lt.mpr hlast
    rw [saturate]
    simp [hstop]
  | succ k ih =>
    have hfirst : capacity - (s.pass constraints).size < capacity - s.size :=
      hfall 0 (Nat.succ_pos k)
    have hrest := ih (s := s.pass constraints)
      (fun j hj => hfall (j + 1) (Nat.succ_lt_succ hj)) hlast
    rw [saturate]
    simp only [hfirst, if_true, hrest]
    rfl

theorem iterate_within {s : State} (hw : s.Within pts mem)
    (hk : ∀ k ∈ constraints, k.Meets pts mem) (j : Nat) :
    ((pass constraints)^[j] s).Within pts mem := by
  induction j with
  | zero => exact hw
  | succ j ih =>
    rw [Function.iterate_succ_apply']
    exact ih.pass hk

theorem iterate_below (s : State) (j : Nat) : s.Below ((pass constraints)^[j] s) := by
  induction j with
  | zero => exact Below.refl s
  | succ j ih =>
    rw [Function.iterate_succ_apply']
    exact ih.trans (below_pass _)

/-- Under a capacity that the relations fit in, the passes go on exactly as long as they add
something. -/
theorem saturate_passes {keys : List ValueId} {n capacity : Nat} {s : State}
    (hs : s.InRange keys n) (hk : ∀ k ∈ constraints, ∀ v, k.target? = some v → v ∈ keys)
    (hcap : (keys.length + n) * n ≤ capacity) :
    ∃ k, (∀ j < k, ¬((pass constraints)^[j] s).Settled constraints) ∧
      ((pass constraints)^[k] s).Settled constraints ∧
      saturate constraints capacity s = ((pass constraints)^[k + 1] s, k + 1) := by
  have hfits : ∀ j, ((pass constraints)^[j] s).size ≤ capacity := fun j =>
    Nat.le_trans (InRange.size_le (iterate_within hs (fun k hm => meets_range (hk k hm)) j)) hcap
  have hgrows : ∀ j, ((pass constraints)^[j] s).size ≤ ((pass constraints)^[j + 1] s).size := by
    intro j
    rw [Function.iterate_succ_apply']
    obtain ⟨hp, hm⟩ := Below.size_le (below_pass ((pass constraints)^[j] s))
    exact Nat.add_le_add hp hm
  have hfalls : ∀ j, capacity - ((pass constraints)^[j + 1] s).size <
      capacity - ((pass constraints)^[j] s).size ↔
      ¬((pass constraints)^[j] s).Settled constraints := by
    intro j
    have hle := hfits (j + 1)
    have hge := hgrows j
    rw [Function.iterate_succ_apply'] at hle hge ⊢
    unfold Settled
    omega
  obtain ⟨k, hfall, hlast⟩ := exists_last_round (pass constraints) (fun t => capacity - t.size) s
  refine ⟨k, fun j hj => (hfalls j).mp (hfall j hj), ?_, saturate_eq hfall hlast⟩
  refine Decidable.not_not.mp fun hn => ?_
  exact Nat.lt_irrefl _ (Nat.lt_of_lt_of_le ((hfalls k).mpr hn) hlast)

end PointsTo.State

end PointerTriage
