import PointerTriage.Proofs.CallGraph
import PointerTriage.Proofs.PointsTo.Objects
import PointerTriage.Proofs.PointsTo.Passes
import PointerTriage.Proofs.Program.Parts

namespace PointerTriage.PointsTo

section

variable (ir : Ir) (host : HostFacts)

/-- What points where, and what is kept in which object. -/
inductive Judgement where
  | points (v : ValueId) (o : ObjectId)
  | keeps (t o : ObjectId)

/-- The pair of relations that no rule leads out of. -/
structure Closed (pts : ValueId → ObjectId → Prop) (mem : ObjectId → ObjectId → Prop) : Prop where
  own : ∀ s o, (allocationSites ir host.allocators)[o]? = some s → pts s o
  fact : ∀ p s o, (p, s) ∈ host.pointsTo → (allocationSites ir host.allocators)[o]? = some s →
    pts p o
  base : ∀ v ∈ ir.values, v.opcode? = some .getElementPtr ∨ v.opcode? = some .cast →
    ∀ a, v.operands.head? = some a → ∀ o, pts a o → pts v.id o
  phi : ∀ v ∈ ir.values, v.opcode? = some .phi → ∀ a ∈ v.operands, ∀ o, pts a o → pts v.id o
  argument : ∀ call ∈ ir.values, ∀ f, ir.Calls host call f →
    ∀ function, ir.function? f = some function →
    ∀ (i : Nat) a p, call.operands[i]? = some a → function.params[i]? = some p →
    ∀ o, pts a o → pts p o
  result : ∀ call ∈ ir.values, ∀ f, ir.Calls host call f → ∀ r ∈ ir.values, ir.ReturnsFrom r f →
    ∀ a, r.operands.head? = some a → ∀ o, pts a o → pts call.id o
  store : ∀ v ∈ ir.values, v.opcode? = some .store → ∀ a p rest, v.operands = a :: p :: rest →
    ∀ t o, pts p t → pts a o → mem t o
  load : ∀ v ∈ ir.values, v.opcode? = some .load → ∀ p, v.operands.head? = some p →
    ∀ t o, pts p t → mem t o → pts v.id o

/-- Derivations by the rules. -/
inductive Derives : Judgement → Prop where
  | own {s : ValueId} {o : ObjectId}
      (site : (allocationSites ir host.allocators)[o]? = some s) : Derives (.points s o)
  | fact {p s : ValueId} {o : ObjectId} (known : (p, s) ∈ host.pointsTo)
      (site : (allocationSites ir host.allocators)[o]? = some s) : Derives (.points p o)
  | base {v : Value} {a : ValueId} {o : ObjectId} (hv : v ∈ ir.values)
      (opcode : v.opcode? = some .getElementPtr ∨ v.opcode? = some .cast)
      (operand : v.operands.head? = some a) (ha : Derives (.points a o)) : Derives (.points v.id o)
  | phi {v : Value} {a : ValueId} {o : ObjectId} (hv : v ∈ ir.values)
      (opcode : v.opcode? = some .phi) (operand : a ∈ v.operands) (ha : Derives (.points a o)) :
      Derives (.points v.id o)
  | argument {call : Value} {f : FunctionId} {function : Function} {i : Nat} {a p : ValueId}
      {o : ObjectId} (hc : call ∈ ir.values) (calls : ir.Calls host call f)
      (callee : ir.function? f = some function) (argument : call.operands[i]? = some a)
      (param : function.params[i]? = some p) (ha : Derives (.points a o)) : Derives (.points p o)
  | result {call r : Value} {f : FunctionId} {a : ValueId} {o : ObjectId} (hc : call ∈ ir.values)
      (calls : ir.Calls host call f) (hr : r ∈ ir.values) (returns : ir.ReturnsFrom r f)
      (operand : r.operands.head? = some a) (ha : Derives (.points a o)) :
      Derives (.points call.id o)
  | store {v : Value} {a p : ValueId} {rest : List ValueId} {t o : ObjectId} (hv : v ∈ ir.values)
      (opcode : v.opcode? = some .store) (operands : v.operands = a :: p :: rest)
      (hp : Derives (.points p t)) (ha : Derives (.points a o)) : Derives (.keeps t o)
  | load {v : Value} {p : ValueId} {t o : ObjectId} (hv : v ∈ ir.values)
      (opcode : v.opcode? = some .load) (operand : v.operands.head? = some p)
      (hp : Derives (.points p t)) (ht : Derives (.keeps t o)) : Derives (.points v.id o)

def Judgement.In (pts : ValueId → ObjectId → Prop) (mem : ObjectId → ObjectId → Prop) :
    Judgement → Prop
  | .points v o => pts v o
  | .keeps t o => mem t o

end

variable {ir : Ir} {host : HostFacts} {pts : ValueId → ObjectId → Prop}
  {mem : ObjectId → ObjectId → Prop}

/-- What is derived is closed under the rules. -/
theorem derives_closed :
    Closed ir host (fun v o => Derives ir host (.points v o))
      fun t o => Derives ir host (.keeps t o) where
  own _ _ := .own
  fact _ _ _ := .fact
  base _ hv opcode _ operand _ := .base hv opcode operand
  phi _ hv opcode _ operand _ := .phi hv opcode operand
  argument _ hc _ calls _ callee _ _ _ argument param _ := .argument hc calls callee argument param
  result _ hc _ calls _ hr returns _ operand _ := .result hc calls hr returns operand
  store _ hv opcode _ _ _ operands _ _ := .store hv opcode operands
  load _ hv opcode _ operand _ _ := .load hv opcode operand

/-- What is derived is in every closed pair. -/
theorem Derives.in_closed (h : Closed ir host pts mem) {j : Judgement} (hj : Derives ir host j) :
    j.In pts mem := by
  induction hj with
  | own site => exact h.own _ _ site
  | fact known site => exact h.fact _ _ _ known site
  | base hv opcode operand _ ha => exact h.base _ hv opcode _ operand _ ha
  | phi hv opcode operand _ ha => exact h.phi _ hv opcode _ operand _ ha
  | argument hc calls callee argument param _ ha =>
    exact h.argument _ hc _ calls _ callee _ _ _ argument param _ ha
  | result hc calls hr returns operand _ ha =>
    exact h.result _ hc _ calls _ hr returns _ operand _ ha
  | store hv opcode operands _ _ hp ha => exact h.store _ hv opcode _ _ _ operands _ _ hp ha
  | load hv opcode operand _ _ hp ht => exact h.load _ hv opcode _ operand _ _ hp ht

theorem mem_ofCall {call : Value} {f : FunctionId} {k : Constraint} :
    k ∈ Constraint.ofCall ir call f ↔ ∃ function, ir.function? f = some function ∧
      ((∃ (i : Nat) (a p : ValueId), call.operands[i]? = some a ∧ function.params[i]? = some p ∧
          k = .copy a p) ∨
        ∃ r ∈ ir.rets f, ∃ a, r.operands.head? = some a ∧ k = .copy a call.id) := by
  unfold Constraint.ofCall
  cases ir.function? f with
  | none => simp
  | some function =>
    simp only [List.mem_append, List.mem_map, List.mem_flatMap, Option.mem_toList,
      Option.some.injEq, exists_eq_left', Prod.exists]
    refine or_congr ?_ ?_
    · constructor
      · intro hex
        obtain ⟨a, p, hm, rfl⟩ := hex
        obtain ⟨i, ha, hp⟩ := mem_zip_iff.mp hm
        exact ⟨i, a, p, ha, hp, rfl⟩
      · intro hex
        obtain ⟨i, a, p, ha, hp, rfl⟩ := hex
        exact ⟨a, p, mem_zip_iff.mpr ⟨i, ha, hp⟩, rfl⟩
    · simp only [eq_comm (a := k)]

theorem calls_iff {call : Value} {callee : Option FunctionId}
    (ho : call.opcode? = some (.call callee)) {f : FunctionId} :
    ir.Calls host call f ↔ ir.allocates host.allocators call.id = false ∧
      f ∈ callee.toList ++ host.targetsOf call.id := by
  rw [List.mem_append, Option.mem_toList, HostFacts.mem_targetsOf, Ir.Calls,
    HostFacts.mayReach_iff ho]

/-- The copies of a value, by its opcode. -/
theorem mem_copiesOf {v : Value} {k : Constraint} :
    k ∈ Constraint.copiesOf ir host v ↔
      ((v.opcode? = some .getElementPtr ∨ v.opcode? = some .cast) ∧
        ∃ a, v.operands.head? = some a ∧ k = .copy a v.id) ∨
      (v.opcode? = some .phi ∧ ∃ a ∈ v.operands, k = .copy a v.id) ∨
      ∃ f, ir.Calls host v f ∧ k ∈ Constraint.ofCall ir v f := by
  have hnone : (∀ callee, v.opcode? ≠ some (.call callee)) → ∀ f, ¬ir.Calls host v f := by
    rintro hc f ⟨_, callee, ho, _⟩
    exact hc callee ho
  unfold Constraint.copiesOf
  split
  · rename_i ho
    simp [ho, hnone, eq_comm (a := k)]
  · rename_i ho
    simp [ho, hnone, eq_comm (a := k)]
  · rename_i ho
    simp [ho, hnone, eq_comm (a := k)]
  · rename_i callee ho
    simp only [ho, calls_iff ho]
    split
    · rename_i ha
      simp [ha]
    · rename_i ha
      rw [List.mem_flatMap]
      simp [ha, -List.mem_append, -List.mem_flatMap]
  · rename_i hgep hcast hphi hcall
    simp only [List.not_mem_nil, false_iff]
    intro hor
    rcases hor with ⟨ho | ho, _⟩ | ⟨ho, _⟩ | ⟨f, hf, _⟩
    · exact hgep ho
    · exact hcast ho
    · exact hphi ho
    · exact hnone hcall f hf

theorem mem_accessesOf {v : Value} {k : Constraint} :
    k ∈ Constraint.accessesOf v ↔
      (v.opcode? = some .store ∧ ∃ a p rest, v.operands = a :: p :: rest ∧ k = .store a p) ∨
      (v.opcode? = some .load ∧ ∃ p, v.operands.head? = some p ∧ k = .load p v.id) := by
  unfold Constraint.accessesOf
  split
  · rename_i a p rest ho hv
    simp [ho, hv]
  · rename_i p rest ho hv
    simp [ho, hv]
  · rename_i hs hl
    simp only [List.not_mem_nil, false_iff]
    intro hor
    rcases hor with ⟨ho, a, p, rest, hv, _⟩ | ⟨ho, p, hv, _⟩
    · exact hs a p rest ho hv
    · obtain ⟨rest, hv⟩ := List.head?_eq_some_iff.mp hv
      exact hl p rest ho hv

def constraints (ir : Ir) (host : HostFacts) : List Constraint :=
  Constraint.copies ir host ++ Constraint.accesses ir

theorem mem_constraints {k : Constraint} :
    k ∈ constraints ir host ↔ ∃ v ∈ ir.values,
      k ∈ Constraint.copiesOf ir host v ∨ k ∈ Constraint.accessesOf v := by
  simp only [constraints, Constraint.copies, Constraint.accesses, List.mem_append,
    List.mem_flatMap, ← exists_or, ← and_or_left]

/-- The rules say what the start and the constraints say. -/
theorem closed_iff (hs : ir.tables.Sound) :
    Closed ir host pts mem ↔
      (∀ v, ∀ o ∈ (ofSites ir host).objects v, pts v o) ∧
      ∀ k ∈ constraints ir host, k.Meets pts mem := by
  constructor
  · intro h
    constructor
    · intro v o ho
      rcases (mem_objects_ofSites hs).mp ho with ho | ⟨s, hf, ho⟩
      · exact h.own v o ho
      · exact h.fact v s o hf ho
    · intro k hk
      obtain ⟨v, hv, hk | hk⟩ := mem_constraints.mp hk
      · rcases mem_copiesOf.mp hk with ⟨ho, a, ha, rfl⟩ | ⟨ho, a, ha, rfl⟩ | ⟨f, hc, hk⟩
        · exact h.base v hv ho a ha
        · exact h.phi v hv ho a ha
        · obtain ⟨function, hf, ⟨i, a, p, ha, hp, rfl⟩ | ⟨r, hr, a, ha, rfl⟩⟩ := mem_ofCall.mp hk
          · exact h.argument v hv f hc function hf i a p ha hp
          · obtain ⟨hr, hret⟩ := Ir.mem_rets.mp hr
            exact h.result v hv f hc r hr hret a ha
      · rcases mem_accessesOf.mp hk with ⟨ho, a, p, rest, hops, rfl⟩ | ⟨ho, p, hp, rfl⟩
        · exact h.store v hv ho a p rest hops
        · exact h.load v hv ho p hp
  · intro hex
    obtain ⟨hstart, hmeets⟩ := hex
    have hcopy : ∀ {v : Value} {a b : ValueId}, v ∈ ir.values →
        .copy a b ∈ Constraint.copiesOf ir host v → ∀ o, pts a o → pts b o :=
      fun hv hk => hmeets _ (mem_constraints.mpr ⟨_, hv, .inl hk⟩)
    constructor
    case own => exact fun s o ho => hstart s o ((mem_objects_ofSites hs).mpr (.inl ho))
    case fact =>
      exact fun p s o hf ho => hstart p o ((mem_objects_ofSites hs).mpr (.inr ⟨s, hf, ho⟩))
    case base =>
      exact fun v hv ho a ha => hcopy hv (mem_copiesOf.mpr (.inl ⟨ho, a, ha, rfl⟩))
    case phi =>
      exact fun v hv ho a ha => hcopy hv (mem_copiesOf.mpr (.inr (.inl ⟨ho, a, ha, rfl⟩)))
    case argument =>
      intro call hv f hc function hf i a p ha hp
      have hk : .copy a p ∈ Constraint.ofCall ir call f :=
        mem_ofCall.mpr ⟨function, hf, .inl ⟨i, a, p, ha, hp, rfl⟩⟩
      exact hcopy hv (mem_copiesOf.mpr (.inr (.inr ⟨f, hc, hk⟩)))
    case result =>
      intro call hv f hc r hr hret a ha
      obtain ⟨function, hf⟩ : ∃ function, ir.function? f = some function := by
        obtain ⟨block, b, _, hb, rfl⟩ := hret
        have hlt := hs.blockOwner b (Array.mem_of_getElem? hb)
        exact ⟨_, Array.getElem?_eq_getElem hlt⟩
      have hk : .copy a call.id ∈ Constraint.ofCall ir call f :=
        mem_ofCall.mpr ⟨function, hf, .inr ⟨r, Ir.mem_rets.mpr ⟨hr, hret⟩, a, ha, rfl⟩⟩
      exact hcopy hv (mem_copiesOf.mpr (.inr (.inr ⟨f, hc, hk⟩)))
    case store =>
      intro v hv ho a p rest hops
      exact hmeets _ (mem_constraints.mpr
        ⟨v, hv, .inr (mem_accessesOf.mpr (.inl ⟨ho, a, p, rest, hops, rfl⟩))⟩)
    case load =>
      intro v hv ho p hp
      exact hmeets _ (mem_constraints.mpr
        ⟨v, hv, .inr (mem_accessesOf.mpr (.inr ⟨ho, p, hp, rfl⟩))⟩)

section

variable (ir : Ir) (host : HostFacts)

/-- Where the passes start. -/
def start : State := ⟨(ofSites ir host).relation, .empty⟩

/-- The state after a number of passes. -/
def after (n : Nat) : State := (State.pass (constraints ir host))^[n] (start ir host)

/-- The values that may come to point to something. -/
def targets : List ValueId :=
  (ofSites ir host).relation.rows.map Prod.fst ++ (constraints ir host).filterMap Constraint.target?

end

theorem after_succ (n : Nat) :
    after ir host (n + 1) = (after ir host n).pass (constraints ir host) :=
  Function.iterate_succ_apply' _ _ _

theorem start_inRange (hs : ir.tables.Sound) :
    (start ir host).InRange (targets ir host) (ofSites ir host).locations.length := by
  constructor
  · intro v o ho
    constructor
    · obtain ⟨row, hrow, _⟩ := Relation.mem_image.mp ho
      exact List.mem_append_left _ (List.mem_map.mpr ⟨_, hrow, rfl⟩)
    · have hlen : (ofSites ir host).locations.length =
          (allocationSites ir host.allocators).length := by
        rw [← sites_ofSites hs host, List.length_map]
      rw [hlen]
      rcases (mem_objects_ofSites hs).mp ho with hv | ⟨s, _, hv⟩
      · exact (List.getElem?_eq_some_iff.mp hv).1
      · exact (List.getElem?_eq_some_iff.mp hv).1
  · intro t o ho
    exact absurd ho (Relation.not_mem_image_empty t o)

theorem targets_fit :
    ((targets ir host).length + (ofSites ir host).locations.length) *
      (ofSites ir host).locations.length ≤ capacity (ofSites ir host) (constraints ir host) := by
  refine Nat.mul_le_mul_right _ (Nat.add_le_add_right ?_ _)
  rw [targets, List.length_append, List.length_map]
  exact Nat.add_le_add_left (List.length_filterMap_le _ _) _

theorem target_mem_targets {k : Constraint} (hk : k ∈ constraints ir host) {v : ValueId}
    (hv : k.target? = some v) : v ∈ targets ir host :=
  List.mem_append_right _ (List.mem_filterMap.mpr ⟨k, hk, hv⟩)

theorem after_inRange (hs : ir.tables.Sound) (n : Nat) :
    (after ir host n).InRange (targets ir host) (ofSites ir host).locations.length :=
  State.iterate_within (start_inRange hs)
    (fun _ hk => State.meets_range fun _ hv => target_mem_targets hk hv) n

/-- The pairs of a later state, added one by one, are all that the facts hold then. -/
theorem relation_addAll_after (hs : ir.tables.Sound) (n : Nat) :
    ((ofSites ir host).addAll (after ir host n).pointsTo.pairs).relation =
      (after ir host n).pointsTo := by
  apply Relation.ext
  intro v
  apply IdSet.ext
  intro o
  refine mem_objects_addAll.trans ?_
  rw [Relation.mem_pairs]
  constructor
  · intro hor
    rcases hor with ⟨ho, _⟩ | ho
    · exact ho
    · exact (State.iterate_below (start ir host) n).points v o ho
  · intro ho
    exact .inl ⟨ho, ((after_inRange hs n).points v o ho).2⟩

/-- Passes are run up to the first that adds nothing, and the last state is the answer. -/
theorem solve_passes (hs : ir.tables.Sound) (host : HostFacts) :
    ∃ k, (∀ j < k, ¬(after ir host j).Settled (constraints ir host)) ∧
      (after ir host k).Settled (constraints ir host) ∧
      (solve ir host).1.relation = ((after ir host k).pass (constraints ir host)).pointsTo ∧
      (solve ir host).2.passes = k + 1 := by
  obtain ⟨k, hearlier, hlast, he⟩ := State.saturate_passes (start_inRange hs)
    (fun _ hk _ hv => target_mem_targets hk hv) targets_fit
  refine ⟨k, hearlier, hlast, ?_, ?_⟩
  · have hsolve : (solve ir host).1 =
        (ofSites ir host).addAll (after ir host (k + 1)).pointsTo.pairs :=
      congrArg (fun r : State × Nat => (ofSites ir host).addAll r.1.pointsTo.pairs) he
    rw [← after_succ, hsolve, relation_addAll_after hs]
  · exact congrArg Prod.snd he

/-- The answer and some memory are closed under the rules, and lie in every such pair. -/
theorem solve_least (hs : ir.tables.Sound) (host : HostFacts) :
    ∃ mem, Closed ir host (fun v o => o ∈ (solve ir host).1.objects v) mem ∧
      ∀ pts' mem', Closed ir host pts' mem' →
        (∀ v, ∀ o ∈ (solve ir host).1.objects v, pts' v o) ∧ ∀ t o, mem t o → mem' t o := by
  obtain ⟨k, _, hlast, he, _⟩ := solve_passes hs host
  have hobjects : ∀ v, (solve ir host).1.objects v =
      ((after ir host k).pass (constraints ir host)).pointsTo.image v := by
    intro v
    rw [PointsTo.objects, he]
  refine ⟨fun t o => o ∈ ((after ir host k).pass (constraints ir host)).memory.image t, ?_, ?_⟩
  · refine (closed_iff hs).mpr ⟨?_, ?_⟩
    · intro v o ho
      rw [hobjects, ← after_succ]
      exact (State.iterate_below (start ir host) (k + 1)).points v o ho
    · intro c hc
      simp only [hobjects]
      exact hlast.meets c hc
  · intro pts' mem' hclosed
    obtain ⟨hstart, hmeets⟩ := (closed_iff hs).mp hclosed
    have hw : (start ir host).Within pts' mem' :=
      ⟨hstart, fun t o ho => absurd ho (Relation.not_mem_image_empty t o)⟩
    have hlater := State.iterate_within hw hmeets (k + 1)
    simp only [hobjects, ← after_succ]
    exact ⟨hlater.points, hlater.keeps⟩

theorem mem_solve_iff (hs : ir.tables.Sound) {v : ValueId} {o : ObjectId} :
    o ∈ (solve ir host).1.objects v ↔ Derives ir host (.points v o) := by
  obtain ⟨_, hclosed, hleast⟩ := solve_least hs host
  exact ⟨(hleast _ _ derives_closed).1 v o, fun h => h.in_closed hclosed⟩

theorem sites_solve (hs : ir.tables.Sound) (host : HostFacts) :
    (solve ir host).1.locations.map Location.site = allocationSites ir host.allocators :=
  (congrArg (List.map Location.site) (locations_addAll _ _)).trans (sites_ofSites hs host)

theorem paired_solve (hs : ir.tables.Sound) (host : HostFacts) : (solve ir host).1.Paired :=
  (paired_ofSites hs host).addAll _

/-- An object comes from the value at its position among those that allocate. -/
theorem site?_solve (hs : ir.tables.Sound) (host : HostFacts) (o : ObjectId) :
    (solve ir host).1.site? o = (allocationSites ir host.allocators)[o]? := by
  rw [site?_eq, sites_solve hs]

/-- What a value points to comes from a value that allocates. -/
theorem site_of_mem_solve (hs : ir.tables.Sound) {v : ValueId} {o : ObjectId}
    (ho : o ∈ (solve ir host).1.objects v) :
    ∃ site, (solve ir host).1.site? o = some site ∧ ir.allocates host.allocators site = true := by
  have hclosed : Closed ir host (fun _ o => ∃ s, (allocationSites ir host.allocators)[o]? = some s)
      fun _ o => ∃ s, (allocationSites ir host.allocators)[o]? = some s := by
    constructor
    case own => exact fun s o h => ⟨s, h⟩
    case fact => exact fun p s o _ h => ⟨s, h⟩
    case store => exact fun v _ _ a p rest _ t o _ h => h
    case load => exact fun v _ _ p _ t o _ h => h
    all_goals
      intros
      assumption
  obtain ⟨_, _, hleast⟩ := solve_least hs host
  obtain ⟨site, hsite⟩ := (hleast _ _ hclosed).1 v o ho
  refine ⟨site, (site?_solve hs host o).trans hsite, ?_⟩
  obtain ⟨value, hm, rfl⟩ := List.mem_map.mp (List.mem_of_getElem? hsite)
  exact (List.mem_filter.mp hm).2

/-- Solving ends, after the first pass that adds nothing, with the least points-to relation that the
rules of the program allow: a value points to an object exactly when that is derived. The objects are
the positions of the values that allocate. -/
theorem solution_least {t : Tables} {ir : Ir} (h : Ir.ofTables t = .ok ir) (host : HostFacts) :
    (solve ir host).1.locations.map Location.site = allocationSites ir host.allocators ∧
    (∃ mem, Closed ir host (fun v o => o ∈ (solve ir host).1.objects v) mem ∧
      ∀ pts' mem', Closed ir host pts' mem' →
        (∀ v, ∀ o ∈ (solve ir host).1.objects v, pts' v o) ∧ ∀ t o, mem t o → mem' t o) ∧
    (∀ v o, o ∈ (solve ir host).1.objects v ↔ Derives ir host (.points v o)) ∧
    ∃ k, (∀ j < k, ¬(after ir host j).Settled (constraints ir host)) ∧
      (after ir host k).Settled (constraints ir host) ∧
      (solve ir host).1.relation = (after ir host (k + 1)).pointsTo ∧
      (solve ir host).2.passes = k + 1 := by
  obtain ⟨ht, hs⟩ := Ir.ofTables_ok h
  rw [← ht] at hs
  refine ⟨sites_solve hs host, solve_least hs host, fun v o => mem_solve_iff hs, ?_⟩
  obtain ⟨k, hearlier, hlast, he, hpasses⟩ := solve_passes hs host
  exact ⟨k, hearlier, hlast, by rw [he, after_succ], hpasses⟩

/-- A host that knows the parameter of `main` to point to the slot it is stored in: the value that is
read back points there too. -/
theorem guardedLoop_points : ∃ ir, Ir.ofTables guardedLoop = .ok ir ∧
    0 ∈ (solve ir { plainHost with pointsTo := [(0, 1)] }).1.objects 4 := by
  obtain ⟨ir, h⟩ := exists_ok_of_isOk (x := Ir.ofTables guardedLoop) (by decide)
  refine ⟨ir, h, ((solution_least h _).2.2.1 4 0).mpr ?_⟩
  obtain ⟨ht, _⟩ := Ir.ofTables_ok h
  obtain ⟨tables, users⟩ := ir
  cases ht
  have hslot : (allocationSites ⟨guardedLoop, users⟩ plainHost.allocators)[0]? = some 1 := rfl
  have hparam : Derives ⟨guardedLoop, users⟩ { plainHost with pointsTo := [(0, 1)] } (.points 0 0) :=
    .fact (by decide) hslot
  have hkept : Derives ⟨guardedLoop, users⟩ { plainHost with pointsTo := [(0, 1)] } (.keeps 0 0) :=
    .store (v := ⟨2, none, .void, .instruction .store 0, [0, 1]⟩)
      (List.mem_of_getElem? (i := 2) rfl) rfl rfl (.own hslot) hparam
  exact .load (v := ⟨4, some "x", .int 64, .instruction .load 1, [1]⟩)
    (List.mem_of_getElem? (i := 4) rfl) rfl rfl (.own hslot) hkept

end PointerTriage.PointsTo

namespace PointerTriage

theorem Built.Parts.paired {b : Built} {t : Tables} {host : HostFacts} (h : b.Parts t host) :
    b.pointsTo.Paired :=
  h.pointsTo ▸ PointsTo.paired_solve h.sound host

end PointerTriage
