import PointerTriage.Proofs.Program.Extension
import PointerTriage.Proofs.Snapshot.Recoding

namespace PointerTriage

section

variable {ε α β : Type} {f : α → Except ε β}

theorem image_of_mapM {as : List α} {bs : List β} (h : as.mapM f = .ok bs) {a : α} (ha : a ∈ as) :
    ∃ b ∈ bs, f a = .ok b := by
  induction except_mapM_ok_iff.mp h with
  | nil => cases ha
  | @cons a' b as bs hab hrest ih =>
    rcases List.mem_cons.mp ha with rfl | ha
    · exact ⟨b, List.mem_cons_self, hab⟩
    · obtain ⟨b', hb, hfb⟩ := ih (except_mapM_ok_iff.mpr hrest) ha
      exact ⟨b', List.mem_cons_of_mem _ hb, hfb⟩

/-- What can be done to many items can be done to some of them. -/
theorem mapM_of_subset {as as' : List α} {bs' : List β} (hsub : as ⊆ as')
    (h : as'.mapM f = .ok bs') : ∃ bs, as.mapM f = .ok bs ∧ bs ⊆ bs' := by
  induction as with
  | nil => exact ⟨[], rfl, List.nil_subset _⟩
  | cons a as ih =>
    obtain ⟨ha, hsub⟩ := List.cons_subset.mp hsub
    obtain ⟨b, hb, hfb⟩ := image_of_mapM h ha
    obtain ⟨bs, hbs, hle⟩ := ih hsub
    refine ⟨b :: bs, ?_, List.cons_subset.mpr ⟨hb, hle⟩⟩
    exact except_mapM_ok_iff.mpr (.cons hfb (except_mapM_ok_iff.mp hbs))

theorem mapM_append_ok_iff {as as' : List α} {cs : List β} :
    (as ++ as').mapM f = .ok cs ↔
      ∃ bs bs', as.mapM f = .ok bs ∧ as'.mapM f = .ok bs' ∧ bs ++ bs' = cs := by
  simp only [List.mapM_append, except_bind_ok_iff]
  constructor
  · intro hex
    obtain ⟨bs, hbs, bs', hbs', he⟩ := hex
    exact ⟨bs, bs', hbs, hbs', Except.ok.inj he⟩
  · intro hex
    obtain ⟨bs, bs', hbs, hbs', rfl⟩ := hex
    exact ⟨bs, hbs, bs', hbs', rfl⟩

end

namespace Snapshot

/-- The operation without recorded targets. -/
def Operation.bare : Operation → Operation
  | .call callee _ => .call callee []
  | op => op

def Instruction.bare (i : Instruction) : Instruction := { i with operation := i.operation.bare }

def Block.bare (b : Block) : Block := { b with instructions := b.instructions.map Instruction.bare }

def Function.bare (f : Function) : Function := { f with blocks := f.blocks.map Block.bare }

def NumberedBlock.bare (b : NumberedBlock) : NumberedBlock :=
  ⟨b.source.bare, b.id, b.instructions.map fun (i, v) => (i.bare, v)⟩

def NumberedFunction.bare (f : NumberedFunction) : NumberedFunction :=
  ⟨f.source.bare, f.id, f.params, f.blocks.map NumberedBlock.bare⟩

def Linked.bare (l : Linked) : Linked := { l with targets := [] }

/-- The snapshot without its facts. -/
def bare (s : Snapshot) : Snapshot := ⟨s.globals, s.functions.map Function.bare, [], [], [], none⟩

/-- The recorded targets, each with its call. -/
def NumberedBlock.targets (b : NumberedBlock) : List (ValueId × String) :=
  b.instructions.flatMap fun (i, v) => i.operation.targets.map (v, ·)

def NumberedFunction.targets (f : NumberedFunction) : List (ValueId × String) :=
  f.blocks.flatMap NumberedBlock.targets

def targets (s : Snapshot) : List (ValueId × String) := s.numbered.flatMap NumberedFunction.targets

def allocatorNames (s : Snapshot) : List String := s.allocators.getD Settings.defaultAllocators

def linkTarget (s : Snapshot) (target : ValueId × String) :
    Except NameFault (ValueId × FunctionId) :=
  return (target.1, ← s.functionId target.2)

/-- The second snapshot has the same code and allocators, and at least the other facts of the first. -/
structure Extends (s s' : Snapshot) : Prop where
  bare : s.bare = s'.bare
  loops : s.loops ⊆ s'.loops
  pointsTo : s.pointsTo ⊆ s'.pointsTo
  flows : s.flows ⊆ s'.flows
  targets : s.targets ⊆ s'.targets
  allocators : ∀ name, name ∈ s.allocatorNames ↔ name ∈ s'.allocatorNames

section

variable (s : Snapshot)

@[simp] theorem numbered_bare : s.bare.numbered = s.numbered.map NumberedFunction.bare :=
  numbered_recode Operation.bare s

@[simp] theorem firstConstant_bare : s.bare.firstConstant = s.firstConstant :=
  firstConstant_recode Operation.bare s

@[simp] theorem functionId_bare : s.bare.functionId = s.functionId :=
  functionId_recode Operation.bare s

@[simp] theorem linkPair_bare : s.bare.linkPair = s.linkPair := linkPair_recode Operation.bare s

@[simp] theorem linkLoop_bare : s.bare.linkLoop = s.linkLoop := linkLoop_recode Operation.bare s

@[simp] theorem linkTarget_bare : s.bare.linkTarget = s.linkTarget := by
  funext target
  simp only [linkTarget, functionId_bare]

/-- The names of a snapshot are well chosen if those of its code are. -/
theorem checkInstructions_bare (f : FunctionId) (seen : List String) (is : List Instruction) :
    s.bare.checkInstructions f seen (is.map Instruction.bare) = s.checkInstructions f seen is := by
  have hcallee : ∀ i : Instruction, s.bare.checkCallee i.bare = s.checkCallee i := by
    intro i
    obtain ⟨_, operation, _, _⟩ := i
    unfold checkCallee
    rw [functionId_bare]
    cases operation <;> rfl
  induction is generalizing seen with
  | nil => rfl
  | cons i is ih =>
    simp only [List.map_cons, checkInstructions, hcallee, ih]
    rfl

@[simp] theorem checkFunction_bare (f : NumberedFunction) :
    s.bare.checkFunction f.bare = s.checkFunction f := by
  unfold checkFunction
  have hlabels : f.bare.source.blocks.map Block.label = f.source.blocks.map Block.label := by
    simp [NumberedFunction.bare, Function.bare, Function.comp_def, Block.bare]
  have hbody : f.bare.source.blocks.flatMap Block.instructions =
      (f.source.blocks.flatMap Block.instructions).map Instruction.bare := by
    simp [NumberedFunction.bare, Function.bare, Block.bare, List.flatMap_map, List.map_flatMap]
  simp only [hlabels, hbody, checkInstructions_bare]
  rfl

@[simp] theorem checkNames_bare : s.bare.checkNames = s.checkNames := by
  unfold checkNames
  have hnames : s.bare.functions.map Function.name = s.functions.map Function.name := by
    simp [bare, Function.comp_def, Function.bare]
  simp only [hnames, numbered_bare, List.forM_eq_forM, List.forM_map, checkFunction_bare]
  rfl

theorem opcode_bare (operation : Operation) : s.bare.opcode operation.bare = s.opcode operation := by
  cases operation with
  | call callee targets =>
    cases callee with
    | none => rfl
    | some name => simp only [Operation.bare, opcode, Operation.opcode, functionId_bare]
  | _ => rfl

end

variable {s : Snapshot}

theorem mapM_linkTarget_ok_iff {v : ValueId} {names : List String}
    {targets : List (ValueId × FunctionId)} :
    (names.map (v, ·)).mapM s.linkTarget = .ok targets ↔
      ∃ fs, names.mapM s.functionId = .ok fs ∧ fs.map (v, ·) = targets := by
  simp only [except_mapM_ok_iff, List.forall₂_map_left_iff]
  constructor
  · intro h
    induction h with
    | nil => exact ⟨[], .nil, rfl⟩
    | @cons name target names targets hone _ ih =>
      obtain ⟨fs, hfs, rfl⟩ := ih
      obtain ⟨f, hf, he⟩ := except_bind_ok_iff.mp hone
      cases he
      exact ⟨f :: fs, .cons hf hfs, rfl⟩
  · intro hex
    obtain ⟨fs, hfs, rfl⟩ := hex
    refine List.forall₂_map_right_iff.mpr (hfs.imp ?_)
    intro name f hf
    exact except_bind_ok_iff.mpr ⟨f, hf, rfl⟩

theorem linkInstruction_ok_iff {f : NumberedFunction} {block : BlockId} {next : ValueId}
    {i : Instruction} {v : ValueId} {l : Linked} :
    s.linkInstruction f block next i v = .ok l ↔
      s.bare.linkInstruction f.bare block next i.bare v = .ok l.bare ∧
        (i.operation.targets.map (v, ·)).mapM s.linkTarget = .ok l.targets := by
  have hshape : i.bare.operation.shape = i.operation.shape := by
    obtain ⟨_, operation, _, _⟩ := i
    cases operation <;> rfl
  have hnone : i.bare.operation.targets = [] := by
    obtain ⟨_, operation, _, _⟩ := i
    cases operation <;> rfl
  have hopcode : s.bare.opcode i.bare.operation = s.opcode i.operation := opcode_bare s i.operation
  have hoperands : s.bare.operands f.bare next i.bare.operands = s.operands f next i.operands :=
    operands_recode Operation.bare s f next i.operands
  unfold linkInstruction
  rw [hshape, hnone, hopcode, hoperands]
  simp only [except_bind_ok_iff, mapM_linkTarget_ok_iff]
  constructor
  · intro hex
    obtain ⟨opcode, ho, ⟨vs, cs⟩, hvs, fs, hfs, he⟩ := hex
    cases he
    exact ⟨⟨opcode, ho, (vs, cs), hvs, [], rfl, rfl⟩, fs, hfs, rfl⟩
  · intro hex
    obtain ⟨⟨opcode, ho, ⟨vs, cs⟩, hvs, _, hnil, he⟩, fs, hfs, htargets⟩ := hex
    cases hnil
    obtain ⟨values, constants, targets⟩ := l
    cases he
    cases htargets
    exact ⟨opcode, ho, (vs, cs), hvs, fs, hfs, rfl⟩

/-- What is linked apart from targets, and the targets, item by item and all together. -/
theorem linkEach_ok_iff {α β : Type} {link : ValueId → α → Except NameFault Linked}
    {link' : ValueId → β → Except NameFault Linked} (bare : α → β)
    (targets : α → List (ValueId × String))
    (hitem : ∀ next a l, link next a = .ok l ↔
      link' next (bare a) = .ok l.bare ∧ (targets a).mapM s.linkTarget = .ok l.targets)
    {next : ValueId} {as : List α} {l : Linked} :
    linkEach link next as = .ok l ↔ linkEach link' next (as.map bare) = .ok l.bare ∧
      (as.flatMap targets).mapM s.linkTarget = .ok l.targets := by
  induction as generalizing next l with
  | nil =>
    constructor
    · intro h
      cases h
      exact ⟨rfl, rfl⟩
    · intro hex
      obtain ⟨hbare, htargets⟩ := hex
      obtain ⟨values, constants, linked⟩ := l
      cases hbare
      cases htargets
      rfl
  | cons a as ih =>
    simp only [linkEach, List.map_cons, List.flatMap_cons, except_bind_ok_iff, mapM_append_ok_iff]
    constructor
    · intro hex
      obtain ⟨one, hone, rest, hrest, he⟩ := hex
      cases he
      obtain ⟨hone, htargets⟩ := (hitem _ _ _).mp hone
      obtain ⟨hrest, htargets'⟩ := ih.mp hrest
      exact ⟨⟨one.bare, hone, rest.bare, hrest, rfl⟩, one.targets, rest.targets, htargets, htargets',
        rfl⟩
    · intro hex
      obtain ⟨⟨one, hone, rest, hrest, he⟩, ts, ts', hts, hts', htargets⟩ := hex
      obtain ⟨values, constants, targets⟩ := l
      obtain ⟨values₁, constants₁, targets₁⟩ := one
      obtain ⟨values₂, constants₂, targets₂⟩ := rest
      -- Neither part has targets, since the whole has none; those of the items take their place.
      have hnil : targets₁ ++ targets₂ = [] := congrArg Linked.targets (Except.ok.inj he)
      obtain ⟨rfl, rfl⟩ := List.append_eq_nil_iff.mp hnil
      refine ⟨⟨values₁, constants₁, ts⟩, (hitem _ _ _).mpr ⟨hone, hts⟩, ⟨values₂, constants₂, ts'⟩,
        ih.mpr ⟨hrest, hts'⟩, ?_⟩
      cases he
      cases htargets
      rfl

theorem linkBlock_ok_iff {f : NumberedFunction} {next : ValueId} {b : NumberedBlock} {l : Linked} :
    s.linkBlock f next b = .ok l ↔
      s.bare.linkBlock f.bare next b.bare = .ok l.bare ∧
        b.targets.mapM s.linkTarget = .ok l.targets := by
  refine linkEach_ok_iff (fun (i, v) => (Instruction.bare i, v))
    (fun (i, v) => (Instruction.operation i).targets.map (v, ·)) ?_
  intro next item l
  exact linkInstruction_ok_iff

theorem linkFunction_ok_iff {next : ValueId} {f : NumberedFunction} {l : Linked} :
    s.linkFunction next f = .ok l ↔
      s.bare.linkFunction next f.bare = .ok l.bare ∧ f.targets.mapM s.linkTarget = .ok l.targets := by
  have hblocks : ∀ body, linkEach (s.linkBlock f) next f.blocks = .ok body ↔
      linkEach (s.bare.linkBlock f.bare) next f.bare.blocks = .ok body.bare ∧
        f.targets.mapM s.linkTarget = .ok body.targets := by
    intro body
    refine linkEach_ok_iff NumberedBlock.bare NumberedBlock.targets ?_
    intro next b l
    exact linkBlock_ok_iff
  unfold linkFunction
  simp only [except_bind_ok_iff]
  constructor
  · intro hex
    obtain ⟨body, hbody, he⟩ := hex
    cases he
    obtain ⟨hbare, htargets⟩ := (hblocks body).mp hbody
    exact ⟨⟨body.bare, hbare, rfl⟩, htargets⟩
  · intro hex
    obtain ⟨⟨⟨values, constants, none⟩, hbody, he⟩, htargets⟩ := hex
    obtain ⟨_, _, targets⟩ := l
    cases he
    exact ⟨⟨values, constants, targets⟩, (hblocks _).mpr ⟨hbody, htargets⟩, rfl⟩

/-- The facts of a snapshot, linked. -/
structure Facts (s : Snapshot) (loops : List PointerTriage.Loop) (host : HostFacts) : Prop where
  loops : s.loops.mapM s.bare.linkLoop = .ok loops
  pointsTo : s.pointsTo.mapM s.bare.linkPair = .ok host.pointsTo
  flows : s.flows.mapM s.bare.linkPair = .ok host.flows
  targets : s.targets.mapM s.bare.linkTarget = .ok host.targets
  allocators : host.allocators = s.allocatorNames

/-- A snapshot links if it does so without its facts, and its facts do. -/
theorem link_ok_iff_bare {t : Tables} {host : HostFacts} :
    s.link = .ok (t, host) ↔
      s.bare.link = .ok ({ t with loops := [] }, plainHost) ∧ s.Facts t.loops host := by
  have hcode : ∀ code, linkEach s.linkFunction s.firstConstant s.numbered = .ok code ↔
      linkEach s.bare.linkFunction s.bare.firstConstant s.bare.numbered = .ok code.bare ∧
        s.targets.mapM s.bare.linkTarget = .ok code.targets := by
    intro code
    rw [firstConstant_bare, numbered_bare, linkTarget_bare]
    refine linkEach_ok_iff NumberedFunction.bare NumberedFunction.targets ?_
    intro next f l
    exact linkFunction_ok_iff
  have hbodies : s.bare.numbered.mapM (fun f => f.blocks.mapM (linkSuccessors f)) =
      s.numbered.mapM fun f => f.blocks.mapM (linkSuccessors f) :=
    mapM_linkSuccessors_recode Operation.bare s
  have hentries : s.bare.numbered.map functionEntry = s.numbered.map functionEntry :=
    functionEntries_recode Operation.bare s
  simp only [link_ok_iff]
  constructor
  · intro hex
    obtain ⟨code, bodies, h⟩ := hex
    obtain ⟨hlinked, htargets⟩ := (hcode code).mp h.functions
    refine ⟨⟨code.bare, bodies, ?_⟩, ?_⟩
    · refine ⟨checkNames_bare s ▸ h.names, hlinked, hbodies ▸ h.successors, rfl, rfl, rfl, ?_,
        hentries ▸ h.functionTable, h.blockTable, rfl, rfl⟩
      rw [firstConstant_bare]
      exact h.valueTable
    · exact ⟨by simpa using h.loops, by simpa using h.pointsTo, by simpa using h.flows,
        h.targets ▸ htargets, h.allocators⟩
  · intro hex
    obtain ⟨⟨code, bodies, h⟩, hfacts⟩ := hex
    obtain ⟨values, constants, targets⟩ := code
    have hnone : targets = [] := h.targets.symm
    subst hnone
    refine ⟨⟨values, constants, host.targets⟩, bodies, checkNames_bare s ▸ h.names,
      (hcode _).mpr ⟨h.functions, hfacts.targets⟩, hbodies ▸ h.successors,
      by simpa using hfacts.loops, by simpa using hfacts.pointsTo, by simpa using hfacts.flows, ?_,
      hentries ▸ h.functionTable, h.blockTable, hfacts.allocators, rfl⟩
    rw [← firstConstant_bare]
    exact h.valueTable

/-- The recorded targets are the functions of the names that were given for the call. -/
theorem Facts.mem_targets {loops : List PointerTriage.Loop} {host : HostFacts}
    (h : s.Facts loops host) {v : ValueId} {f : FunctionId} :
    (v, f) ∈ host.targets ↔ ∃ name, (v, name) ∈ s.targets ∧ s.functionId name = .ok f := by
  have hlink : ∀ target, s.bare.linkTarget target = .ok (v, f) ↔
      target.1 = v ∧ s.functionId target.2 = .ok f := by
    intro target
    rw [linkTarget_bare, linkTarget, except_bind_ok_iff]
    simp [pure, Except.pure, and_comm]
  constructor
  · intro hm
    obtain ⟨⟨v', name⟩, hname, htarget⟩ := origin_of_mapM h.targets hm
    obtain ⟨hv, hf⟩ := (hlink (v', name)).mp htarget
    exact ⟨name, hv ▸ hname, hf⟩
  · intro hex
    obtain ⟨name, hname, hf⟩ := hex
    obtain ⟨target, ht, htarget⟩ := image_of_mapM h.targets hname
    rw [(hlink (v, name)).mpr ⟨rfl, hf⟩] at htarget
    cases htarget
    exact ht

/-- With fewer facts a snapshot links too: to the same tables up to the loops, and to fewer facts of the
host. -/
theorem Extends.link {s' : Snapshot} (h : s.Extends s') {t' : Tables} {host' : HostFacts}
    (hl : s'.link = .ok (t', host')) :
    ∃ loops host, s.link = .ok ({ t' with loops }, host) ∧ loops ⊆ t'.loops ∧ host.Below host' := by
  obtain ⟨hbare, hfacts⟩ := link_ok_iff_bare.mp hl
  rw [← h.bare] at hbare
  obtain ⟨hloops', hpoints', hflows', htargets', hallocators'⟩ := hfacts
  rw [← h.bare] at hloops' hpoints' hflows' htargets'
  obtain ⟨loops, hloops, hloopsSub⟩ := mapM_of_subset h.loops hloops'
  obtain ⟨pointsTo, hpoints, hpointsSub⟩ := mapM_of_subset h.pointsTo hpoints'
  obtain ⟨flows, hflows, hflowsSub⟩ := mapM_of_subset h.flows hflows'
  obtain ⟨targets, htargets, htargetsSub⟩ := mapM_of_subset h.targets htargets'
  refine ⟨loops, ⟨s.allocatorNames, pointsTo, flows, targets⟩, ?_, hloopsSub, ?_⟩
  · exact link_ok_iff_bare.mpr ⟨hbare, hloops, hpoints, hflows, htargets, rfl⟩
  · refine ⟨?_, hpointsSub, hflowsSub, htargetsSub⟩
    intro name
    rw [hallocators']
    exact h.allocators name

end Snapshot

end PointerTriage
