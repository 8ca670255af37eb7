import PointerTriage.Proofs.Snapshot.FirstPass

namespace PointerTriage

theorem foldlM_flatMap {ε σ α β : Type} {step : σ → β → Except ε σ} (items : α → List β)
    (as : List α) (x : σ) :
    (as.flatMap items).foldlM step x = as.foldlM (fun x a => (items a).foldlM step x) x := by
  induction as generalizing x with
  | nil => rfl
  | cons a as ih =>
    rw [List.flatMap_cons, List.foldlM_append, List.foldlM_cons]
    exact congrArg _ (funext ih)

/-- A loop that looks something up for each item first looks all up, if it may only fail there. -/
theorem foldlM_bind {ε σ α β : Type} (look : α → Except ε β) (step : σ → β → σ) (as : List α)
    (x : σ) :
    as.foldlM (fun x a => look a >>= fun b => .ok (step x b)) x =
      as.mapM look >>= fun bs => .ok (bs.foldl step x) := by
  induction as generalizing x with
  | nil => rfl
  | cons a as ih =>
    rw [List.foldlM_cons, List.mapM_cons]
    cases look a with
    | error e => rfl
    | ok b =>
      change as.foldlM _ (step x b) = _
      rw [ih]
      cases as.mapM look <;> rfl

/-- If each step puts what it looked up at the end of one part of the state, the loop puts there all
that it looked up. -/
theorem foldlM_push {ε σ α β γ : Type} (look : α → Except ε β) (entry : β → γ) (part : σ → List γ)
    (put : σ → List γ → σ) (hpart : ∀ x l, part (put x l) = l)
    (hput : ∀ x l l', put (put x l) l' = put x l') (hself : ∀ x, put x (part x) = x) (as : List α)
    (x : σ) :
    as.foldlM (fun x a => look a >>= fun b => .ok (put x (part x ++ [entry b]))) x =
      as.mapM look >>= fun bs => .ok (put x (part x ++ bs.map entry)) := by
  have hfold : ∀ (bs : List β) (x : σ), bs.foldl (fun x b => put x (part x ++ [entry b])) x =
      put x (part x ++ bs.map entry) := by
    intro bs
    induction bs with
    | nil => simp [hself]
    | cons b bs ih => simp [ih, hpart, hput]
  rw [foldlM_bind]
  simp only [hfold]

namespace Snapshot

namespace Scope

def addInstructionOperands (c : Scope) (f : FunctionId) (d : ProgramDraft)
    (i : Instruction × ValueId) : Except NameFault ProgramDraft :=
  c.addOperands d (f, i.2, i.1)

def addBlockOperands (c : Scope) (f : FunctionId) (d : ProgramDraft) (b : NumberedBlock) :
    Except NameFault ProgramDraft :=
  b.instructions.foldlM (c.addInstructionOperands f) d

def addFunctionOperands (c : Scope) (d : ProgramDraft) (f : NumberedFunction) :
    Except NameFault ProgramDraft :=
  f.blocks.foldlM (c.addBlockOperands f.id) d

end Scope

theorem global_scope {s : Snapshot} (name : String) :
    Scope.lookup? (s.scope s.numbered).globals name = s.global? name := by
  rw [scope, Scope.lookup?_zipIdx, global?]
  simp

section

variable {s : Snapshot} {f : NumberedFunction} (hf : f ∈ s.numbered)
include hf

/-- A name of a function is found among its own, since no other function has its id. -/
theorem lookup?_numbered {α β : Type} (items : NumberedFunction → List β) (key : β → String)
    (entry : β → α) (name : String) :
    Scope.lookup? (s.numbered.flatMap fun g => (items g).map fun b => ((g.id, key b), entry b))
      (f.id, name) = ((items f).find? (key · == name)).map entry := by
  obtain ⟨before, after, hsplit⟩ := List.append_of_mem hf
  have hnodup : (s.numbered.map NumberedFunction.id).Nodup := by
    rw [ids_numbered_functions]
    exact List.nodup_range
  have habsent : ∀ fs : List NumberedFunction, (∀ g ∈ fs, g.id ≠ f.id) → (f.id, name) ∉
      (fs.flatMap fun g => (items g).map fun b => ((g.id, key b), entry b)).map (·.1) := by
    intro fs hfs hm
    obtain ⟨e, hm, he⟩ := List.mem_map.mp hm
    obtain ⟨g, hg, hm⟩ := List.mem_flatMap.mp hm
    obtain ⟨b, _, rfl⟩ := List.mem_map.mp hm
    exact hfs g hg (congrArg Prod.fst he)
  rw [hsplit, List.map_append, List.map_cons, List.nodup_append, List.nodup_cons] at hnodup
  obtain ⟨_, ⟨hafter, _⟩, hbefore⟩ := hnodup
  have hown : Scope.lookup? ((items f).map fun b => ((f.id, key b), entry b)) (f.id, name) =
      ((items f).find? (key · == name)).map entry := by
    rw [Scope.lookup?, List.find?_map, Option.map_map]
    refine congrArg (Option.map entry) (congrArg (List.find? · (items f)) ?_)
    funext b
    rw [Bool.eq_iff_iff]
    simp
  rw [hsplit, List.flatMap_append, List.flatMap_cons, Scope.lookup?_append, Scope.lookup?_append,
    Scope.lookup?_of_absent (habsent before ?_), Scope.lookup?_of_absent (habsent after ?_), hown]
  · simp
  · intro g hg heq
    exact hafter (heq ▸ List.mem_map_of_mem hg)
  · intro g hg
    exact hbefore _ (List.mem_map_of_mem hg) _ (by simp)

theorem value_scope (name : String) : (s.scope s.numbered).value f.id name = s.value f name := by
  have hlocal : Scope.lookup? (s.scope s.numbered).locals (f.id, name) = f.local? name :=
    lookup?_numbered hf NumberedFunction.locals (·.1) (·.2) name
  unfold Scope.value value
  cases hvalue : (f.local? name).or (s.global? name) with
  | none => simp only [hlocal, global_scope, hvalue]
  | some v => simp only [hlocal, global_scope, hvalue]

theorem block_scope (label : String) : (s.scope s.numbered).block f.id label = f.block label := by
  have hlabel : Scope.lookup? (s.numbered.flatMap NumberedFunction.labels) (f.id, label) =
      (f.blocks.find? (·.source.label == label)).map NumberedBlock.id :=
    lookup?_numbered hf NumberedFunction.blocks (·.source.label) NumberedBlock.id label
  simp only [Scope.block, scope, hlabel, NumberedFunction.block]
  cases f.blocks.find? (·.source.label == label) <;> rfl

end

section

variable {s : Snapshot}

theorem functionId_eq (name : String) :
    s.functionId name = s.numberedFunction name >>= fun f => .ok f.id := by
  have hlookup : Scope.lookup? (s.numbered.map fun f => (f.source.name, f.id)) name =
      (s.numbered.find? (·.source.name == name)).map NumberedFunction.id := by
    simp [Scope.lookup?, List.find?_map, Function.comp_def]
  rw [← function_scope s s.numbered]
  simp only [Scope.function, scope, hlookup, numberedFunction]
  cases s.numbered.find? (·.source.name == name) <;> rfl

theorem reference_scope : (s.scope s.numbered).reference = s.reference := by
  funext ref
  unfold Scope.reference reference
  cases splitColon ref.toList with
  | none =>
    cases hglobal : s.global? ref with
    | none => simp only [global_scope, hglobal]
    | some v => simp only [global_scope, hglobal]
  | some parts =>
    obtain ⟨function, name⟩ := parts
    simp only [function_scope, functionId_eq]
    cases hf : s.numberedFunction (String.ofList function) with
    | error fault => rfl
    | ok f => exact value_scope (mem_of_numberedFunction hf).1 _

theorem loop_scope : (s.scope s.numbered).loop = s.linkLoop := by
  funext l
  unfold Scope.loop linkLoop
  rw [function_scope, functionId_eq]
  cases hf : s.numberedFunction l.function with
  | error fault => rfl
  | ok f =>
    have hblock : (s.scope s.numbered).block f.id = f.block :=
      funext (block_scope (mem_of_numberedFunction hf).1)
    dsimp only [bind, Except.bind]
    rw [hblock]

end

section

open ProgramDraft (ofLists)

variable {s : Snapshot} {functions : List PointerTriage.Function}
  {blocks : List PointerTriage.Block} {loops : List PointerTriage.Loop}

theorem addOperand_int (c : Scope) (f : FunctionId) (values : List Value) (host : HostFacts)
    (vs : List ValueId) (i : Int) :
    c.addOperand f (ofLists values functions blocks loops host, vs) (.int i) =
      .ok (ofLists (values ++ [constantValue (.int i) values.length]) functions blocks loops host,
        vs ++ [values.length]) := by
  simp only [Scope.addOperand, ProgramDraft.int, ProgramDraft.value_ofLists]
  rfl

theorem addOperand_null (c : Scope) (f : FunctionId) (values : List Value) (host : HostFacts)
    (vs : List ValueId) :
    c.addOperand f (ofLists values functions blocks loops host, vs) .null =
      .ok (ofLists (values ++ [constantValue .nullPointer values.length]) functions blocks loops host,
        vs ++ [values.length]) := by
  simp only [Scope.addOperand, ProgramDraft.nullPointer, ProgramDraft.value_ofLists]
  rfl

/-- Constants among the operands become values at the end of the table. -/
theorem foldlM_addOperand {f : NumberedFunction} (hf : f ∈ s.numbered) (values : List Value)
    (host : HostFacts) (ops : List Operand) (vs : List ValueId) :
    ops.foldlM ((s.scope s.numbered).addOperand f.id)
      (ofLists values functions blocks loops host, vs) =
      s.operands f values.length ops >>= fun r =>
        .ok (ofLists (values ++ (r.2.zipIdx values.length).map fun c => constantValue c.1 c.2)
          functions blocks loops host, vs ++ r.1) := by
  induction ops generalizing values vs with
  | nil =>
    change Except.ok _ = Except.ok _
    simp
  | cons op ops ih =>
    rw [List.foldlM_cons]
    cases op with
    | int i =>
      rw [addOperand_int, operands]
      change ops.foldlM _ _ = _
      rw [ih, List.length_append, List.length_singleton]
      dsimp only [bind, Except.bind]
      cases s.operands f (values.length + 1) ops with
      | error fault => rfl
      | ok r => simp [pure, Except.pure]
    | null =>
      rw [addOperand_null, operands]
      change ops.foldlM _ _ = _
      rw [ih, List.length_append, List.length_singleton]
      dsimp only [bind, Except.bind]
      cases s.operands f (values.length + 1) ops with
      | error fault => rfl
      | ok r => simp [pure, Except.pure]
    | name n =>
      simp only [operands, Scope.addOperand, value_scope hf]
      cases s.value f n with
      | error fault => rfl
      | ok v =>
        change ops.foldlM _ (ofLists values functions blocks loops host, vs ++ [v]) = _
        rw [ih]
        dsimp only [bind, Except.bind]
        cases s.operands f values.length ops with
        | error fault => rfl
        | ok r => simp [pure, Except.pure]

theorem foldlM_addTarget (call : ValueId) (d : ProgramDraft) (names : List String) :
    names.foldlM ((s.scope s.numbered).addTarget call) d =
      names.mapM s.functionId >>= fun callees =>
        .ok { d with host := { d.host with
          targets := d.host.targets ++ callees.map (call, ·) } } := by
  rw [← function_scope s s.numbered]
  exact foldlM_push _ (call, ·) (·.host.targets)
    (fun (d : ProgramDraft) targets => { d with host := { d.host with targets } })
    (fun _ _ => rfl) (fun _ _ _ => rfl) (fun _ => rfl) names d

/-- The operands of an instruction are set where it stands. -/
theorem addOperands_eq {f : NumberedFunction} (hf : f ∈ s.numbered) {i : Instruction}
    (ho : s.opcode i.operation = .ok (s.opcodeD i.operation)) (b : BlockId)
    (pre post : List Value) (host : HostFacts) :
    (s.scope s.numbered).addOperands
      (ofLists (pre ++ s.bareValue b (i, pre.length) :: post) functions blocks loops host)
      (f.id, pre.length, i) =
      let next := (pre ++ s.bareValue b (i, pre.length) :: post).length
      s.linkInstruction f b next i pre.length >>= fun l =>
        .ok (ofLists (pre ++ l.values ++ (post ++ l.constantValues next)) functions blocks loops
          { host with targets := host.targets ++ l.targets }) := by
  simp only [Scope.addOperands, linkInstruction, foldlM_addOperand hf, ho]
  generalize (pre ++ s.bareValue b (i, pre.length) :: post).length = next
  dsimp only [bind, Except.bind]
  cases s.operands f next i.operands with
  | error fault => rfl
  | ok r =>
    dsimp only
    rw [List.append_assoc, List.cons_append, ProgramDraft.setOperands_ofLists, foldlM_addTarget]
    dsimp only [bind, Except.bind]
    cases i.operation.targets.mapM s.functionId with
    | error fault => rfl
    | ok callees => simp [pure, Except.pure, bareValue, Linked.constantValues, ofLists]

variable (functions blocks loops)

/-- Setting the operands of an item, whose values stand in the table from `first` on, puts there what
it is linked to, and its constants at the end. -/
structure Links {α : Type} (step : ProgramDraft → α → Except NameFault ProgramDraft)
    (link : ValueId → α → Except NameFault Linked) (bare : α → List Value) (first : Nat) (a : α) :
    Prop where
  length : ∀ next l, link next a = .ok l → l.values.length = (bare a).length
  step : ∀ pre post host, pre.length = first →
    step (ofLists (pre ++ bare a ++ post) functions blocks loops host) a =
      link (pre ++ bare a ++ post).length a >>= fun l =>
        .ok (ofLists (pre ++ l.values ++ (post ++ l.constantValues (pre ++ bare a ++ post).length))
          functions blocks loops { host with targets := host.targets ++ l.targets })

/-- The same of items whose values stand one after the other. -/
def LinksEach {α : Type} (step : ProgramDraft → α → Except NameFault ProgramDraft)
    (link : ValueId → α → Except NameFault Linked) (bare : α → List Value) : Nat → List α → Prop
  | _, [] => True
  | first, a :: as =>
    Links functions blocks loops step link bare first a ∧
      LinksEach step link bare (first + (bare a).length) as

theorem LinksEach.links {α : Type} {step : ProgramDraft → α → Except NameFault ProgramDraft}
    {link : ValueId → α → Except NameFault Linked} {bare : α → List Value} {first : Nat}
    {as : List α} (h : LinksEach functions blocks loops step link bare first as) :
    Links functions blocks loops (fun d as => as.foldlM step d) (linkEach link)
      (List.flatMap bare) first as := by
  induction as generalizing first with
  | nil =>
    constructor
    · intro next l hl
      cases hl
      rfl
    · intro pre post host _
      change Except.ok _ = Except.ok _
      simp [Linked.constantValues]
  | cons a as ih =>
    obtain ⟨hfirst, hrest⟩ := h
    have ih := ih hrest
    constructor
    · intro next l hl
      simp only [linkEach, except_bind_ok_iff] at hl
      obtain ⟨one, hone, rest, hl, he⟩ := hl
      cases he
      simp [Linked.append, hfirst.length _ _ hone, ih.length _ _ hl]
    · intro pre post host hpre
      have hsplit : pre ++ (a :: as).flatMap bare ++ post =
          pre ++ bare a ++ (as.flatMap bare ++ post) := by simp
      rw [List.foldlM_cons, hsplit, hfirst.step pre (as.flatMap bare ++ post) host hpre, linkEach]
      generalize hn : (pre ++ bare a ++ (as.flatMap bare ++ post)).length = next
      cases hone : link next a with
      | error fault => rfl
      | ok one =>
        have hlength := hfirst.length _ _ hone
        have hlist : pre ++ one.values ++ (as.flatMap bare ++ post ++ one.constantValues next) =
            pre ++ one.values ++ as.flatMap bare ++ (post ++ one.constantValues next) := by simp
        have hnext : (pre ++ one.values ++ as.flatMap bare ++
            (post ++ one.constantValues next)).length = next + one.constants.length := by
          simp only [List.length_append, hlength, Linked.constantValues, List.length_map,
            List.length_zipIdx, ← hn]
          omega
        change as.foldlM step (ofLists (pre ++ one.values ++
          (as.flatMap bare ++ post ++ one.constantValues next)) functions blocks loops _) = _
        rw [hlist, ih.step (pre ++ one.values) _ _ (by simp [hpre, hlength]), hnext]
        dsimp only [bind, Except.bind]
        cases linkEach link (next + one.constants.length) as with
        | error fault => rfl
        | ok rest =>
          simp [pure, Except.pure, Linked.append, Linked.constantValues, List.zipIdx_append]

theorem opcode_of_checkNames (h : s.checkNames = .ok ()) {f : NumberedFunction}
    (hf : f ∈ s.numbered) {b : Block} (hb : b ∈ f.source.blocks) {i : Instruction}
    (hi : i ∈ b.instructions) : s.opcode i.operation = .ok (s.opcodeD i.operation) := by
  have hcallee := (checkNames_ok_iff.mp h).2.2 f.source (source_mem_functions hf)
  rw [opcode_eq, checkCallee_ok_iff.mpr (hcallee.2.2 b hb i hi)]
  rfl

section

variable (hnames : s.checkNames = .ok ()) {f : NumberedFunction} (hf : f ∈ s.numbered)
include hnames hf

theorem linksEach_instructions (b : BlockId) (is : List Instruction)
    (hin : ∃ block ∈ f.source.blocks, is ⊆ block.instructions) (first : Nat) :
    LinksEach functions blocks loops ((s.scope s.numbered).addInstructionOperands f.id)
      (fun next i => s.linkInstruction f b next i.1 i.2) (fun i => [s.bareValue b i]) first
      (is.zipIdx first) := by
  induction is generalizing first with
  | nil => trivial
  | cons i is ih =>
    obtain ⟨block, hblock, hsub⟩ := hin
    obtain ⟨hi, hsub⟩ := List.cons_subset.mp hsub
    refine ⟨⟨?_, ?_⟩, ih ⟨block, hblock, hsub⟩ (first + 1)⟩
    · intro next l hl
      obtain ⟨_, _, _, _, _, _, _, rfl⟩ := linkInstruction_ok hl
      rfl
    · intro pre post host hfirst
      subst hfirst
      simpa [Scope.addInstructionOperands] using
        addOperands_eq hf (opcode_of_checkNames hnames hf hblock hi) b pre post host

theorem links_block {b : NumberedBlock} {first : Nat} (hb : b.source ∈ f.source.blocks)
    (hi : b.instructions = b.source.instructions.zipIdx first) :
    Links functions blocks loops ((s.scope s.numbered).addBlockOperands f.id) (s.linkBlock f)
      (·.bareValues s) first b := by
  have h := (linksEach_instructions functions blocks loops hnames hf b.id b.source.instructions
    ⟨b.source, hb, fun _ h => h⟩ first).links
  rw [← hi] at h
  have hbare : b.instructions.flatMap (fun i => [s.bareValue b.id i]) = b.bareValues s :=
    List.map_eq_flatMap.symm
  constructor
  · intro next l hl
    rw [← hbare]
    exact h.length next l hl
  · intro pre post host hpre
    rw [← hbare]
    exact h.step pre post host hpre

theorem linksEach_blocks (bs : List Block) (hbs : bs ⊆ f.source.blocks) (block first : Nat) :
    LinksEach functions blocks loops ((s.scope s.numbered).addBlockOperands f.id) (s.linkBlock f)
      (·.bareValues s) first (numberBlocks block first bs) := by
  induction bs generalizing block first with
  | nil => trivial
  | cons b bs ih =>
    obtain ⟨hb, hbs⟩ := List.cons_subset.mp hbs
    rw [numberBlocks]
    refine ⟨links_block functions blocks loops hnames hf hb rfl, ?_⟩
    have hlength : (NumberedBlock.bareValues s ⟨b, block, b.instructions.zipIdx first⟩).length =
        b.instructions.length := by simp [NumberedBlock.bareValues]
    rw [hlength]
    exact ih hbs _ _

theorem links_function {function block first : Nat} (hfrom : f.From function block first) :
    Links functions blocks loops (s.scope s.numbered).addFunctionOperands s.linkFunction
      (·.bareValues s) first f := by
  have harguments : f.arguments.length = f.source.params.length := by
    simp [NumberedFunction.arguments, hfrom.params]
  have h := (linksEach_blocks functions blocks loops hnames hf f.source.blocks (fun _ h => h) block
    (first + f.source.params.length)).links
  rw [← hfrom.blocks] at h
  constructor
  · intro next l hl
    obtain ⟨body, hbody, rfl⟩ := linkFunction_ok hl
    simp [NumberedFunction.bareValues, h.length next body hbody]
  · intro pre post host hpre
    have hlist : pre ++ f.bareValues s ++ post =
        pre ++ f.arguments ++ f.blocks.flatMap (·.bareValues s) ++ post := by
      simp [NumberedFunction.bareValues]
    have hstep := h.step (pre ++ f.arguments) post host (by simp [hpre, harguments])
    rw [hlist, Scope.addFunctionOperands, hstep, linkFunction]
    generalize (pre ++ f.arguments ++ f.blocks.flatMap (·.bareValues s) ++ post).length = next
    dsimp only [bind, Except.bind]
    cases linkEach (s.linkBlock f) next f.blocks with
    | error fault => rfl
    | ok body =>
      simp [pure, Except.pure, Linked.constantValues, NumberedFunction.arguments]

end

theorem linksEach_functions (hnames : s.checkNames = .ok ()) (fs : List Function)
    {function block first : Nat}
    (hfs : numberFunctions function block first fs ⊆ s.numbered) :
    LinksEach functions blocks loops (s.scope s.numbered).addFunctionOperands s.linkFunction
      (·.bareValues s) first (numberFunctions function block first fs) := by
  induction fs generalizing function block first with
  | nil => trivial
  | cons f fs ih =>
    rw [numberFunctions] at hfs ⊢
    obtain ⟨hf, hfs⟩ := List.cons_subset.mp hfs
    have hfrom := from_first f function block first
    refine ⟨links_function functions blocks loops hnames hf hfrom, ?_⟩
    rw [length_bareValues hfrom]
    exact ih hfs

theorem length_values (s : Snapshot) :
    (s.globalValues ++ s.numbered.flatMap (·.bareValues s)).length = s.firstConstant := by
  have hall : ∀ (fs : List Function) (function block value : Nat),
      ((numberFunctions function block value fs).flatMap (·.bareValues s)).length =
        (fs.map Function.count).foldr (· + ·) 0 := by
    intro fs
    induction fs with
    | nil => exact fun _ _ _ => rfl
    | cons f fs ih =>
      intro function block value
      rw [numberFunctions, List.flatMap_cons, List.length_append,
        length_bareValues (from_first f function block value), ih]
      rfl
  rw [List.length_append, numbered, hall, firstConstant]
  simp [globalValues]

/-- The pending instructions get what their functions are linked to. -/
theorem foldlM_pending (hnames : s.checkNames = .ok ()) (host : HostFacts) :
    (s.numbered.flatMap NumberedFunction.pending).foldlM (s.scope s.numbered).addOperands
      (ofLists (s.globalValues ++ s.numbered.flatMap (·.bareValues s)) functions blocks loops host) =
      linkEach s.linkFunction s.firstConstant s.numbered >>= fun code =>
        .ok (ofLists (s.globalValues ++ code.values ++ code.constantValues s.firstConstant)
          functions blocks loops { host with targets := host.targets ++ code.targets }) := by
  have hpending : ∀ (f : NumberedFunction) (d : ProgramDraft),
      f.pending.foldlM (s.scope s.numbered).addOperands d =
        (s.scope s.numbered).addFunctionOperands d f := by
    intro f d
    rw [NumberedFunction.pending, NumberedFunction.instructions, List.map_flatMap, foldlM_flatMap]
    simp only [List.foldlM_map]
    rfl
  have hlinks := (linksEach_functions functions blocks loops hnames s.functions
    (fun _ h => h : s.numbered ⊆ s.numbered)).links
  have hstep := hlinks.step s.globalValues [] host (by simp [globalValues])
  rw [foldlM_flatMap]
  simp only [hpending]
  simp only [List.append_nil, List.nil_append] at hstep
  rw [← numbered, length_values] at hstep
  exact hstep

/-- A target that is listed already is left out. -/
def withSuccessor (successors : List BlockId) (target : BlockId) : List BlockId :=
  if target ∈ successors then successors else successors ++ [target]

theorem foldl_withSuccessor (targets : List BlockId) :
    targets.foldl withSuccessor [] = targets.eraseDups := by
  induction targets using List.reverseRecOn with
  | nil => rfl
  | append_singleton targets target ih =>
    rw [List.foldl_concat, ih, withSuccessor, eraseDups_concat]

theorem foldl_successor (values : List Value) (pre post : List PointerTriage.Block)
    (b : PointerTriage.Block) (host : HostFacts) (targets : List BlockId) :
    targets.foldl (fun d target => d.successor pre.length target)
      (ofLists values functions (pre ++ b :: post) loops host) =
      ofLists values functions
        (pre ++ { b with successors := targets.foldl withSuccessor b.successors } :: post) loops
        host := by
  induction targets generalizing b with
  | nil => rfl
  | cons target targets ih =>
    have hstep : (ofLists values functions (pre ++ b :: post) loops host).successor pre.length target =
        ofLists values functions
          (pre ++ { b with successors := withSuccessor b.successors target } :: post) loops host := by
      simp only [ProgramDraft.successor, ProgramDraft.onBlock, ofLists, List.modify_toArray,
        modify_append_cons, withSuccessor]
      split <;> rfl
    rw [List.foldl_cons, hstep, ih]
    rfl

section

variable (hnames : s.checkNames = .ok ()) {f : NumberedFunction} (hf : f ∈ s.numbered)
include hnames hf

theorem block_of_checkNames {b : NumberedBlock} (hb : b ∈ f.blocks) :
    f.block b.source.label = .ok b.id := by
  have hlabels : (f.blocks.map fun b => b.source.label).Nodup := by
    have hd := ((checkNames_ok_iff.mp hnames).2.2 f.source (source_mem_functions hf)).2.1
    rw [Function.labels, ← blocks_of_numbered hf, List.map_map] at hd
    exact hd
  cases hfind : f.blocks.find? (·.source.label == b.source.label) with
  | none => simpa using List.find?_eq_none.mp hfind b hb
  | some b' =>
    have hlabel : b'.source.label = b.source.label := by simpa using List.find?_some hfind
    have he := List.inj_on_of_nodup_map hlabels (List.mem_of_find?_eq_some hfind) hb hlabel
    rw [NumberedFunction.block, hfind, he]

theorem addSuccessors_eq {b : NumberedBlock} (hb : b ∈ f.blocks) (values : List Value)
    {pre : List PointerTriage.Block} (post : List PointerTriage.Block) (host : HostFacts)
    (hid : b.id = pre.length) :
    (s.scope s.numbered).addSuccessors f.id
      (ofLists values functions (pre ++ b.entry f.id :: post) loops host) b.source =
      linkSuccessors f b >>= fun block =>
        .ok (ofLists values functions (pre ++ block :: post) loops host) := by
  have htargets : ∀ d, b.source.successors.foldlM ((s.scope s.numbered).addSuccessor f.id b.id) d =
      b.source.successors.mapM f.block >>= fun targets =>
        .ok (targets.foldl (fun d target => d.successor b.id target) d) := by
    intro d
    rw [← funext (block_scope hf)]
    exact foldlM_bind _ _ _ d
  rw [Scope.addSuccessors, block_scope hf, block_of_checkNames hnames hf hb]
  change b.source.successors.foldlM ((s.scope s.numbered).addSuccessor f.id b.id) _ = _
  rw [htargets, linkSuccessors]
  cases b.source.successors.mapM f.block with
  | error fault => rfl
  | ok targets =>
    change Except.ok _ = Except.ok _
    rw [NumberedBlock.entry, hid, foldl_successor, foldl_withSuccessor]

theorem foldlM_addSuccessors {bs : List NumberedBlock} (hbs : bs ⊆ f.blocks) (values : List Value)
    {pre : List PointerTriage.Block} (post : List PointerTriage.Block) (host : HostFacts)
    (hids : bs.map NumberedBlock.id = List.range' pre.length bs.length) :
    (bs.map NumberedBlock.source).foldlM ((s.scope s.numbered).addSuccessors f.id)
      (ofLists values functions (pre ++ bs.map (·.entry f.id) ++ post) loops host) =
      bs.mapM (linkSuccessors f) >>= fun body =>
        .ok (ofLists values functions (pre ++ body ++ post) loops host) := by
  induction bs generalizing pre with
  | nil => rfl
  | cons b bs ih =>
    obtain ⟨hb, hbs⟩ := List.cons_subset.mp hbs
    rw [List.map_cons, List.length_cons, List.range'_succ, List.cons.injEq] at hids
    obtain ⟨hid, hids⟩ := hids
    simp only [List.map_cons]
    rw [List.foldlM_cons, List.append_assoc, List.cons_append,
      addSuccessors_eq functions loops hnames hf hb values _ host hid, List.mapM_cons]
    cases linkSuccessors f b with
    | error fault => rfl
    | ok block =>
      have hlist : pre ++ block :: (bs.map (·.entry f.id) ++ post) =
          pre ++ [block] ++ bs.map (·.entry f.id) ++ post := by simp
      change (bs.map NumberedBlock.source).foldlM _ (ofLists values functions
        (pre ++ block :: (bs.map (·.entry f.id) ++ post)) loops host) = _
      rw [hlist, ih hbs (by simpa using hids)]
      dsimp only [bind, Except.bind]
      cases bs.mapM (linkSuccessors f) with
      | error fault => rfl
      | ok body => simp [pure, Except.pure]

end

theorem foldlM_addEdges (hnames : s.checkNames = .ok ()) {fs : List NumberedFunction}
    (hfs : fs ⊆ s.numbered) (values : List Value) (pre : List PointerTriage.Block)
    (host : HostFacts)
    (hids : fs.flatMap (fun f => f.blocks.map NumberedBlock.id) =
      List.range' pre.length (fs.flatMap NumberedFunction.blocks).length) :
    (fs.map NumberedFunction.source).foldlM (s.scope s.numbered).addEdges
      (ofLists values functions (pre ++ fs.flatMap NumberedFunction.entries) loops host) =
      fs.mapM (fun f => f.blocks.mapM (linkSuccessors f)) >>= fun bodies =>
        .ok (ofLists values functions (pre ++ bodies.flatten) loops host) := by
  induction fs generalizing pre with
  | nil =>
    change Except.ok _ = Except.ok _
    simp
  | cons f fs ih =>
    obtain ⟨hf, hfs⟩ := List.cons_subset.mp hfs
    have hedges : ∀ d, (s.scope s.numbered).addEdges d f.source =
        (f.blocks.map NumberedBlock.source).foldlM ((s.scope s.numbered).addSuccessors f.id) d := by
      intro d
      rw [Scope.addEdges, function_scope,
        functionId_of_nodup (checkNames_ok_iff.mp hnames).1 hf, blocks_of_numbered hf]
      rfl
    rw [List.flatMap_cons, List.flatMap_cons, List.length_append, ← List.range'_append_1] at hids
    obtain ⟨hown, hids⟩ := List.append_inj hids (by simp)
    have hblocks := foldlM_addSuccessors functions loops hnames hf (fun _ h => h) values
      (fs.flatMap NumberedFunction.entries) host hown
    rw [List.map_cons, List.foldlM_cons, hedges, List.flatMap_cons, NumberedFunction.entries,
      ← List.append_assoc, hblocks, List.mapM_cons]
    cases hbody : f.blocks.mapM (linkSuccessors f) with
    | error fault => rfl
    | ok body =>
      have hlength : (pre ++ body).length = pre.length + f.blocks.length := by
        rw [List.length_append, (except_mapM_ok_iff.mp hbody).length_eq]
      change (fs.map NumberedFunction.source).foldlM _ (ofLists values functions
        (pre ++ body ++ fs.flatMap NumberedFunction.entries) loops host) = _
      rw [ih hfs (pre ++ body) (by rw [hlength]; exact hids)]
      dsimp only [bind, Except.bind]
      cases fs.mapM (fun f => f.blocks.mapM (linkSuccessors f)) with
      | error fault => rfl
      | ok bodies => simp [pure, Except.pure]

theorem foldlM_addEdges_numbered (hnames : s.checkNames = .ok ()) (values : List Value)
    (host : HostFacts) :
    s.functions.foldlM (s.scope s.numbered).addEdges
      (ofLists values functions (s.numbered.flatMap NumberedFunction.entries) loops host) =
      s.numbered.mapM (fun f => f.blocks.mapM (linkSuccessors f)) >>= fun bodies =>
        .ok (ofLists values functions bodies.flatten loops host) := by
  have hlength : (s.numbered.flatMap NumberedFunction.blocks).length =
      (s.functions.flatMap Function.blocks).length := by
    have hids := congrArg List.length (ids_numbered_blocks s)
    simpa [List.length_flatMap] using hids
  have hids := ids_numbered_blocks s
  rw [List.range_eq_range', ← hlength] at hids
  have hedges := foldlM_addEdges functions loops hnames (fun _ h => h) values [] host hids
  rwa [source_numbered] at hedges

section

variable (d : ProgramDraft)

theorem foldlM_addLoop : s.loops.foldlM (s.scope s.numbered).addLoop d =
    s.loops.mapM s.linkLoop >>= fun loops =>
      .ok { d with tables := { d.tables with loops := d.tables.loops ++ loops } } := by
  have hpush := foldlM_push s.linkLoop id (·.tables.loops)
    (fun (d : ProgramDraft) loops => { d with tables := { d.tables with loops } })
    (fun _ _ => rfl) (fun _ _ _ => rfl) (fun _ => rfl) s.loops d
  simp only [List.map_id, ← loop_scope] at hpush ⊢
  exact hpush

/-- Facts of either kind are entered as the pairs that they are linked to. -/
theorem foldlM_addPair (part : ProgramDraft → List (ValueId × ValueId))
    (put : ProgramDraft → List (ValueId × ValueId) → ProgramDraft)
    (hpart : ∀ d l, part (put d l) = l) (hput : ∀ d l l', put (put d l) l' = put d l')
    (hself : ∀ d, put d (part d) = d) (facts : List (String × String)) :
    facts.foldlM (fun d refs => (s.scope s.numbered).reference refs.1 >>= fun v =>
      (s.scope s.numbered).reference refs.2 >>= fun w => .ok (put d (part d ++ [(v, w)]))) d =
      facts.mapM s.linkPair >>= fun pairs => .ok (put d (part d ++ pairs)) := by
  have hpush := foldlM_push s.linkPair id part put hpart hput hself facts d
  simp only [List.map_id] at hpush
  rw [← hpush, reference_scope]
  congr 1
  funext d refs
  rw [linkPair]
  cases s.reference refs.1 with
  | error fault => rfl
  | ok v => cases s.reference refs.2 <;> rfl

theorem foldlM_addPointsTo : s.pointsTo.foldlM (s.scope s.numbered).addPointsTo d =
    s.pointsTo.mapM s.linkPair >>= fun pointsTo =>
      .ok { d with host := { d.host with pointsTo := d.host.pointsTo ++ pointsTo } } :=
  foldlM_addPair d (·.host.pointsTo) (fun d pointsTo => { d with host := { d.host with pointsTo } })
    (fun _ _ => rfl) (fun _ _ _ => rfl) (fun _ => rfl) s.pointsTo

theorem foldlM_addFlow : s.flows.foldlM (s.scope s.numbered).addFlow d =
    s.flows.mapM s.linkPair >>= fun flows =>
      .ok { d with host := { d.host with flows := d.host.flows ++ flows } } :=
  foldlM_addPair d (·.host.flows) (fun d flows => { d with host := { d.host with flows } })
    (fun _ _ => rfl) (fun _ _ _ => rfl) (fun _ => rfl) s.flows

end

end

/-- The two passes make the draft of what a snapshot is linked to, and fail where linking fails. -/
theorem draft_eq_link (s : Snapshot) :
    s.draft = s.link >>= fun linked => .ok ⟨linked.1, linked.2⟩ := by
  have hok : ∀ {α β : Type} (a : α) (k : α → Except NameFault β), (Except.ok a >>= k) = k a :=
    fun _ _ => rfl
  rw [draft, firstPass_eq, link]
  cases hnames : s.checkNames with
  | error fault => rfl
  | ok _ =>
    have hreading : s.reading s.numbered [] = ⟨.ofLists
        (s.globalValues ++ s.numbered.flatMap (·.bareValues s)) (s.numbered.map functionEntry)
        (s.numbered.flatMap NumberedFunction.entries) []
        ⟨s.allocators.getD Settings.defaultAllocators, [], [], []⟩, s.scope s.numbered,
        s.numbered.flatMap NumberedFunction.pending⟩ := by simp [reading]
    simp only [hok, hreading, secondPass, foldlM_pending _ _ _ hnames, bind_assoc,
      foldlM_addEdges_numbered _ _ hnames, foldlM_addLoop, foldlM_addPointsTo, foldlM_addFlow]
    rfl

/-- A snapshot is built by drafting it in two passes and building the draft. -/
theorem build_eq_draft_build (s : Snapshot) :
    s.build = match s.draft with
      | .error fault => .error (.name fault)
      | .ok d => match d.build with
        | .error fault => .error (.graph fault)
        | .ok b => .ok b := by
  rw [build, draft_eq_link]
  cases s.link with
  | error fault => rfl
  | ok linked => rfl

end Snapshot

end PointerTriage
