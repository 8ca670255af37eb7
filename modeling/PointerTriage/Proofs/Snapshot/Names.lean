import Mathlib.Data.List.Nodup
import PointerTriage.Proofs.Snapshot.Linking

namespace PointerTriage

section

variable {ε α β : Type}

theorem exists_bind_ok_iff {x : Except ε α} {f : α → Except ε β} :
    (∃ b, (x >>= f) = .ok b) ↔ ∃ a, x = .ok a ∧ ∃ b, f a = .ok b := by
  simp only [except_bind_ok_iff]
  constructor
  · rintro ⟨b, a, ha, hb⟩
    exact ⟨a, ha, b, hb⟩
  · rintro ⟨a, ha, b, hb⟩
    exact ⟨b, a, ha, hb⟩

theorem exists_mapM_ok_iff {f : α → Except ε β} {as : List α} :
    (∃ bs, as.mapM f = .ok bs) ↔ ∀ a ∈ as, ∃ b, f a = .ok b := by
  induction as with
  | nil => exact iff_of_true ⟨[], rfl⟩ nofun
  | cons a as ih =>
    rw [List.mapM_cons, exists_bind_ok_iff, List.forall_mem_cons, ← ih]
    constructor
    · rintro ⟨b, hb, h⟩
      obtain ⟨bs, hbs, _⟩ := exists_bind_ok_iff.mp h
      exact ⟨⟨b, hb⟩, bs, hbs⟩
    · rintro ⟨⟨b, hb⟩, bs, hbs⟩
      exact ⟨b, hb, exists_bind_ok_iff.mpr ⟨bs, hbs, _, rfl⟩⟩

theorem exists_option_mapM_ok_iff {f : α → Except ε β} {a : Option α} :
    (∃ b, a.mapM f = .ok b) ↔ ∀ x ∈ a.toList, ∃ b, f x = .ok b := by
  cases a with
  | none => exact iff_of_true ⟨none, rfl⟩ nofun
  | some x =>
    change (∃ b, Functor.map some (f x) = .ok b) ↔ _
    simp only [Option.toList_some, List.mem_singleton, forall_eq]
    cases f x <;> simp [Functor.map, Except.map]

end

namespace Snapshot

/-- The names of the values that a function defines. -/
def Function.localNames (f : Function) : List String :=
  f.params.map Param.name ++ (f.blocks.flatMap Block.instructions).filterMap Instruction.name

def Function.labels (f : Function) : List String := f.blocks.map Block.label

def functionNames (s : Snapshot) : List String := s.functions.map Function.name

def globalNames (s : Snapshot) : List String := s.globals.map Global.name

/-- The name stands for a value in the function. -/
def Knows (s : Snapshot) (f : Function) (name : String) : Prop :=
  name ∈ f.localNames ∨ name ∈ s.globalNames

/-- A reference names a global, or a function and a value in it with a colon between them. -/
inductive Resolves (s : Snapshot) : String → Prop where
  | global {name : String} (hcolon : ':' ∉ name.toList) (h : name ∈ s.globalNames) : s.Resolves name
  | inside {f : Function} {name : String} (hf : f ∈ s.functions) (hcolon : ':' ∉ f.name.toList)
    (h : s.Knows f name) : s.Resolves (f.name ++ ":" ++ name)

/-- What an instruction names exists. -/
structure Instruction.WellNamed (i : Instruction) (s : Snapshot) (f : Function) : Prop where
  callee : ∀ name ∈ i.operation.callee?, name ∈ s.functionNames
  target : ∀ name ∈ i.operation.targets, name ∈ s.functionNames
  operand : ∀ name, .name name ∈ i.operands → s.Knows f name

structure Function.WellNamed (f : Function) (s : Snapshot) : Prop where
  locals : f.localNames.Nodup
  labels : f.labels.Nodup
  instruction : ∀ b ∈ f.blocks, ∀ i ∈ b.instructions, i.WellNamed s f
  successor : ∀ b ∈ f.blocks, ∀ label ∈ b.successors, label ∈ f.labels

def Loop.labels (l : Loop) : List String :=
  l.header :: (l.latch.toList ++ l.predecessor.toList ++ l.blocks)

/-- Names are distinct where one is meant, and every name that is used is given. -/
structure WellNamed (s : Snapshot) : Prop where
  functions : s.functionNames.Nodup
  globals : s.globalNames.Nodup
  body : ∀ f ∈ s.functions, f.WellNamed s
  loop : ∀ l ∈ s.loops, ∃ f ∈ s.functions, f.name = l.function ∧ ∀ label ∈ l.labels, label ∈ f.labels
  fact : ∀ fact ∈ s.pointsTo ++ s.flows, s.Resolves fact.1 ∧ s.Resolves fact.2

/-- A name that is not among the seen ones is new, and those after it are new beside it. -/
theorem new_cons_iff {n : String} {names seen : List String} (hn : n ∉ seen) :
    (names.Nodup ∧ ∀ m ∈ names, m ∉ n :: seen) ↔
      (n :: names).Nodup ∧ ∀ m ∈ n :: names, m ∉ seen := by
  rw [List.nodup_cons, List.forall_mem_cons]
  simp only [List.mem_cons, not_or]
  constructor
  · rintro ⟨hnodup, hnew⟩
    exact ⟨⟨fun hm => (hnew n hm).1 rfl, hnodup⟩, hn, fun m hm => (hnew m hm).2⟩
  · rintro ⟨⟨hfirst, hnodup⟩, _, hnew⟩
    exact ⟨hnodup, fun m hm => ⟨fun he => hfirst (he ▸ hm), hnew m hm⟩⟩

theorem checkDistinct_ok_iff {fault : String → NameFault} {seen names : List String} :
    checkDistinct fault seen names = .ok () ↔ names.Nodup ∧ ∀ n ∈ names, n ∉ seen := by
  induction names generalizing seen with
  | nil => simp [checkDistinct]
  | cons n names ih =>
    rw [checkDistinct]
    split
    · rename_i hn
      simp [hn]
    · rename_i hn
      rw [ih, new_cons_iff hn]

variable {s : Snapshot}

theorem functionId_ok_iff {name : String} {f : FunctionId} : s.functionId name = .ok f ↔
    s.functions.findIdx? (·.name == name) = some f := by
  unfold functionId
  cases s.functions.findIdx? _ <;> simp

theorem exists_functionId_iff {name : String} :
    (∃ f, s.functionId name = .ok f) ↔ name ∈ s.functionNames := by
  simp only [functionId_ok_iff, ← Option.isSome_iff_exists, List.findIdx?_isSome, List.any_eq_true,
    beq_iff_eq, functionNames, List.mem_map]

theorem isSome_global?_iff {name : String} :
    (s.global? name).isSome = true ↔ name ∈ s.globalNames := by
  rw [global?, List.findIdx?_isSome, globalNames]
  simp

theorem checkCallee_ok_iff {i : Instruction} :
    s.checkCallee i = .ok () ↔ ∀ name ∈ i.operation.callee?, name ∈ s.functionNames := by
  unfold checkCallee
  cases i.operation.callee? with
  | none => simp
  | some name =>
    simp only [Option.mem_def, Option.some.injEq, forall_eq', ← exists_functionId_iff]
    cases s.functionId name <;> simp [Except.map]

theorem checkInstructions_ok_iff {f : FunctionId} {seen : List String} {is : List Instruction} :
    s.checkInstructions f seen is = .ok () ↔
      (∀ i ∈ is, ∀ name ∈ i.operation.callee?, name ∈ s.functionNames) ∧
        (is.filterMap Instruction.name).Nodup ∧ ∀ n ∈ is.filterMap Instruction.name, n ∉ seen := by
  induction is generalizing seen with
  | nil => simp [checkInstructions]
  | cons i is ih =>
    rw [checkInstructions, except_seq_ok_iff, checkCallee_ok_iff, List.forall_mem_cons, and_assoc]
    refine and_congr_right fun _ => ?_
    cases hname : i.name with
    | none => simp only [ih, List.filterMap_cons_none hname]
    | some n =>
      rw [List.filterMap_cons_some hname]
      dsimp only
      split
      · rename_i hn
        simp [hn]
      · rename_i hn
        rw [ih, new_cons_iff hn]

theorem checkFunction_ok_iff {f : NumberedFunction} :
    s.checkFunction f = .ok () ↔ f.source.localNames.Nodup ∧ f.source.labels.Nodup ∧
      ∀ b ∈ f.source.blocks, ∀ i ∈ b.instructions, ∀ name ∈ i.operation.callee?,
        name ∈ s.functionNames := by
  have hcallees : (∀ i ∈ f.source.blocks.flatMap Block.instructions,
      ∀ name ∈ i.operation.callee?, name ∈ s.functionNames) ↔
      ∀ b ∈ f.source.blocks, ∀ i ∈ b.instructions, ∀ name ∈ i.operation.callee?,
        name ∈ s.functionNames := by
    simp only [List.mem_flatMap, forall_exists_index, and_imp]
    exact ⟨fun h b hb i hi => h i b hb hi, fun h i b hb hi => h b hb i hi⟩
  simp only [checkFunction, except_seq_ok_iff, checkDistinct_ok_iff, checkInstructions_ok_iff,
    hcallees, Function.localNames, Function.labels, List.nodup_append]
  constructor
  · rintro ⟨⟨hparams, _⟩, ⟨hlabels, _⟩, hknown, hnames, hnew⟩
    exact ⟨⟨hparams, hnames, fun n hn m hm he => hnew m hm (he ▸ hn)⟩, hlabels, hknown⟩
  · rintro ⟨⟨hparams, hnames, hapart⟩, hlabels, hknown⟩
    exact ⟨⟨hparams, by simp⟩, ⟨hlabels, by simp⟩, hknown, hnames,
      fun n hn hp => hapart n hp n hn rfl⟩

theorem forall_numbered_iff {p : Function → Prop} :
    (∀ f ∈ s.numbered, p f.source) ↔ ∀ f ∈ s.functions, p f := by
  rw [← source_numbered s, List.forall_mem_map]

theorem checkNames_ok_iff :
    s.checkNames = .ok () ↔ s.functionNames.Nodup ∧ s.globalNames.Nodup ∧
      ∀ f ∈ s.functions, f.localNames.Nodup ∧ f.labels.Nodup ∧
        ∀ b ∈ f.blocks, ∀ i ∈ b.instructions, ∀ name ∈ i.operation.callee?,
          name ∈ s.functionNames := by
  simp only [checkNames, except_seq_ok_iff, checkDistinct_ok_iff, except_forM_ok_iff,
    checkFunction_ok_iff, ← forall_numbered_iff (s := s)]
  simp [functionNames, globalNames]

theorem source_numberBlocks (block value : Nat) (bs : List Block) :
    (numberBlocks block value bs).map NumberedBlock.source = bs := by
  induction bs generalizing block value with
  | nil => rfl
  | cons b bs ih => simp [numberBlocks, ih]

theorem instructions_source {block value : Nat} {bs : List Block} {b : NumberedBlock}
    (hb : b ∈ numberBlocks block value bs) :
    b.instructions.map Prod.fst = b.source.instructions := by
  induction bs generalizing block value with
  | nil => cases hb
  | cons b' bs ih =>
    rcases List.mem_cons.mp hb with rfl | hb
    · exact List.zipIdx_map_fst _ _
    · exact ih hb

section

variable {f : NumberedFunction} (hf : f ∈ s.numbered)
include hf

theorem params_of_numbered : f.params.map Prod.fst = f.source.params := by
  obtain ⟨_, _, hparams, _⟩ := parts_numberFunctions hf
  rw [hparams, List.zipIdx_map_fst]

theorem blocks_of_numbered : f.blocks.map NumberedBlock.source = f.source.blocks := by
  obtain ⟨_, _, _, hblocks⟩ := parts_numberFunctions hf
  rw [hblocks, source_numberBlocks]

theorem block_of_numbered {b : NumberedBlock} (hb : b ∈ f.blocks) :
    b.instructions.map Prod.fst = b.source.instructions := by
  obtain ⟨_, _, _, hblocks⟩ := parts_numberFunctions hf
  rw [hblocks] at hb
  exact instructions_source hb

theorem instructions_of_numbered :
    f.instructions.map Prod.fst = f.source.blocks.flatMap Block.instructions := by
  rw [NumberedFunction.instructions, List.map_flatMap, ← blocks_of_numbered hf, List.flatMap_map]
  exact List.flatMap_congr fun b hb => block_of_numbered hf hb

theorem names_of_params :
    (f.params.map fun (p, v) => (p.name, v)).map Prod.fst = f.source.params.map Param.name := by
  rw [← params_of_numbered hf, List.map_map, List.map_map]
  rfl

theorem names_of_instructions :
    (f.instructions.filterMap fun (i, v) => i.name.map (·, v)).map Prod.fst =
      (f.source.blocks.flatMap Block.instructions).filterMap Instruction.name := by
  rw [← instructions_of_numbered hf, List.map_filterMap, List.filterMap_map]
  apply List.filterMap_congr
  rintro ⟨i, v⟩ _
  cases hname : i.name <;> simp [hname]

theorem locals_of_numbered : f.locals.map Prod.fst = f.source.localNames := by
  rw [NumberedFunction.locals, List.map_append, names_of_params hf, names_of_instructions hf,
    Function.localNames]

theorem exists_value_iff {name : String} :
    (∃ v, s.value f name = .ok v) ↔ s.Knows f.source name := by
  have hlocal : (f.local? name).isSome = true ↔ name ∈ f.source.localNames := by
    rw [← locals_of_numbered hf, NumberedFunction.local?, Option.isSome_map, List.find?_isSome]
    simp
  rw [Knows, ← hlocal, ← isSome_global?_iff, value]
  cases f.local? name <;> cases s.global? name <;> simp

theorem exists_block_iff {label : String} :
    (∃ b, f.block label = .ok b) ↔ label ∈ f.source.labels := by
  have hfound : (f.blocks.find? (·.source.label == label)).isSome = true ↔
      label ∈ f.source.labels := by
    rw [Function.labels, ← blocks_of_numbered hf, List.find?_isSome]
    simp
  rw [← hfound, NumberedFunction.block]
  cases f.blocks.find? _ <;> simp

theorem exists_operands_iff (next : ValueId) {ops : List Operand} :
    (∃ r, s.operands f next ops = .ok r) ↔ ∀ name, .name name ∈ ops → s.Knows f.source name := by
  induction ops generalizing next with
  | nil => simp [operands]
  | cons op ops ih =>
    cases op with
    | int i | null =>
      simp only [operands, exists_bind_ok_iff, List.mem_cons, reduceCtorEq, false_or]
      rw [← ih (next + 1)]
      exact exists_congr fun r => and_iff_left ⟨_, rfl⟩
    | name n =>
      simp only [operands, exists_bind_ok_iff, List.mem_cons, Operand.name.injEq, forall_eq_or_imp]
      rw [← exists_value_iff hf, ← ih next]
      constructor
      · rintro ⟨v, hv, r, hr, _⟩
        exact ⟨⟨v, hv⟩, r, hr⟩
      · rintro ⟨⟨v, hv⟩, r, hr⟩
        exact ⟨v, hv, r, hr, _, rfl⟩

end

theorem exists_opcode_iff {operation : Operation} : (∃ opcode, s.opcode operation = .ok opcode) ↔
    ∀ name ∈ operation.callee?, name ∈ s.functionNames := by
  cases operation with
  | call callee targets =>
    cases callee with
    | none => simp [opcode, Operation.opcode, Operation.callee?]
    | some name =>
      simp only [opcode, Operation.opcode, exists_bind_ok_iff, Operation.callee?, Option.mem_def,
        Option.some.injEq, forall_eq', ← exists_functionId_iff]
      exact exists_congr fun f => and_iff_left ⟨_, rfl⟩
  | _ => simp [opcode, Operation.opcode, Operation.callee?]

theorem exists_linkInstruction_iff {f : NumberedFunction} (hf : f ∈ s.numbered) {block : BlockId}
    {next v : ValueId} {i : Instruction} :
    (∃ l, s.linkInstruction f block next i v = .ok l) ↔ i.WellNamed s f.source := by
  have htargets : (∃ fs, i.operation.targets.mapM s.functionId = .ok fs) ↔
      ∀ name ∈ i.operation.targets, name ∈ s.functionNames := by
    simp only [exists_mapM_ok_iff, exists_functionId_iff]
  simp only [linkInstruction, exists_bind_ok_iff]
  constructor
  · rintro ⟨opcode, hopcode, operands, hoperands, targets, hfound, _⟩
    exact ⟨exists_opcode_iff.mp ⟨opcode, hopcode⟩, htargets.mp ⟨targets, hfound⟩,
      (exists_operands_iff hf next).mp ⟨operands, hoperands⟩⟩
  · intro h
    obtain ⟨opcode, hopcode⟩ := exists_opcode_iff.mpr h.callee
    obtain ⟨operands, hoperands⟩ := (exists_operands_iff hf next).mpr h.operand
    obtain ⟨targets, hfound⟩ := htargets.mpr h.target
    exact ⟨opcode, hopcode, operands, hoperands, targets, hfound, _, rfl⟩

/-- Whether an item links does not depend on the constants before it. -/
theorem exists_linkEach_iff {α : Type} {link : ValueId → α → Except NameFault Linked}
    {p : α → Prop} {as : List α} (h : ∀ a ∈ as, ∀ next, (∃ l, link next a = .ok l) ↔ p a)
    (next : ValueId) : (∃ l, linkEach link next as = .ok l) ↔ ∀ a ∈ as, p a := by
  induction as generalizing next with
  | nil => exact iff_of_true ⟨_, rfl⟩ nofun
  | cons a as ih =>
    rw [List.forall_mem_cons] at h ⊢
    simp only [linkEach, exists_bind_ok_iff]
    constructor
    · rintro ⟨one, hone, rest, hrest, _⟩
      exact ⟨(h.1 next).mp ⟨one, hone⟩, (ih h.2 _).mp ⟨rest, hrest⟩⟩
    · rintro ⟨ha, has⟩
      obtain ⟨one, hone⟩ := (h.1 next).mpr ha
      obtain ⟨rest, hrest⟩ := (ih h.2 (next + one.constants.length)).mpr has
      exact ⟨one, hone, rest, hrest, _, rfl⟩

theorem exists_linkFunction_iff {f : NumberedFunction} (hf : f ∈ s.numbered) {next : ValueId} :
    (∃ l, s.linkFunction next f = .ok l) ↔
      ∀ b ∈ f.source.blocks, ∀ i ∈ b.instructions, i.WellNamed s f.source := by
  have hblock : ∀ b ∈ f.blocks, ∀ next, (∃ l, s.linkBlock f next b = .ok l) ↔
      ∀ i ∈ b.source.instructions, i.WellNamed s f.source := by
    intro b hb next
    rw [← block_of_numbered hf hb, List.forall_mem_map]
    refine exists_linkEach_iff (p := fun j : Instruction × ValueId => j.1.WellNamed s f.source) ?_ next
    intro j _ next
    exact exists_linkInstruction_iff hf
  rw [← blocks_of_numbered hf, List.forall_mem_map, ← exists_linkEach_iff hblock next]
  simp only [linkFunction, exists_bind_ok_iff]
  exact exists_congr fun l => and_iff_left ⟨_, rfl⟩

theorem exists_linkSuccessors_iff {f : NumberedFunction} (hf : f ∈ s.numbered) :
    (∃ bs, f.blocks.mapM (linkSuccessors f) = .ok bs) ↔
      ∀ b ∈ f.source.blocks, ∀ label ∈ b.successors, label ∈ f.source.labels := by
  rw [exists_mapM_ok_iff, ← blocks_of_numbered hf, List.forall_mem_map]
  refine forall_congr' fun b => imp_congr_right fun _ => ?_
  simp only [← exists_block_iff hf, ← exists_mapM_ok_iff, linkSuccessors, exists_bind_ok_iff]
  exact exists_congr fun l => and_iff_left ⟨_, rfl⟩

theorem mem_of_numberedFunction {name : String} {f : NumberedFunction}
    (h : s.numberedFunction name = .ok f) : f ∈ s.numbered ∧ f.source.name = name := by
  unfold numberedFunction at h
  split at h
  · rename_i g hg
    cases h
    exact ⟨List.mem_of_find?_eq_some hg, by simpa using List.find?_some hg⟩
  · cases h

/-- With distinct names, the function that is found is the one of that name. -/
theorem exists_numberedFunction_iff (hnames : s.functionNames.Nodup) {name : String}
    {p : Function → Prop} : (∃ f, s.numberedFunction name = .ok f ∧ p f.source) ↔
      ∃ f ∈ s.functions, f.name = name ∧ p f := by
  constructor
  · rintro ⟨f, hf, hp⟩
    obtain ⟨hmem, hname⟩ := mem_of_numberedFunction hf
    exact ⟨f.source, source_mem_functions hmem, hname, hp⟩
  · rintro ⟨f, hf, hname, hp⟩
    have hfound : (s.numbered.find? (·.source.name == name)).isSome = true := by
      rw [← source_numbered s] at hf
      obtain ⟨nf, hnf, rfl⟩ := List.mem_map.mp hf
      exact List.find?_isSome.mpr ⟨nf, hnf, by simpa using hname⟩
    obtain ⟨nf, hnf⟩ := Option.isSome_iff_exists.mp hfound
    have hok : s.numberedFunction name = .ok nf := by rw [numberedFunction, hnf]
    obtain ⟨hmem, hname'⟩ := mem_of_numberedFunction hok
    have heq : nf.source = f :=
      List.inj_on_of_nodup_map hnames (source_mem_functions hmem) hf (hname'.trans hname.symm)
    exact ⟨nf, hok, heq ▸ hp⟩

theorem exists_linkLoop_iff (hnames : s.functionNames.Nodup) {l : Loop} :
    (∃ loop, s.linkLoop l = .ok loop) ↔
      ∃ f ∈ s.functions, f.name = l.function ∧ ∀ label ∈ l.labels, label ∈ f.labels := by
  rw [← exists_numberedFunction_iff hnames (p := fun f => ∀ label ∈ l.labels, label ∈ f.labels)]
  simp only [linkLoop, exists_bind_ok_iff]
  refine exists_congr fun f => and_congr_right fun hf => ?_
  simp only [Loop.labels, List.forall_mem_cons, List.forall_mem_append,
    ← exists_block_iff (mem_of_numberedFunction hf).1, ← exists_option_mapM_ok_iff]
  rw [← exists_mapM_ok_iff]
  constructor
  · rintro ⟨blocks, hblocks, header, hheader, latch, hlatch, predecessor, hpredecessor, _⟩
    exact ⟨⟨header, hheader⟩, ⟨⟨latch, hlatch⟩, predecessor, hpredecessor⟩, blocks, hblocks⟩
  · rintro ⟨⟨header, hheader⟩, ⟨⟨latch, hlatch⟩, predecessor, hpredecessor⟩, blocks, hblocks⟩
    exact ⟨blocks, hblocks, header, hheader, latch, hlatch, predecessor, hpredecessor, _, rfl⟩

theorem splitColon_eq_none_iff {cs : List Char} : splitColon cs = none ↔ ':' ∉ cs := by
  induction cs with
  | nil => simp [splitColon]
  | cons c cs ih =>
    rw [splitColon]
    split
    · rename_i hc
      simp [hc]
    · rename_i hc
      simp [ih, Ne.symm hc]

theorem splitColon_eq_some_iff {cs before after : List Char} :
    splitColon cs = some (before, after) ↔ cs = before ++ ':' :: after ∧ ':' ∉ before := by
  induction cs generalizing before after with
  | nil => simp [splitColon]
  | cons c cs ih =>
    rw [splitColon]
    split
    · rename_i hc
      subst hc
      cases before with
      | nil => simp
      | cons d before =>
        simp only [Option.some.injEq, Prod.mk.injEq, List.nil_eq, reduceCtorEq, false_and, false_iff]
        rintro ⟨he, hnot⟩
        simp only [List.cons_append, List.cons.injEq] at he
        exact hnot (he.1 ▸ List.mem_cons_self)
    · rename_i hc
      cases before with
      | nil => simp [hc]
      | cons d before =>
        simp only [Option.map_eq_some_iff, Prod.exists, Prod.mk.injEq, List.cons.injEq, ih]
        constructor
        · rintro ⟨_, _, ⟨rfl, hnot⟩, ⟨rfl, rfl⟩, rfl⟩
          exact ⟨rfl, by simp [hnot, Ne.symm hc]⟩
        · rintro ⟨he, hnot⟩
          obtain ⟨rfl, rfl⟩ := List.cons.inj he
          exact ⟨before, after, ⟨rfl, fun hm => hnot (List.mem_cons_of_mem _ hm)⟩, ⟨rfl, rfl⟩, rfl⟩

theorem resolves_iff_of_split {ref : String} {function name : List Char}
    (h : splitColon ref.toList = some (function, name)) : s.Resolves ref ↔
      ∃ f ∈ s.functions, f.name = String.ofList function ∧ s.Knows f (String.ofList name) := by
  obtain ⟨hchars, hcolon⟩ := splitColon_eq_some_iff.mp h
  constructor
  · intro hr
    cases hr with
    | global hnone hglobal =>
      rw [hchars] at hnone
      simp at hnone
    | @inside f name' hf hnone hknows =>
      have hsplit : splitColon (f.name ++ ":" ++ name').toList = some (f.name.toList, name'.toList) :=
        splitColon_eq_some_iff.mpr ⟨by simp, hnone⟩
      rw [hsplit] at h
      cases h
      exact ⟨f, hf, by simp, by simpa using hknows⟩
  · rintro ⟨f, hf, hname, hknows⟩
    have href : ref = f.name ++ ":" ++ String.ofList name := by
      rw [← String.toList_inj, hchars, hname]
      simp
    rw [href]
    exact .inside hf (by simpa [hname] using hcolon) hknows

theorem resolves_iff_of_no_colon {ref : String} (h : ':' ∉ ref.toList) :
    s.Resolves ref ↔ ref ∈ s.globalNames := by
  constructor
  · intro hr
    cases hr with
    | global _ hglobal => exact hglobal
    | inside hf hnone hknows => simp at h
  · exact .global h

theorem exists_reference_iff (hnames : s.functionNames.Nodup) {ref : String} :
    (∃ v, s.reference ref = .ok v) ↔ s.Resolves ref := by
  unfold reference
  split
  · rename_i function name hsplit
    rw [resolves_iff_of_split hsplit, exists_bind_ok_iff,
      ← exists_numberedFunction_iff hnames (p := fun f => s.Knows f (String.ofList name))]
    refine exists_congr fun f => and_congr_right fun hf => ?_
    exact exists_value_iff (mem_of_numberedFunction hf).1
  · rename_i hsplit
    rw [resolves_iff_of_no_colon (splitColon_eq_none_iff.mp hsplit), ← isSome_global?_iff]
    cases s.global? ref <;> simp

theorem exists_linkPair_iff (hnames : s.functionNames.Nodup) {refs : String × String} :
    (∃ pair, s.linkPair refs = .ok pair) ↔ s.Resolves refs.1 ∧ s.Resolves refs.2 := by
  simp only [linkPair, exists_bind_ok_iff, ← exists_reference_iff hnames]
  constructor
  · rintro ⟨v, hv, w, hw, _⟩
    exact ⟨⟨v, hv⟩, w, hw⟩
  · rintro ⟨⟨v, hv⟩, w, hw⟩
    exact ⟨v, hv, w, hw, _, rfl⟩

/-- A snapshot links exactly if its names are sound. -/
theorem exists_link_iff : (∃ linked, s.link = .ok linked) ↔ s.WellNamed := by
  have hcode : (∃ code, linkEach s.linkFunction s.firstConstant s.numbered = .ok code) ↔
      ∀ f ∈ s.functions, ∀ b ∈ f.blocks, ∀ i ∈ b.instructions, i.WellNamed s f := by
    rw [← forall_numbered_iff]
    exact exists_linkEach_iff (fun f hf next => exists_linkFunction_iff hf) s.firstConstant
  have hbodies : (∃ bodies, s.numbered.mapM (fun f => f.blocks.mapM (linkSuccessors f)) =
      .ok bodies) ↔
      ∀ f ∈ s.functions, ∀ b ∈ f.blocks, ∀ label ∈ b.successors, label ∈ f.labels := by
    rw [← forall_numbered_iff, exists_mapM_ok_iff]
    exact forall₂_congr fun f hf => exists_linkSuccessors_iff hf
  simp only [link, exists_bind_ok_iff]
  constructor
  · rintro ⟨_, hnames, code, hlinked, bodies, hsuccessors, loops, hloops, pointsTo, hpoints, flows,
      hflows, _⟩
    obtain ⟨hfunctions, hglobals, hlocals⟩ := checkNames_ok_iff.mp hnames
    have hinstructions := hcode.mp ⟨code, hlinked⟩
    have hsuccessors := hbodies.mp ⟨bodies, hsuccessors⟩
    have hloops := exists_mapM_ok_iff.mp ⟨loops, hloops⟩
    have hpoints := exists_mapM_ok_iff.mp ⟨pointsTo, hpoints⟩
    have hflows := exists_mapM_ok_iff.mp ⟨flows, hflows⟩
    constructor
    case functions => exact hfunctions
    case globals => exact hglobals
    case body =>
      intro f hf
      exact ⟨(hlocals f hf).1, (hlocals f hf).2.1, hinstructions f hf, hsuccessors f hf⟩
    case loop =>
      intro l hl
      exact (exists_linkLoop_iff hfunctions).mp (hloops l hl)
    case fact =>
      intro fact hfact
      refine (exists_linkPair_iff hfunctions).mp ?_
      exact (List.mem_append.mp hfact).elim (hpoints fact) (hflows fact)
  · intro h
    have hlocals : ∀ f ∈ s.functions, f.localNames.Nodup ∧ f.labels.Nodup ∧
        ∀ b ∈ f.blocks, ∀ i ∈ b.instructions, ∀ name ∈ i.operation.callee?,
          name ∈ s.functionNames := by
      intro f hf
      exact ⟨(h.body f hf).locals, (h.body f hf).labels,
        fun b hb i hi => ((h.body f hf).instruction b hb i hi).callee⟩
    have hfacts : ∀ fact ∈ s.pointsTo ++ s.flows, ∃ pair, s.linkPair fact = .ok pair :=
      fun fact hfact => (exists_linkPair_iff h.functions).mpr (h.fact fact hfact)
    obtain ⟨code, hlinked⟩ := hcode.mpr fun f hf => (h.body f hf).instruction
    obtain ⟨bodies, hsuccessors⟩ := hbodies.mpr fun f hf => (h.body f hf).successor
    obtain ⟨loops, hloops⟩ : ∃ loops, s.loops.mapM s.linkLoop = .ok loops :=
      exists_mapM_ok_iff.mpr fun l hl => (exists_linkLoop_iff h.functions).mpr (h.loop l hl)
    obtain ⟨pointsTo, hpoints⟩ : ∃ pairs, s.pointsTo.mapM s.linkPair = .ok pairs :=
      exists_mapM_ok_iff.mpr fun fact hfact => hfacts fact (List.mem_append_left _ hfact)
    obtain ⟨flows, hflows⟩ : ∃ pairs, s.flows.mapM s.linkPair = .ok pairs :=
      exists_mapM_ok_iff.mpr fun fact hfact => hfacts fact (List.mem_append_right _ hfact)
    exact ⟨(), checkNames_ok_iff.mpr ⟨h.functions, h.globals, hlocals⟩, code, hlinked, bodies,
      hsuccessors, loops, hloops, pointsTo, hpoints, flows, hflows, _, rfl⟩

end Snapshot

end PointerTriage
