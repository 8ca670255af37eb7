import PointerTriage.Proofs.Snapshot.Linking

namespace PointerTriage.Snapshot

section

variable (m : Operation → Operation)

def Instruction.recode (i : Instruction) : Instruction := { i with operation := m i.operation }

def Block.recode (b : Block) : Block :=
  { b with instructions := b.instructions.map (Instruction.recode m) }

def Function.recode (f : Function) : Function := { f with blocks := f.blocks.map (Block.recode m) }

def NumberedBlock.recode (b : NumberedBlock) : NumberedBlock :=
  ⟨b.source.recode m, b.id, b.instructions.map fun (i, v) => (i.recode m, v)⟩

def NumberedFunction.recode (f : NumberedFunction) : NumberedFunction :=
  ⟨f.source.recode m, f.id, f.params, f.blocks.map (NumberedBlock.recode m)⟩

/-- The code of the snapshot with its operations changed, and no facts. -/
def recode (s : Snapshot) : Snapshot :=
  ⟨s.globals, s.functions.map (Function.recode m), [], [], [], none⟩

theorem numberBlocks_recode (block value : Nat) (bs : List Block) :
    numberBlocks block value (bs.map (Block.recode m)) =
      (numberBlocks block value bs).map (NumberedBlock.recode m) := by
  induction bs generalizing block value with
  | nil => rfl
  | cons b bs ih =>
    simp [numberBlocks, ih, NumberedBlock.recode, Block.recode, List.zipIdx_map, Prod.map]

theorem Function.count_recode (f : Function) : (f.recode m).count = f.count := by
  simp [Function.count, Function.recode, Block.count, Function.comp_def, Block.recode]

theorem numberFunctions_recode (function block value : Nat) (fs : List Function) :
    numberFunctions function block value (fs.map (Function.recode m)) =
      (numberFunctions function block value fs).map (NumberedFunction.recode m) := by
  induction fs generalizing function block value with
  | nil => rfl
  | cons f fs ih =>
    simp only [List.map_cons, numberFunctions, ih, Function.count_recode]
    simp [NumberedFunction.recode, Function.recode, numberBlocks_recode]

theorem instructions_recode (f : NumberedFunction) :
    (f.recode m).instructions = f.instructions.map fun (i, v) => (i.recode m, v) := by
  simp [NumberedFunction.instructions, NumberedFunction.recode, NumberedBlock.recode,
    List.flatMap_map, List.map_flatMap]

theorem local?_recode (f : NumberedFunction) (name : String) :
    (f.recode m).local? name = f.local? name := by
  unfold NumberedFunction.local? NumberedFunction.locals
  rw [instructions_recode, List.filterMap_map]
  rfl

theorem block_recode (f : NumberedFunction) : (f.recode m).block = f.block := by
  funext label
  unfold NumberedFunction.block NumberedFunction.recode
  rw [List.find?_map]
  have hlabel : ((fun b : NumberedBlock => b.source.label == label) ∘ NumberedBlock.recode m) =
      fun b => b.source.label == label := rfl
  rw [hlabel]
  cases f.blocks.find? _ with
  | none => rfl
  | some b => rfl

theorem linkSuccessors_recode (f : NumberedFunction) :
    (f.recode m).blocks.mapM (linkSuccessors (f.recode m)) = f.blocks.mapM (linkSuccessors f) := by
  have hone : ∀ b, linkSuccessors (f.recode m) (NumberedBlock.recode m b) = linkSuccessors f b := by
    intro b
    unfold linkSuccessors
    rw [block_recode]
    simp [NumberedBlock.recode, NumberedFunction.recode, Block.recode, Function.comp_def]
  simp only [NumberedFunction.recode, List.mapM_map]
  exact congrArg (fun g => f.blocks.mapM g) (funext hone)

variable (s : Snapshot)

theorem numbered_recode : (s.recode m).numbered = s.numbered.map (NumberedFunction.recode m) :=
  numberFunctions_recode m 0 0 s.globals.length s.functions

theorem firstConstant_recode : (s.recode m).firstConstant = s.firstConstant := by
  simp [firstConstant, recode, Function.comp_def, Function.count_recode]

theorem functionId_recode : (s.recode m).functionId = s.functionId := by
  funext name
  unfold functionId recode
  rw [List.findIdx?_map]
  rfl

theorem opcode_recode : (s.recode m).opcode = s.opcode := by
  funext operation
  unfold opcode
  rw [functionId_recode]

theorem value_recode (f : NumberedFunction) : (s.recode m).value (f.recode m) = s.value f := by
  funext name
  unfold value
  rw [local?_recode]
  rfl

theorem numberedFunction_recode (name : String) : (s.recode m).numberedFunction name =
    (s.numberedFunction name).map (NumberedFunction.recode m) := by
  unfold numberedFunction
  rw [numbered_recode, List.find?_map]
  have hname : ((fun f : NumberedFunction => f.source.name == name) ∘ NumberedFunction.recode m) =
      fun f => f.source.name == name := rfl
  rw [hname]
  cases s.numbered.find? _ with
  | none => rfl
  | some f => rfl

theorem reference_recode : (s.recode m).reference = s.reference := by
  funext ref
  unfold reference
  cases splitColon ref.toList with
  | none => rfl
  | some parts =>
    obtain ⟨function, name⟩ := parts
    simp only [numberedFunction_recode]
    cases s.numberedFunction (String.ofList function) with
    | error fault => rfl
    | ok f => exact congrFun (value_recode m s f) _

theorem linkPair_recode : (s.recode m).linkPair = s.linkPair := by
  funext refs
  simp only [linkPair, reference_recode]

theorem linkLoop_recode : (s.recode m).linkLoop = s.linkLoop := by
  funext l
  unfold linkLoop
  rw [numberedFunction_recode]
  cases s.numberedFunction l.function with
  | error fault => rfl
  | ok f =>
    simp only [Except.map, bind, Except.bind, block_recode]
    rfl

theorem operands_recode (f : NumberedFunction) (next : ValueId) (ops : List Operand) :
    (s.recode m).operands (f.recode m) next ops = s.operands f next ops := by
  induction ops generalizing next with
  | nil => rfl
  | cons op ops ih =>
    cases op with
    | int i => simp only [operands, ih]
    | null => simp only [operands, ih]
    | name n => simp only [operands, ih, value_recode]

theorem mapM_linkSuccessors_recode :
    (s.recode m).numbered.mapM (fun f => f.blocks.mapM (linkSuccessors f)) =
      s.numbered.mapM fun f => f.blocks.mapM (linkSuccessors f) := by
  simp only [numbered_recode, List.mapM_map, Function.comp_def, linkSuccessors_recode]

theorem functionEntries_recode :
    (s.recode m).numbered.map functionEntry = s.numbered.map functionEntry := by
  simp [numbered_recode, functionEntry, NumberedFunction.recode, NumberedBlock.recode,
    Function.recode, Function.comp_def]

end

end PointerTriage.Snapshot
