import Mathlib.Data.List.Nodup
import PointerTriage.ControlFlow.Build
import PointerTriage.Proofs.ValueFlow.Definitions

namespace PointerTriage

/-- An entry is found at its id, if all entries of the table have the index as id. -/
theorem getElem?_id_of_mem {α : Type} {entries : Array α} {id : α → Nat}
    (h : ∀ i a, entries[i]? = some a → id a = i) {a : α} (ha : a ∈ entries) :
    entries[id a]? = some a := by
  obtain ⟨i, hi⟩ := Array.mem_iff_getElem?.mp ha
  rwa [h i a hi]

/-- What belongs to a block or function is what that lists. -/
structure Tables.Housed (t : Tables) : Prop where
  home : ∀ b ∈ t.blocks, ∀ v ∈ b.instructions,
    ∃ value opcode, t.values[v]? = some value ∧ value.kind = .instruction opcode b.id
  listed : ∀ value ∈ t.values, ∀ opcode b, value.kind = .instruction opcode b →
    ∃ block, t.blocks[b]? = some block ∧ value.id ∈ block.instructions
  instructions : ∀ b ∈ t.blocks, b.instructions.Nodup
  owner : ∀ b ∈ t.blocks, ∃ f, t.functions[b.function]? = some f ∧ b.id ∈ f.blocks
  body : ∀ f ∈ t.functions, ∀ b ∈ f.blocks,
    ∃ block, t.blocks[b]? = some block ∧ block.function = f.id
  blocks : ∀ f ∈ t.functions, f.blocks.Nodup
  argument : ∀ value ∈ t.values, ∀ f i, value.kind = .argument f i →
    ∃ function, t.functions[f]? = some function ∧ function.params[i]? = some value.id
  param : ∀ f ∈ t.functions, ∀ (i : Nat) p, f.params[i]? = some p →
    ∃ value, t.values[p]? = some value ∧ value.kind = .argument f.id i

namespace Ir

variable {ir : Ir}

theorem mem_defined {f : Function} :
    f ∈ ir.defined ↔ f ∈ ir.tables.functions ∧ f.isDeclaration = false := by
  simp [defined, functions]

def HasBody (ir : Ir) (f : FunctionId) : Prop :=
  ∃ function, ir.function? f = some function ∧ function.isDeclaration = false

theorem hasBody_iff (hs : ir.tables.Sound) {f : FunctionId} :
    ir.HasBody f ↔ ∃ function ∈ ir.defined, function.id = f := by
  simp only [mem_defined]
  constructor
  · intro hex
    obtain ⟨function, hf, hbody⟩ := hex
    exact ⟨function, ⟨Array.mem_of_getElem? hf, hbody⟩, hs.function f function hf⟩
  · intro hex
    obtain ⟨function, ⟨hf, hbody⟩, rfl⟩ := hex
    exact ⟨function, getElem?_id_of_mem hs.function hf, hbody⟩

theorem mem_blocks {b : Block} : b ∈ ir.blocks ↔ b ∈ ir.tables.blocks := Array.mem_toList_iff

theorem mem_body (hs : ir.tables.Sound) {f : Function} {b : Block} :
    b ∈ ir.body f ↔ b ∈ ir.blocks ∧ b.id ∈ f.blocks := by
  rw [body, List.mem_filterMap, mem_blocks]
  constructor
  · intro hex
    obtain ⟨i, hi, hb⟩ := hex
    have hid : b.id = i := hs.block i b hb
    exact ⟨Array.mem_of_getElem? hb, hid ▸ hi⟩
  · intro hb
    exact ⟨b.id, hb.2, getElem?_id_of_mem hs.block hb.1⟩

/-- The value is an instruction. -/
def IsInstruction (ir : Ir) (v : ValueId) : Prop := ∃ opcode, ir.opcode? v = some opcode

theorem isCall_iff {v : ValueId} :
    ir.isCall v = true ↔ ∃ callee, ir.opcode? v = some (.call callee) := by
  unfold isCall
  cases ir.opcode? v with
  | none => simp
  | some opcode => cases opcode <;> simp [Opcode.isCall]

theorem isInstruction_of_isCall {v : ValueId} (h : ir.isCall v = true) : ir.IsInstruction v := by
  obtain ⟨callee, ho⟩ := isCall_iff.mp h
  exact ⟨.call callee, ho⟩

/-- What belongs to a function by its block is an instruction. -/
theorem isInstruction_of_ownerOf? {v : ValueId} {f : FunctionId} (h : ir.ownerOf? v = some f) :
    ir.IsInstruction v := by
  obtain ⟨_, hblock, _⟩ := Option.map_eq_some_iff.mp h
  obtain ⟨block, hhome, _⟩ := Option.bind_eq_some_iff.mp hblock
  obtain ⟨value, hvalue, hhome⟩ := Option.bind_eq_some_iff.mp hhome
  unfold Value.block? at hhome
  split at hhome
  · rename_i opcode _ hkind
    exact ⟨opcode, by simp [opcode?, hvalue, Value.opcode?, hkind]⟩
  · cases hhome

section

variable (hs : ir.tables.Sound) (hh : ir.tables.Housed)
include hs hh

/-- Every block is in the body of a function. -/
theorem mem_blocks_iff {b : Block} : b ∈ ir.blocks ↔ ∃ f ∈ ir.defined, b ∈ ir.body f := by
  constructor
  · intro hb
    obtain ⟨f, hf, hlisted⟩ := hh.owner b (mem_blocks.mp hb)
    have hdefined : f.isDeclaration = false := by
      simpa [Function.isDeclaration] using List.ne_nil_of_mem hlisted
    exact ⟨f, mem_defined.mpr ⟨Array.mem_of_getElem? hf, hdefined⟩, (mem_body hs).mpr ⟨hb, hlisted⟩⟩
  · intro hex
    obtain ⟨f, _, hb⟩ := hex
    exact ((mem_body hs).mp hb).1

theorem function_of_mem_body {f : Function} (hf : f ∈ ir.defined) {b : Block}
    (hb : b ∈ ir.body f) : b.function = f.id := by
  obtain ⟨hmem, hlisted⟩ := (mem_body hs).mp hb
  obtain ⟨block, hblock, hfunction⟩ := hh.body f (mem_defined.mp hf).1 b.id hlisted
  rw [getElem?_id_of_mem hs.block (mem_blocks.mp hmem)] at hblock
  cases hblock
  exact hfunction

/-- What a block lists is an instruction of the block. -/
theorem instruction_of_mem {b : Block} (hb : b ∈ ir.blocks) {v : ValueId}
    (hv : v ∈ b.instructions) :
    ir.IsInstruction v ∧ ir.blockOf? v = some b.id ∧ ir.ownerOf? v = some b.function := by
  obtain ⟨value, opcode, hvalue, hkind⟩ := hh.home b (mem_blocks.mp hb) v hv
  have hvalue : ir.value? v = some value := hvalue
  have hblock : ir.block? b.id = some b := getElem?_id_of_mem hs.block (mem_blocks.mp hb)
  have hhome : ir.blockOf? v = some b.id := by simp [blockOf?, hvalue, Value.block?, hkind]
  refine ⟨⟨opcode, by simp [opcode?, hvalue, Value.opcode?, hkind]⟩, hhome, ?_⟩
  simp [ownerOf?, hhome, hblock]

/-- Every instruction is listed by a block. -/
theorem block_of_instruction {v : ValueId} (hv : ir.IsInstruction v) :
    ∃ b ∈ ir.blocks, v ∈ b.instructions := by
  obtain ⟨opcode, ho⟩ := hv
  obtain ⟨value, hvalue, ho⟩ := Option.bind_eq_some_iff.mp ho
  obtain ⟨block, hkind⟩ := opcode_kind ho
  obtain ⟨b, hb, hlisted⟩ :=
    hh.listed value (Array.mem_of_getElem? hvalue) opcode block hkind
  rw [hs.id_of_value? hvalue] at hlisted
  exact ⟨b, mem_blocks.mpr (Array.mem_of_getElem? hb), hlisted⟩

/-- The instructions of all bodies are all instructions. -/
theorem mem_placed {v : ValueId} : v ∈ ir.placed ↔ ir.IsInstruction v := by
  have hblocks : v ∈ ir.placed ↔ ∃ b ∈ ir.blocks, v ∈ b.instructions := by
    simp only [placed, List.mem_flatMap, mem_blocks_iff hs hh]
    constructor
    · intro hex
      obtain ⟨f, hf, b, hb, hv⟩ := hex
      exact ⟨b, ⟨f, hf, hb⟩, hv⟩
    · intro hex
      obtain ⟨b, ⟨f, hf, hb⟩, hv⟩ := hex
      exact ⟨f, hf, b, hb, hv⟩
  rw [hblocks]
  constructor
  · intro hex
    obtain ⟨b, hb, hv⟩ := hex
    exact (instruction_of_mem hs hh hb hv).1
  · exact block_of_instruction hs hh

theorem owner_of_instruction {v : ValueId} (hv : ir.IsInstruction v) :
    ∃ f, ir.ownerOf? v = some f := by
  obtain ⟨b, hb, hv⟩ := block_of_instruction hs hh hv
  exact ⟨b.function, (instruction_of_mem hs hh hb hv).2.2⟩

/-- No two blocks list the same instruction. -/
theorem eq_of_mem_instructions {b b' : Block} (hb : b ∈ ir.blocks) (hb' : b' ∈ ir.blocks)
    {v : ValueId} (hv : v ∈ b.instructions) (hv' : v ∈ b'.instructions) : b = b' := by
  obtain ⟨_, hhome, _⟩ := instruction_of_mem hs hh hb hv
  obtain ⟨_, hhome', _⟩ := instruction_of_mem hs hh hb' hv'
  have hid : b.id = b'.id := Option.some.inj (hhome.symm.trans hhome')
  have hblock := getElem?_id_of_mem hs.block (mem_blocks.mp hb)
  rw [hid, getElem?_id_of_mem hs.block (mem_blocks.mp hb')] at hblock
  exact (Option.some.inj hblock).symm

/-- A body lists each instruction once. -/
theorem nodup_instructions {f : Function} (hf : f ∈ ir.defined) :
    ((ir.body f).flatMap Block.instructions).Nodup := by
  refine List.nodup_flatMap.mpr ⟨?_, ?_⟩
  · intro b hb
    exact hh.instructions b (mem_blocks.mp ((mem_body hs).mp hb).1)
  · refine List.Pairwise.filterMap _ ?_ (hh.blocks f (mem_defined.mp hf).1)
    intro i j hij b hb b' hb' v hv hv'
    have hmem : b ∈ ir.blocks := mem_blocks.mpr (Array.mem_of_getElem? hb)
    have hmem' : b' ∈ ir.blocks := mem_blocks.mpr (Array.mem_of_getElem? hb')
    have heq := eq_of_mem_instructions hs hh hmem hmem' hv hv'
    exact hij ((hs.block i b hb).symm.trans (heq ▸ hs.block j b' hb'))

end

end Ir

end PointerTriage
