import PointerTriage.Proofs.Snapshot.Soundness

namespace PointerTriage

namespace Ir

/-- The value is a parameter of the function or an instruction in its body. -/
def Defines (ir : Ir) (f : Function) (v : ValueId) : Prop :=
  v ∈ f.params ∨ ∃ b ∈ ir.body f, v ∈ b.instructions

def nameOf? (ir : Ir) (v : ValueId) : Option String := (ir.value? v).bind Value.name

/-- What a name stands for in a function: the local value of that name, or the global if the function
has none. -/
inductive Denotes (ir : Ir) (f : Function) (name : String) (v : ValueId) : Prop where
  | inside (hv : ir.Defines f v) (hname : ir.nameOf? v = some name)
  | global (hfree : ∀ w, ir.Defines f w → ir.nameOf? w ≠ some name) (hv : ir.isGlobal v = true)
    (hname : ir.nameOf? v = some name)

end Ir

namespace Snapshot

inductive Operand.RepresentedBy (ir : Ir) (f : PointerTriage.Function) : Operand → ValueId → Prop where
  | int {i : Int} {v : ValueId} (h : ir.value? v = some ⟨v, none, .int 64, .constant (.int i), []⟩) :
      RepresentedBy ir f (.int i) v
  | null {v : ValueId} (h : ir.value? v = some ⟨v, none, .untyped, .constant .nullPointer, []⟩) :
      RepresentedBy ir f .null v
  | name {name : String} {v : ValueId} (h : ir.Denotes f name v) : RepresentedBy ir f (.name name) v

inductive Operation.RepresentedBy (ir : Ir) : Operation → Opcode → Prop where
  | alloca (allocated : Shape) : RepresentedBy ir (.alloca allocated) (.alloca allocated)
  | direct {f : FunctionId} {function : PointerTriage.Function} (hf : ir.function? f = some function)
      (targets : List String) : RepresentedBy ir (.call (some function.name) targets) (.call (some f))
  | indirect (targets : List String) : RepresentedBy ir (.call none targets) (.call none)
  | load : RepresentedBy ir .load .load
  | store : RepresentedBy ir .store .store
  | gep : RepresentedBy ir .gep .getElementPtr
  | icmp : RepresentedBy ir .icmp .icmp
  | fcmp : RepresentedBy ir .fcmp .fcmp
  | cast : RepresentedBy ir .cast .cast
  | phi : RepresentedBy ir .phi .phi
  | binary : RepresentedBy ir .binary .binary
  | ret : RepresentedBy ir .ret .ret
  | br : RepresentedBy ir .br .branch
  | other : RepresentedBy ir .other .other

def Instruction.RepresentedBy (i : Instruction) (ir : Ir) (f : PointerTriage.Function) (b : BlockId)
    (v : ValueId) : Prop :=
  ∃ opcode operands,
    ir.value? v =
      some ⟨v, i.name, i.shape.getD i.operation.shape, .instruction opcode b, operands⟩ ∧
    i.operation.RepresentedBy ir opcode ∧
    List.Forall₂ (Operand.RepresentedBy ir f) i.operands operands

/-- The successors are the blocks of the labels, each where it is named first. -/
def Block.RepresentedBy (b : Block) (source : Function) (ir : Ir) (f : PointerTriage.Function)
    (id : BlockId) : Prop :=
  ∃ block, ir.block? id = some block ∧ block.function = f.id ∧
    List.Forall₂ (fun i v => i.RepresentedBy ir f id v) b.instructions block.instructions ∧
    ∃ targets, block.successors = targets.eraseDups ∧
      List.Forall₂ (fun label target => (label, target) ∈ source.labels.zip f.blocks) b.successors
        targets

structure Function.RepresentedBy (source : Function) (ir : Ir) (f : PointerTriage.Function) :
    Prop where
  name : f.name = source.name
  returns : f.returns = source.returns
  params : List.Forall₂
    (fun (p, k) v => ir.value? v = some ⟨v, some p.name, p.shape, .argument f.id k, []⟩)
    source.params.zipIdx f.params
  blocks : List.Forall₂ (fun b id => b.RepresentedBy source ir f id) source.blocks f.blocks

structure RepresentedBy (s : Snapshot) (ir : Ir) : Prop where
  functions : List.Forall₂ (fun (source, k) f => f.id = k ∧ source.RepresentedBy ir f)
    s.functions.zipIdx ir.functions
  globals : List.Forall₂
    (fun g value => value.name = some g.name ∧ value.shape = .pointerTo g.shape ∧
      value.kind = .global g.shape g.constant)
    s.globals (ir.values.filter (ir.isGlobal ·.id))
  /-- A name stands for one value. -/
  denotes : ∀ f ∈ ir.functions, ∀ name v w, ir.Denotes f name v → ir.Denotes f name w → v = w
  /-- No constant is used twice. -/
  fresh : ((ir.values.flatMap Value.operands).filter ir.isConstant).Nodup
  /-- An instruction is listed once, in its own block. -/
  placed : ∀ v ∈ ir.values, ∀ opcode b, v.kind = .instruction opcode b →
    (ir.blocks.flatMap PointerTriage.Block.instructions).count v.id = 1 ∧
      ∃ block, ir.block? b = some block ∧ block.instructions.count v.id = 1

theorem forall₂_of_operands {s : Snapshot} {f : NumberedFunction} {next : ValueId}
    {ops : List Operand} {vs : List ValueId} {cs : List Constant}
    (h : s.operands f next ops = .ok (vs, cs)) {R : Operand → ValueId → Prop}
    (hint : ∀ i v, (.int i, v) ∈ cs.zipIdx next → R (.int i) v)
    (hnull : ∀ v, (.nullPointer, v) ∈ cs.zipIdx next → R .null v)
    (hname : ∀ name v, s.value f name = .ok v → R (.name name) v) : List.Forall₂ R ops vs := by
  induction ops generalizing next vs cs with
  | nil =>
    cases h
    exact .nil
  | cons op ops ih =>
    cases op with
    | int i =>
      simp only [operands, except_bind_ok_iff] at h
      obtain ⟨⟨vs', cs'⟩, hrest, he⟩ := h
      cases he
      rw [List.zipIdx_cons] at hint hnull
      refine .cons (hint i next List.mem_cons_self) (ih hrest ?_ ?_)
      · exact fun i v hm => hint i v (List.mem_cons_of_mem _ hm)
      · exact fun v hm => hnull v (List.mem_cons_of_mem _ hm)
    | null =>
      simp only [operands, except_bind_ok_iff] at h
      obtain ⟨⟨vs', cs'⟩, hrest, he⟩ := h
      cases he
      rw [List.zipIdx_cons] at hint hnull
      refine .cons (hnull next List.mem_cons_self) (ih hrest ?_ ?_)
      · exact fun i v hm => hint i v (List.mem_cons_of_mem _ hm)
      · exact fun v hm => hnull v (List.mem_cons_of_mem _ hm)
    | name n =>
      simp only [operands, except_bind_ok_iff] at h
      obtain ⟨v, hv, ⟨vs', cs'⟩, hrest, he⟩ := h
      cases he
      exact .cons (hname n v hv) (ih hrest hint hnull)

theorem mem_locals {f : NumberedFunction} {name : String} {v : ValueId} : (name, v) ∈ f.locals ↔
    (∃ p, (p, v) ∈ f.params ∧ p.name = name) ∨
      ∃ b ∈ f.blocks, ∃ i, (i, v) ∈ b.instructions ∧ i.name = some name := by
  simp only [NumberedFunction.locals, NumberedFunction.instructions, List.mem_append, List.mem_map,
    List.mem_filterMap, List.mem_flatMap, Option.map_eq_some_iff, Prod.mk.injEq, Prod.exists]
  refine or_congr ?_ ?_
  · constructor
    · rintro ⟨p, _, hp, rfl, rfl⟩
      exact ⟨p, hp, rfl⟩
    · rintro ⟨p, hp, rfl⟩
      exact ⟨p, v, hp, rfl, rfl⟩
  · constructor
    · rintro ⟨i, _, ⟨b, hb, hi⟩, _, hname, rfl, rfl⟩
      exact ⟨b, hb, i, hi, hname⟩
    · rintro ⟨b, hb, i, hi, hname⟩
      exact ⟨i, v, ⟨b, hb, hi⟩, name, hname, rfl, rfl⟩

theorem mem_locals_of_local? {f : NumberedFunction} {name : String} {v : ValueId}
    (h : f.local? name = some v) : (name, v) ∈ f.locals := by
  obtain ⟨⟨n, _⟩, hfind, rfl⟩ := Option.map_eq_some_iff.mp h
  have hname : n = name := by simpa using List.find?_some hfind
  exact hname ▸ List.mem_of_find?_eq_some hfind

theorem not_mem_locals_of_local? {f : NumberedFunction} {name : String}
    (h : f.local? name = none) (v : ValueId) : (name, v) ∉ f.locals := by
  intro hm
  have hnone := List.find?_eq_none.mp (Option.map_eq_none_iff.mp h) (name, v) hm
  simp at hnone

theorem mem_globals_of_global? {s : Snapshot} {name : String} {v : ValueId}
    (h : s.global? name = some v) : ∃ g, (g, v) ∈ s.globals.zipIdx ∧ g.name = name := by
  obtain ⟨hlt, hname, _⟩ := List.findIdx?_eq_some_iff_getElem.mp h
  refine ⟨s.globals[v], ?_, by simpa using hname⟩
  exact List.mem_zipIdx_iff_getElem?.mpr (List.getElem?_eq_getElem hlt)

/-- A label that links is that of the block it is linked to. -/
theorem mem_labels_of_block {s : Snapshot} {f : NumberedFunction} (hf : f ∈ s.numbered)
    {label : String} {b : BlockId} (h : f.block label = .ok b) :
    (label, b) ∈ f.source.labels.zip (functionEntry f).blocks := by
  have hzip : f.source.labels.zip (functionEntry f).blocks =
      f.blocks.map fun nb => (nb.source.label, nb.id) := by
    rw [Function.labels, ← blocks_of_numbered hf, List.map_map]
    exact List.zip_map' ..
  unfold NumberedFunction.block at h
  split at h
  · rename_i nb hfind
    cases h
    have hlabel : nb.source.label = label := by simpa using List.find?_some hfind
    rw [hzip]
    exact List.mem_map.mpr ⟨nb, List.mem_of_find?_eq_some hfind, by rw [hlabel]⟩
  · cases h

section

variable {s : Snapshot} {code : Linked} {bodies : List (List PointerTriage.Block)} {ir : Ir}
  {host : HostFacts} (h : s.Linking code bodies ir.tables host)
include h

theorem Linking.values_eq :
    ir.values = s.globalValues ++ code.values ++ code.constantValues s.firstConstant :=
  h.values_toList

theorem Linking.value?_of_mem {value : Value} (hv : value ∈ ir.values) :
    ir.value? value.id = some value :=
  getElem?_id_of_mem h.sound.value (Array.mem_toList_iff.mp hv)

theorem Linking.value?_of_code {value : Value} (hv : value ∈ code.values) :
    ir.value? value.id = some value :=
  h.value?_of_mem (by simp [h.values_eq, hv])

theorem Linking.value?_of_constant {c : Constant} {v : ValueId}
    (hc : (c, v) ∈ code.constants.zipIdx s.firstConstant) :
    ir.value? v = some (constantValue c v) := by
  have hm : constantValue c v ∈ ir.values := by
    rw [h.values_eq]
    exact List.mem_append_right _ (List.mem_map.mpr ⟨(c, v), hc, rfl⟩)
  exact h.value?_of_mem hm

theorem Linking.value?_of_global {g : Global} {v : ValueId} (hg : (g, v) ∈ s.globals.zipIdx) :
    ir.value? v = some ⟨v, some g.name, .pointerTo g.shape, .global g.shape g.constant, []⟩ := by
  have hm : ⟨v, some g.name, .pointerTo g.shape, .global g.shape g.constant, []⟩ ∈ ir.values := by
    rw [h.values_eq]
    refine List.mem_append_left _ (List.mem_append_left _ ?_)
    exact List.mem_map.mpr ⟨(g, v), hg, rfl⟩
  exact h.value?_of_mem hm

theorem Linking.operation_represented {operation : Operation} {opcode : Opcode}
    (ho : s.opcode operation = .ok opcode) : operation.RepresentedBy ir opcode := by
  cases operation with
  | call callee targets =>
    rcases call_of_opcode ho with ⟨rfl, rfl⟩ | ⟨name, f, rfl, rfl, hid⟩
    · exact .indirect targets
    · obtain ⟨hlt, hname, _⟩ := List.findIdx?_eq_some_iff_getElem.mp (functionId_ok_iff.mp hid)
      have hnames := h.function_name f
      rw [List.getElem?_eq_getElem hlt] at hnames
      obtain ⟨function, hfunction, he⟩ := Option.map_eq_some_iff.mp hnames
      obtain rfl : function.name = name := he.trans (by simpa using hname)
      exact .direct hfunction targets
  | _ =>
    cases ho
    constructor

section

variable {f : NumberedFunction} (hf : f ∈ s.numbered)
include hf

theorem Linking.value?_of_param {p : Param} {v : ValueId} {k : Nat}
    (hp : ((p, v), k) ∈ f.params.zipIdx) :
    ir.value? v = some ⟨v, some p.name, p.shape, .argument f.id k, []⟩ := by
  obtain ⟨next, one, hone, hsub⟩ := values_of_linkEach h.functions hf
  exact h.value?_of_code
    (hsub (param_of_linkFunction hone (List.mem_zipIdx_iff_getElem?.mp hp)))

/-- An instruction is linked where it stands, with its constants under their numbers. -/
theorem Linking.part_of_instruction {b : NumberedBlock} (hb : b ∈ f.blocks) {i : Instruction}
    {v : ValueId} (hi : (i, v) ∈ b.instructions) :
    ∃ next one, s.linkInstruction f b.id next i v = .ok one ∧ one.values ⊆ code.values ∧
      one.constants.zipIdx next ⊆ code.constants.zipIdx s.firstConstant := by
  obtain ⟨_, inFunction, hfunction, hvalues, hconstants⟩ := part_of_linkEach h.functions hf
  obtain ⟨body, hbody, rfl⟩ := linkFunction_ok hfunction
  obtain ⟨_, inBlock, hblock, hvalues', hconstants'⟩ := part_of_linkEach hbody hb
  obtain ⟨next, one, hone, hvalues'', hconstants''⟩ := part_of_linkEach hblock hi
  refine ⟨next, one, hone, ?_, ?_⟩
  · exact fun _ hv => hvalues (List.mem_append_right _ (hvalues' (hvalues'' hv)))
  · exact fun _ hc => hconstants (hconstants' (hconstants'' hc))

theorem Linking.value?_of_instruction {b : NumberedBlock} (hb : b ∈ f.blocks) {i : Instruction}
    {v : ValueId} (hi : (i, v) ∈ b.instructions) :
    ∃ value, ir.value? v = some value ∧ value.name = i.name := by
  obtain ⟨_, one, hone, hvalues, _⟩ := h.part_of_instruction hf hb hi
  obtain ⟨opcode, vs, _, _, _, _, _, rfl⟩ := linkInstruction_ok hone
  exact ⟨_, h.value?_of_code (hvalues (List.mem_singleton_self _)), rfl⟩

theorem Linking.block?_of_numbered {b : NumberedBlock} (hb : b ∈ f.blocks) :
    ∃ block, ir.block? b.id = some block ∧ linkSuccessors f b = .ok block := by
  obtain ⟨block, hblock, hlink⟩ := h.block_of_numbered hf hb
  refine ⟨block, ?_, hlink⟩
  rw [← (linkSuccessors_ok hlink).1]
  exact getElem?_id_of_mem h.sound.block hblock

theorem Linking.defines_iff {v : ValueId} : ir.Defines (functionEntry f) v ↔
    (∃ p, (p, v) ∈ f.params) ∨ ∃ b ∈ f.blocks, ∃ i, (i, v) ∈ b.instructions := by
  have hparams : v ∈ (functionEntry f).params ↔ ∃ p, (p, v) ∈ f.params := by simp [functionEntry]
  rw [Ir.Defines, hparams]
  refine or_congr_right ⟨?_, ?_⟩
  · rintro ⟨block, hblock, hv⟩
    obtain ⟨hmem, hlisted⟩ := (Ir.mem_body h.sound).mp hblock
    obtain ⟨b, hb, hid⟩ := List.mem_map.mp hlisted
    obtain ⟨block', hblock', hlink⟩ := h.block?_of_numbered hf hb
    have hsame : ir.block? b.id = some block :=
      hid ▸ getElem?_id_of_mem h.sound.block (Ir.mem_blocks.mp hmem)
    rw [hsame] at hblock'
    cases hblock'
    rw [(linkSuccessors_ok hlink).2.2] at hv
    obtain ⟨⟨i, _⟩, hi, rfl⟩ := List.mem_map.mp hv
    exact ⟨b, hb, i, hi⟩
  · rintro ⟨b, hb, i, hi⟩
    obtain ⟨block, hblock, hlink⟩ := h.block?_of_numbered hf hb
    obtain ⟨hid, _, hinstructions⟩ := linkSuccessors_ok hlink
    refine ⟨block, (Ir.mem_body h.sound).mpr ⟨?_, ?_⟩, ?_⟩
    · exact Ir.mem_blocks.mpr (Array.mem_of_getElem? hblock)
    · rw [hid]
      exact List.mem_map.mpr ⟨b, hb, rfl⟩
    · rw [hinstructions]
      exact List.mem_map.mpr ⟨(i, v), hi, rfl⟩

/-- The values that a function defines are its locals, under the names they are given. -/
theorem Linking.mem_locals_iff {name : String} {v : ValueId} :
    (name, v) ∈ f.locals ↔ ir.Defines (functionEntry f) v ∧ ir.nameOf? v = some name := by
  have hparam : ∀ p, (p, v) ∈ f.params → ir.nameOf? v = some p.name := by
    intro p hp
    obtain ⟨k, hk⟩ := List.mem_iff_getElem?.mp hp
    rw [Ir.nameOf?, h.value?_of_param hf (List.mem_zipIdx_iff_getElem?.mpr hk)]
    rfl
  have hinstruction : ∀ b ∈ f.blocks, ∀ i, (i, v) ∈ b.instructions → ir.nameOf? v = i.name := by
    intro b hb i hi
    obtain ⟨value, hvalue, hname⟩ := h.value?_of_instruction hf hb hi
    rw [Ir.nameOf?, hvalue]
    exact hname
  rw [h.defines_iff hf, mem_locals]
  constructor
  · rintro (⟨p, hp, rfl⟩ | ⟨b, hb, i, hi, hname⟩)
    · exact ⟨.inl ⟨p, hp⟩, hparam p hp⟩
    · exact ⟨.inr ⟨b, hb, i, hi⟩, (hinstruction b hb i hi).trans hname⟩
  · rintro ⟨⟨p, hp⟩ | ⟨b, hb, i, hi⟩, hname⟩
    · rw [hparam p hp] at hname
      exact .inl ⟨p, hp, Option.some.inj hname⟩
    · exact .inr ⟨b, hb, i, hi, (hinstruction b hb i hi).symm.trans hname⟩

/-- A name that links stands for the value it is linked to. -/
theorem Linking.denotes_of_value {name : String} {v : ValueId} (hv : s.value f name = .ok v) :
    ir.Denotes (functionEntry f) name v := by
  unfold value at hv
  split at hv
  · rename_i w hw
    cases hv
    rcases Option.or_eq_some_iff.mp hw with hlocal | ⟨hnone, hglobal⟩
    · obtain ⟨hdefines, hname⟩ := (h.mem_locals_iff hf).mp (mem_locals_of_local? hlocal)
      exact .inside hdefines hname
    · obtain ⟨g, hg, rfl⟩ := mem_globals_of_global? hglobal
      have hvalue := h.value?_of_global hg
      refine .global ?_ (by simp [Ir.isGlobal, hvalue]) (by simp [Ir.nameOf?, hvalue])
      intro w hdefines hname
      exact not_mem_locals_of_local? hnone w ((h.mem_locals_iff hf).mpr ⟨hdefines, hname⟩)
  · cases hv

theorem Linking.instruction_represented {b : NumberedBlock} (hb : b ∈ f.blocks) {i : Instruction}
    {v : ValueId} (hi : (i, v) ∈ b.instructions) :
    i.RepresentedBy ir (functionEntry f) b.id v := by
  obtain ⟨next, one, hone, hvalues, hconstants⟩ := h.part_of_instruction hf hb hi
  obtain ⟨opcode, vs, cs, _, hopcode, hoperands, _, rfl⟩ := linkInstruction_ok hone
  refine ⟨opcode, vs, h.value?_of_code (hvalues (List.mem_singleton_self _)),
    h.operation_represented hopcode, ?_⟩
  refine forall₂_of_operands hoperands ?_ ?_ ?_
  · exact fun i v hc => .int (h.value?_of_constant (hconstants hc))
  · exact fun v hc => .null (h.value?_of_constant (hconstants hc))
  · exact fun name v hv => .name (h.denotes_of_value hf hv)

theorem Linking.block_represented {b : NumberedBlock} (hb : b ∈ f.blocks) :
    b.source.RepresentedBy f.source ir (functionEntry f) b.id := by
  obtain ⟨block, hblock, hlink⟩ := h.block?_of_numbered hf hb
  simp only [linkSuccessors, except_bind_ok_iff] at hlink
  obtain ⟨targets, htargets, he⟩ := hlink
  cases he
  refine ⟨_, hblock, rfl, ?_, targets, rfl, ?_⟩
  · rw [← Snapshot.block_of_numbered hf hb, List.forall₂_map_left_iff, List.forall₂_map_right_iff,
      List.forall₂_same]
    rintro ⟨i, v⟩ hi
    exact h.instruction_represented hf hb hi
  · refine (except_mapM_ok_iff.mp htargets).imp ?_
    intro label target htarget
    exact mem_labels_of_block hf htarget

theorem Linking.function_represented : f.source.RepresentedBy ir (functionEntry f) where
  name := rfl
  returns := rfl
  params := by
    have hsources : f.source.params.zipIdx = f.params.zipIdx.map fun q => (q.1.1, q.2) := by
      rw [← params_of_numbered hf, List.zipIdx_map]
      rfl
    have hids : (functionEntry f).params = f.params.zipIdx.map fun q => q.1.2 := by
      change f.params.map Prod.snd = _
      conv_lhs => rw [← List.zipIdx_map_fst 0 f.params, List.map_map]
      rfl
    rw [hsources, hids, List.forall₂_map_left_iff, List.forall₂_map_right_iff, List.forall₂_same]
    rintro ⟨⟨p, v⟩, k⟩ hp
    exact h.value?_of_param hf hp
  blocks := by
    change List.Forall₂ _ _ (f.blocks.map NumberedBlock.id)
    rw [← blocks_of_numbered hf, List.forall₂_map_left_iff, List.forall₂_map_right_iff,
      List.forall₂_same]
    exact fun b hb => h.block_represented hf hb

end

theorem Linking.functions_eq : ir.functions = s.numbered.map functionEntry := by
  rw [Ir.functions, h.functionTable]

/-- What a function is linked to is no global and no constant. -/
theorem Linking.kind_of_code {value : Value} (hv : value ∈ code.values) :
    (∃ f i, value.kind = .argument f i) ∨ ∃ opcode b, value.kind = .instruction opcode b := by
  obtain ⟨f, _, _, one, _, hone, hv⟩ := origin_of_linkEach h.functions hv
  rcases origin_of_linkFunction hone hv with ⟨i, _, _, hkind⟩ | ⟨b, _, _, opcode, hkind⟩
  · exact .inl ⟨f.id, i, hkind⟩
  · exact .inr ⟨opcode, b.id, hkind⟩

theorem Linking.globals_eq : ir.values.filter (ir.isGlobal ·.id) = s.globalValues := by
  have hkind : ∀ value ∈ ir.values, ir.isGlobal value.id = true ↔
      ∃ shape constant, value.kind = .global shape constant := by
    intro value hv
    rw [Ir.isGlobal, h.value?_of_mem hv]
    cases hk : value.kind <;> simp [hk]
  have hglobals : s.globalValues.filter (ir.isGlobal ·.id) = s.globalValues := by
    refine List.filter_eq_self.mpr fun value hv => (hkind value (by simp [h.values_eq, hv])).mpr ?_
    obtain ⟨⟨g, _⟩, _, rfl⟩ := List.mem_map.mp hv
    exact ⟨g.shape, g.constant, rfl⟩
  have hcode : code.values.filter (ir.isGlobal ·.id) = [] := by
    refine List.filter_eq_nil_iff.mpr fun value hv hglobal => ?_
    obtain ⟨_, _, hk⟩ := (hkind value (by simp [h.values_eq, hv])).mp hglobal
    rcases h.kind_of_code hv with ⟨_, _, hk'⟩ | ⟨_, _, hk'⟩ <;> cases hk.symm.trans hk'
  have hconstants : (code.constantValues s.firstConstant).filter (ir.isGlobal ·.id) = [] := by
    refine List.filter_eq_nil_iff.mpr fun value hv hglobal => ?_
    obtain ⟨⟨c, v⟩, hc, rfl⟩ := List.mem_map.mp hv
    have hvalue : ir.value? (constantValue c v).id = _ := h.value?_of_constant hc
    rw [Ir.isGlobal, hvalue] at hglobal
    cases hglobal
  rw [h.values_eq, List.filter_append, List.filter_append, hglobals, hcode, hconstants,
    List.append_nil, List.append_nil]

theorem Linking.global_of_isGlobal {v : ValueId} (hv : ir.isGlobal v = true) :
    ∃ g, (g, v) ∈ s.globals.zipIdx := by
  unfold Ir.isGlobal at hv
  cases hvalue : ir.value? v with
  | none => simp [hvalue] at hv
  | some value =>
    have hid : value.id = v := h.sound.value v value hvalue
    have hm : value ∈ ir.values := Array.mem_toList_iff.mpr (Array.mem_of_getElem? hvalue)
    have hglobal : value ∈ ir.values.filter (ir.isGlobal ·.id) :=
      List.mem_filter.mpr ⟨hm, by simpa only [hid, Ir.isGlobal] using hv⟩
    rw [h.globals_eq] at hglobal
    obtain ⟨⟨g, w⟩, hg, rfl⟩ := List.mem_map.mp hglobal
    cases hid
    exact ⟨g, hg⟩

/-- With distinct names, a name stands for one value. -/
theorem Linking.denotes_unique (hn : s.WellNamed) {f : NumberedFunction} (hf : f ∈ s.numbered)
    {name : String} {v w : ValueId} (hv : ir.Denotes (functionEntry f) name v)
    (hw : ir.Denotes (functionEntry f) name w) : v = w := by
  cases hv with
  | inside hdefines hname =>
    cases hw with
    | inside hdefines' hname' =>
      have hdistinct : (f.locals.map Prod.fst).Nodup := by
        rw [locals_of_numbered hf]
        exact (forall_numbered_iff.mpr hn.body f hf).locals
      have hpair := List.inj_on_of_nodup_map hdistinct
        ((h.mem_locals_iff hf).mpr ⟨hdefines, hname⟩)
        ((h.mem_locals_iff hf).mpr ⟨hdefines', hname'⟩) rfl
      exact congrArg Prod.snd hpair
    | global hfree _ _ => exact absurd hname (hfree v hdefines)
  | global hfree hglobal hname =>
    cases hw with
    | inside hdefines' hname' => exact absurd hname' (hfree w hdefines')
    | global _ hglobal' hname' =>
      have hdistinct : (s.globals.zipIdx.map fun q => q.1.name).Nodup := by
        have hnames : (s.globals.zipIdx.map fun q => q.1.name) = s.globalNames := by
          rw [globalNames]
          conv_rhs => rw [← List.zipIdx_map_fst 0 s.globals, List.map_map]
          rfl
        rw [hnames]
        exact hn.globals
      obtain ⟨g, hg⟩ := h.global_of_isGlobal hglobal
      obtain ⟨g', hg'⟩ := h.global_of_isGlobal hglobal'
      rw [Ir.nameOf?, h.value?_of_global hg] at hname
      rw [Ir.nameOf?, h.value?_of_global hg'] at hname'
      have hsame : g.name = g'.name := Option.some.inj (hname.trans hname'.symm)
      exact congrArg Prod.snd (List.inj_on_of_nodup_map hdistinct hg hg' hsame)

theorem Linking.firstConstant_le {v : ValueId} (hv : ir.isConstant v = true) :
    s.firstConstant ≤ v := by
  obtain ⟨c, hc⟩ := Option.isSome_iff_exists.mp hv
  obtain ⟨value, hvalue, hc⟩ := Option.bind_eq_some_iff.mp hc
  have hid : value.id = v := h.sound.value v value hvalue
  have hm : value ∈ ir.values := Array.mem_toList_iff.mpr (Array.mem_of_getElem? hvalue)
  rw [h.values_eq] at hm
  rcases List.mem_append.mp hm with hm | hm
  · rcases List.mem_append.mp hm with hm | hm
    · obtain ⟨_, _, rfl⟩ := List.mem_map.mp hm
      cases hc
    · rcases h.kind_of_code hm with ⟨_, _, hk⟩ | ⟨_, _, hk⟩ <;> simp [Value.constant?, hk] at hc
  · obtain ⟨⟨c, u⟩, hu, rfl⟩ := List.mem_map.mp hm
    cases hid
    exact (List.mem_zipIdx hu).1

/-- Each constant is used once. -/
theorem Linking.fresh : ((ir.values.flatMap Value.operands).filter ir.isConstant).Nodup := by
  have hglobals : s.globalValues.flatMap Value.operands = [] := by
    refine List.flatMap_eq_nil_iff.mpr fun value hv => ?_
    obtain ⟨_, _, rfl⟩ := List.mem_map.mp hv
    rfl
  have hconstants : (code.constantValues s.firstConstant).flatMap Value.operands = [] := by
    refine List.flatMap_eq_nil_iff.mpr fun value hv => ?_
    obtain ⟨_, _, rfl⟩ := List.mem_map.mp hv
    rfl
  have hnodup : (code.operandsFrom s.firstConstant).Nodup := by
    rw [h.operandsFrom_firstConstant]
    exact List.nodup_range'
  rw [h.values_eq, List.flatMap_append, List.flatMap_append, hglobals, hconstants, List.nil_append,
    List.append_nil]
  refine hnodup.sublist (List.monotone_filter_right _ ?_)
  intro v hv
  exact decide_eq_true (h.firstConstant_le hv)

theorem Linking.placed (hh : ir.tables.Housed) {v : Value} (hv : v ∈ ir.values) {opcode : Opcode}
    {b : BlockId} (hk : v.kind = .instruction opcode b) :
    (ir.blocks.flatMap PointerTriage.Block.instructions).count v.id = 1 ∧
      ∃ block, ir.block? b = some block ∧ block.instructions.count v.id = 1 := by
  obtain ⟨block, hblock, hlisted⟩ := hh.listed v (Array.mem_toList_iff.mp hv) opcode b hk
  have hm : block ∈ ir.tables.blocks := Array.mem_of_getElem? hblock
  have hdistinct : (ir.blocks.map PointerTriage.Block.id).Nodup := by
    rw [Ir.blocks, h.ids_blocks]
    exact List.nodup_range
  have hnodup : (ir.blocks.flatMap PointerTriage.Block.instructions).Nodup := by
    refine List.nodup_flatMap.mpr ⟨fun b hb => hh.instructions b (Ir.mem_blocks.mp hb), ?_⟩
    refine (List.pairwise_map.mp hdistinct).imp_of_mem ?_
    intro b b' hb hb' hne w hw hw'
    exact hne (congrArg _ (Ir.eq_of_mem_instructions h.sound hh hb hb' hw hw'))
  refine ⟨List.count_eq_one_of_mem hnodup ?_, block, hblock,
    List.count_eq_one_of_mem (hh.instructions block hm) hlisted⟩
  exact List.mem_flatMap.mpr ⟨block, Ir.mem_blocks.mpr hm, hlisted⟩

end

theorem numbered_sources (s : Snapshot) :
    s.functions.zipIdx = s.numbered.map fun f => (f.source, f.id) := by
  have hall : ∀ (fs : List Function) (function block value : Nat), fs.zipIdx function =
      (numberFunctions function block value fs).map fun f => (f.source, f.id) := by
    intro fs
    induction fs with
    | nil => exact fun _ _ _ => rfl
    | cons f fs ih =>
      intro function block value
      rw [List.zipIdx_cons, numberFunctions, List.map_cons, ← ih]
  exact hall s.functions 0 0 s.globals.length

/-- A program says what its snapshot says. -/
theorem representedBy_of_build {s : Snapshot} {b : Built} (h : s.build = .ok b) :
    s.RepresentedBy b.program.ir := by
  obtain ⟨t, host, hl, rfl, _, _, hh⟩ := layout_of_build h
  obtain ⟨code, bodies, hlink⟩ := link_ok_iff.mp hl
  constructor
  case functions =>
    rw [numbered_sources, hlink.functions_eq, List.forall₂_map_left_iff,
      List.forall₂_map_right_iff, List.forall₂_same]
    exact fun f hf => ⟨rfl, hlink.function_represented hf⟩
  case globals =>
    have hpairs : List.Forall₂
        (fun (g : Global) (value : Value) => value.name = some g.name ∧
          value.shape = .pointerTo g.shape ∧ value.kind = .global g.shape g.constant)
        (s.globals.zipIdx.map Prod.fst) s.globalValues := by
      rw [globalValues, List.forall₂_map_left_iff, List.forall₂_map_right_iff, List.forall₂_same]
      exact fun _ _ => ⟨rfl, rfl, rfl⟩
    rwa [List.zipIdx_map_fst, ← hlink.globals_eq] at hpairs
  case denotes =>
    intro f hf name v w hv hw
    rw [hlink.functions_eq] at hf
    obtain ⟨nf, hnf, rfl⟩ := List.mem_map.mp hf
    exact hlink.denotes_unique (exists_link_iff.mp ⟨_, hl⟩) hnf hv hw
  case fresh => exact hlink.fresh
  case placed => exact fun v hv opcode b hk => hlink.placed hh hv hk

end Snapshot

/-- `fill` stores the same number twice, to its parameter and to a global. The parameter has the name of
another global, and one of the values of the loop is used before it is defined. -/
def shadowing : Snapshot where
  globals := [⟨"x", .int 64, false⟩, ⟨"y", .int 64, true⟩]
  functions := [
    ⟨"fill", .void, [⟨"x", .untyped⟩], [
      ⟨"entry", [
        ⟨none, .store, none, [.int 7, .name "x"]⟩,
        ⟨none, .store, none, [.int 7, .name "y"]⟩,
        ⟨none, .br, none, []⟩], ["loop", "loop"]⟩,
      ⟨"loop", [
        ⟨some "p", .phi, some .untyped, [.null, .name "q"]⟩,
        ⟨some "q", .gep, none, [.name "p", .int 1]⟩,
        ⟨none, .call (some "start") [], none, []⟩,
        ⟨none, .br, none, []⟩], ["loop", "entry", "loop"]⟩]⟩,
    ⟨"start", .void, [], [⟨"entry", [
      ⟨none, .call (some "fill") [], none, [.name "x"]⟩,
      ⟨none, .ret, none, []⟩], []⟩]⟩]
  loops := []
  pointsTo := []
  flows := []
  allocators := none

/-- Constants are numbered from 12 on. In `fill`, `x` is the parameter 2, in `start` the global 0. -/
theorem Snapshot.representedBy_shadowing : ∃ b, shadowing.build = .ok b ∧
    shadowing.RepresentedBy b.program.ir ∧ b.program.ir.values.map Value.operands =
      [[], [], [], [12, 2], [13, 1], [], [14, 7], [6, 15], [], [], [0], [], [], [], [], []] := by
  have hvalues : (shadowing.build.toOption.map fun b => b.program.ir.values.map Value.operands) =
      some [[], [], [], [12, 2], [13, 1], [], [14, 7], [6, 15], [], [], [0], [], [], [], [], []] := by
    decide +kernel
  obtain ⟨b, hb, hoperands⟩ := exists_ok_of_map hvalues
  exact ⟨b, hb, representedBy_of_build hb, hoperands⟩

end PointerTriage
