import PointerTriage.Proofs.Ir.Layout
import PointerTriage.Proofs.Snapshot.Facts

namespace PointerTriage

namespace Snapshot

theorem ids_numberBlocks (block value : Nat) (bs : List Block) :
    (numberBlocks block value bs).map NumberedBlock.id = List.range' block bs.length := by
  induction bs generalizing block value with
  | nil => rfl
  | cons b bs ih => rw [numberBlocks, List.map_cons, ih, List.length_cons, List.range'_succ]

theorem instructions_numberBlocks {block value : Nat} {bs : List Block} {b : NumberedBlock}
    (hb : b ∈ numberBlocks block value bs) : (b.instructions.map Prod.snd).Nodup := by
  induction bs generalizing block value with
  | nil => cases hb
  | cons b' bs ih =>
    rcases List.mem_cons.mp hb with rfl | hb
    · rw [List.zipIdx_map_snd]
      exact List.nodup_range'
    · exact ih hb

theorem linkSuccessors_ok {f : NumberedFunction} {b : NumberedBlock} {block : PointerTriage.Block}
    (h : linkSuccessors f b = .ok block) :
    block.id = b.id ∧ block.function = f.id ∧ block.instructions = b.instructions.map Prod.snd := by
  simp only [linkSuccessors, except_bind_ok_iff] at h
  obtain ⟨_, _, he⟩ := h
  cases he
  exact ⟨rfl, rfl, rfl⟩

theorem values_of_linkInstruction {s : Snapshot} {f : NumberedFunction} {block next id : Nat}
    {i : Instruction} {one : Linked} (h : s.linkInstruction f block next i id = .ok one) :
    ∃ value opcode, one.values = [value] ∧ value.id = id ∧
      value.kind = .instruction opcode block := by
  obtain ⟨opcode, _, _, _, _, _, _, rfl⟩ := linkInstruction_ok h
  exact ⟨_, opcode, rfl, rfl, rfl⟩

/-- A value that a function is linked to is one of its parameters or in one of its blocks. -/
theorem origin_of_linkFunction {s : Snapshot} {f : NumberedFunction} {next : ValueId} {one : Linked}
    (h : s.linkFunction next f = .ok one) {value : Value} (hv : value ∈ one.values) :
    (∃ i p, f.params[i]? = some (p, value.id) ∧ value.kind = .argument f.id i) ∨
      ∃ b ∈ f.blocks, value.id ∈ b.instructions.map Prod.snd ∧
        ∃ opcode, value.kind = .instruction opcode b.id := by
  obtain ⟨body, hbody, rfl⟩ := linkFunction_ok h
  rcases List.mem_append.mp hv with hv | hv
  · obtain ⟨⟨⟨p, v⟩, i⟩, hp, rfl⟩ := List.mem_map.mp hv
    exact .inl ⟨i, p, List.mem_zipIdx_iff_getElem?.mp hp, rfl⟩
  · obtain ⟨b, hb, _, inBlock, _, hblock, hv⟩ := origin_of_linkEach hbody hv
    obtain ⟨⟨i, id⟩, hi, _, one', _, hone, hv⟩ := origin_of_linkEach hblock hv
    obtain ⟨value', opcode, hvalues, hid, hkind⟩ := values_of_linkInstruction hone
    rw [hvalues] at hv
    rw [List.mem_singleton.mp hv]
    exact .inr ⟨b, hb, List.mem_map.mpr ⟨(i, id), hi, hid.symm⟩, opcode, hkind⟩

/-- An instruction of a function is linked to a value in its block. -/
theorem value_of_linkFunction {s : Snapshot} {f : NumberedFunction} {next : ValueId} {one : Linked}
    (h : s.linkFunction next f = .ok one) {b : NumberedBlock} (hb : b ∈ f.blocks) {v : ValueId}
    (hv : v ∈ b.instructions.map Prod.snd) :
    ∃ value ∈ one.values, value.id = v ∧ ∃ opcode, value.kind = .instruction opcode b.id := by
  obtain ⟨body, hbody, rfl⟩ := linkFunction_ok h
  obtain ⟨⟨i, id⟩, hi, rfl⟩ := List.mem_map.mp hv
  obtain ⟨_, inBlock, hblock, hbodySub⟩ := values_of_linkEach hbody hb
  obtain ⟨_, one, hone, hblockSub⟩ := values_of_linkEach hblock hi
  obtain ⟨value, opcode, hvalues, hid, hkind⟩ := values_of_linkInstruction hone
  refine ⟨value, List.mem_append_right _ (hbodySub (hblockSub ?_)), hid, opcode, hkind⟩
  rw [hvalues]
  exact List.mem_singleton_self value

section

variable {s : Snapshot} {code : Linked} {bodies : List (List PointerTriage.Block)} {t : Tables}
  {host : HostFacts} (h : s.Linking code bodies t host)
include h

theorem Linking.function_origin {f : PointerTriage.Function} (hf : f ∈ t.functions) :
    ∃ nf ∈ s.numbered, functionEntry nf = f := by
  simpa [h.functionTable] using hf

theorem Linking.functionEntry_mem {nf : NumberedFunction} (hnf : nf ∈ s.numbered) :
    functionEntry nf ∈ t.functions := by
  simpa [h.functionTable] using ⟨nf, hnf, rfl⟩

theorem Linking.block_origin {b : PointerTriage.Block} (hb : b ∈ t.blocks) :
    ∃ nf ∈ s.numbered, ∃ nb ∈ nf.blocks, linkSuccessors nf nb = .ok b := by
  have hm : b ∈ bodies.flatten := by simpa only [h.blockTable, List.mem_toArray] using hb
  obtain ⟨body, hbody, hb⟩ := List.mem_flatten.mp hm
  obtain ⟨nf, hnf, hlinks⟩ := origin_of_mapM h.successors hbody
  obtain ⟨nb, hnb, hlink⟩ := origin_of_mapM hlinks hb
  exact ⟨nf, hnf, nb, hnb, hlink⟩

theorem Linking.block_of_numbered {nf : NumberedFunction} (hnf : nf ∈ s.numbered)
    {nb : NumberedBlock} (hnb : nb ∈ nf.blocks) : ∃ b ∈ t.blocks, linkSuccessors nf nb = .ok b := by
  obtain ⟨body, hbody, hlinks⟩ := image_of_mapM h.successors hnf
  obtain ⟨b, hb, hlink⟩ := image_of_mapM hlinks hnb
  refine ⟨b, ?_, hlink⟩
  simpa only [h.blockTable, List.mem_toArray] using List.mem_flatten.mpr ⟨body, hbody, hb⟩

/-- A value of the tables is a global, a constant, or what a function is linked to. -/
theorem Linking.value_origin {value : Value} (hv : value ∈ t.values) :
    (∃ shape constant, value.kind = .global shape constant) ∨ (∃ c, value.kind = .constant c) ∨
      ∃ nf ∈ s.numbered, ∃ next one, s.linkFunction next nf = .ok one ∧ value ∈ one.values := by
  rcases h.mem_values_iff.mp hv with hv | hv | hv
  · obtain ⟨_, _, rfl⟩ := List.mem_map.mp hv
    exact .inl ⟨_, _, rfl⟩
  · obtain ⟨nf, hnf, next, one, _, hone, hv⟩ := origin_of_linkEach h.functions hv
    exact .inr (.inr ⟨nf, hnf, next, one, hone, hv⟩)
  · obtain ⟨_, _, rfl⟩ := List.mem_map.mp hv
    exact .inr (.inl ⟨_, rfl⟩)

theorem Linking.instruction_origin {value : Value} (hv : value ∈ t.values) {opcode : Opcode}
    {b : BlockId} (hk : value.kind = .instruction opcode b) :
    ∃ nf ∈ s.numbered, ∃ nb ∈ nf.blocks, nb.id = b ∧ value.id ∈ nb.instructions.map Prod.snd := by
  rcases h.value_origin hv with ⟨_, _, hglobal⟩ | ⟨_, hconstant⟩ | ⟨nf, hnf, _, one, hone, hv⟩
  · cases hk.symm.trans hglobal
  · cases hk.symm.trans hconstant
  · rcases origin_of_linkFunction hone hv with ⟨_, _, _, hparam⟩ | ⟨nb, hnb, hin, _, hkind⟩
    · cases hk.symm.trans hparam
    · cases hk.symm.trans hkind
      exact ⟨nf, hnf, nb, hnb, rfl, hin⟩

theorem Linking.argument_origin {value : Value} (hv : value ∈ t.values) {f : FunctionId} {i : Nat}
    (hk : value.kind = .argument f i) :
    ∃ nf ∈ s.numbered, nf.id = f ∧ ∃ p, nf.params[i]? = some (p, value.id) := by
  rcases h.value_origin hv with ⟨_, _, hglobal⟩ | ⟨_, hconstant⟩ | ⟨nf, hnf, _, one, hone, hv⟩
  · cases hk.symm.trans hglobal
  · cases hk.symm.trans hconstant
  · rcases origin_of_linkFunction hone hv with ⟨_, p, hp, hparam⟩ | ⟨_, _, _, _, hkind⟩
    · cases hk.symm.trans hparam
      exact ⟨nf, hnf, rfl, p, hp⟩
    · cases hk.symm.trans hkind

variable (hs : t.Sound)
include hs

theorem Linking.home {b : PointerTriage.Block} (hb : b ∈ t.blocks) {v : ValueId}
    (hv : v ∈ b.instructions) :
    ∃ value opcode, t.values[v]? = some value ∧ value.kind = .instruction opcode b.id := by
  obtain ⟨nf, hnf, nb, hnb, hlink⟩ := h.block_origin hb
  obtain ⟨hid, _, hinstructions⟩ := linkSuccessors_ok hlink
  obtain ⟨next, one, hone, hsub⟩ := values_of_linkEach h.functions hnf
  rw [hinstructions] at hv
  obtain ⟨value, hvalue, rfl, opcode, hkind⟩ := value_of_linkFunction hone hnb hv
  have hm : value ∈ t.values := by simp [h.valueTable, hsub hvalue]
  exact ⟨value, opcode, getElem?_id_of_mem hs.value hm, hid ▸ hkind⟩

theorem Linking.listed {value : Value} (hv : value ∈ t.values) {opcode : Opcode} {b : BlockId}
    (hk : value.kind = .instruction opcode b) :
    ∃ block, t.blocks[b]? = some block ∧ value.id ∈ block.instructions := by
  obtain ⟨nf, hnf, nb, hnb, rfl, hin⟩ := h.instruction_origin hv hk
  obtain ⟨block, hblock, hlink⟩ := h.block_of_numbered hnf hnb
  obtain ⟨hid, _, hinstructions⟩ := linkSuccessors_ok hlink
  refine ⟨block, hid ▸ getElem?_id_of_mem hs.block hblock, ?_⟩
  rwa [hinstructions]

omit hs in
theorem Linking.instructions_nodup {b : PointerTriage.Block} (hb : b ∈ t.blocks) :
    b.instructions.Nodup := by
  obtain ⟨nf, hnf, nb, hnb, hlink⟩ := h.block_origin hb
  obtain ⟨_, _, hinstructions⟩ := linkSuccessors_ok hlink
  obtain ⟨_, _, _, hblocks⟩ := parts_numberFunctions hnf
  rw [hblocks] at hnb
  rw [hinstructions]
  exact instructions_numberBlocks hnb

theorem Linking.owner {b : PointerTriage.Block} (hb : b ∈ t.blocks) :
    ∃ f, t.functions[b.function]? = some f ∧ b.id ∈ f.blocks := by
  obtain ⟨nf, hnf, nb, hnb, hlink⟩ := h.block_origin hb
  obtain ⟨hid, hfunction, _⟩ := linkSuccessors_ok hlink
  refine ⟨functionEntry nf, ?_, ?_⟩
  · rw [hfunction]
    exact getElem?_id_of_mem hs.function (h.functionEntry_mem hnf)
  · rw [hid]
    exact List.mem_map.mpr ⟨nb, hnb, rfl⟩

theorem Linking.body {f : PointerTriage.Function} (hf : f ∈ t.functions) {b : BlockId}
    (hb : b ∈ f.blocks) : ∃ block, t.blocks[b]? = some block ∧ block.function = f.id := by
  obtain ⟨nf, hnf, rfl⟩ := h.function_origin hf
  obtain ⟨nb, hnb, rfl⟩ := List.mem_map.mp hb
  obtain ⟨block, hblock, hlink⟩ := h.block_of_numbered hnf hnb
  obtain ⟨hid, hfunction, _⟩ := linkSuccessors_ok hlink
  exact ⟨block, hid ▸ getElem?_id_of_mem hs.block hblock, hfunction⟩

omit hs in
theorem Linking.blocks_nodup {f : PointerTriage.Function} (hf : f ∈ t.functions) :
    f.blocks.Nodup := by
  obtain ⟨nf, hnf, rfl⟩ := h.function_origin hf
  obtain ⟨_, _, _, hblocks⟩ := parts_numberFunctions hnf
  change (nf.blocks.map NumberedBlock.id).Nodup
  rw [hblocks, ids_numberBlocks]
  exact List.nodup_range'

theorem Linking.argument {value : Value} (hv : value ∈ t.values) {f : FunctionId} {i : Nat}
    (hk : value.kind = .argument f i) :
    ∃ function, t.functions[f]? = some function ∧ function.params[i]? = some value.id := by
  obtain ⟨nf, hnf, rfl, p, hp⟩ := h.argument_origin hv hk
  refine ⟨functionEntry nf, getElem?_id_of_mem hs.function (h.functionEntry_mem hnf), ?_⟩
  simp [functionEntry, hp]

end

/-- The tables of a snapshot list everything where it belongs. -/
theorem housed_of_link {s : Snapshot} {t : Tables} {host : HostFacts} (h : s.link = .ok (t, host))
    (hs : t.Sound) : t.Housed := by
  obtain ⟨code, bodies, hlink⟩ := link_ok_iff.mp h
  constructor
  case home => exact fun b hb v hv => hlink.home hs hb hv
  case listed => exact fun value hv opcode b hk => hlink.listed hs hv hk
  case instructions => exact fun b hb => hlink.instructions_nodup hb
  case owner => exact fun b hb => hlink.owner hs hb
  case body => exact fun f hf b hb => hlink.body hs hf hb
  case blocks => exact fun f hf => hlink.blocks_nodup hf
  case argument => exact fun value hv f i hk => hlink.argument hs hv hk
  case param =>
    intro f hf i p hp
    obtain ⟨value, hv, rfl, hk⟩ := value_of_param h hf hp
    exact ⟨value, getElem?_id_of_mem hs.value hv, hk⟩

/-- A program from a snapshot is made of sound tables that list everything where it belongs. -/
theorem layout_of_build {s : Snapshot} {b : Built} (h : s.build = .ok b) :
    ∃ t host, s.link = .ok (t, host) ∧ b.program.ir.tables = t ∧ b.Parts t host ∧
      b.program.ir.tables.Sound ∧ b.program.ir.tables.Housed := by
  obtain ⟨t, host, hl, hb⟩ := build_ok_iff.mp h
  have hparts := Built.ofTables_ok_iff.mp hb
  obtain ⟨ht, hs⟩ := Ir.ofTables_ok hparts.ir
  exact ⟨t, host, hl, ht, hparts, hparts.sound, ht ▸ housed_of_link hl hs⟩

end Snapshot

end PointerTriage
