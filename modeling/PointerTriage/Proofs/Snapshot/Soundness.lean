import PointerTriage.Proofs.Snapshot.Layout
import PointerTriage.Proofs.Snapshot.Names
import PointerTriage.Proofs.Snapshot.Scopes

namespace PointerTriage

/-- The ids of a table are its indices if they count from zero. -/
theorem id_of_ids_eq_range {α : Type} {entries : Array α} {id : α → Nat}
    (h : entries.toList.map id = List.range entries.size) {i : Nat} {a : α}
    (ha : entries[i]? = some a) : id a = i := by
  have hid : (entries.toList.map id)[i]? = some (id a) := by
    rw [List.getElem?_map, Array.getElem?_toList, ha]
    rfl
  rw [h] at hid
  obtain ⟨_, he⟩ := List.getElem?_eq_some_iff.mp hid
  rw [List.getElem_range] at he
  exact he.symm

theorem id_lt_of_mem {α : Type} {entries : Array α} {id : α → Nat}
    (h : entries.toList.map id = List.range entries.size) {a : α} (ha : a ∈ entries) :
    id a < entries.size := by
  rw [← List.mem_range, ← h]
  exact List.mem_map.mpr ⟨a, Array.mem_toList_iff.mpr ha, rfl⟩

theorem map_of_mapM {ε α β γ : Type} {f : α → Except ε β} {g : β → γ} {k : α → γ}
    (hitem : ∀ a b, f a = .ok b → g b = k a) {as : List α} {bs : List β}
    (h : as.mapM f = .ok bs) : bs.map g = as.map k := by
  induction except_mapM_ok_iff.mp h with
  | nil => rfl
  | cons hab hrest ih =>
    rw [List.map_cons, List.map_cons, hitem _ _ hab, ih (except_mapM_ok_iff.mpr hrest)]

theorem origin_of_option_mapM {ε α β : Type} {f : α → Except ε β} {o : Option α} {o' : Option β}
    (h : o.mapM f = .ok o') {b : β} (hb : b ∈ o'.toList) : ∃ a, f a = .ok b := by
  cases o with
  | none =>
    cases h
    cases hb
  | some a =>
    rw [Option.mapM_some] at h
    cases ha : f a with
    | error e =>
      rw [ha] at h
      cases h
    | ok b' =>
      rw [ha] at h
      cases h
      rw [Option.toList_some, List.mem_singleton] at hb
      exact ⟨a, hb ▸ ha⟩

namespace Snapshot

theorem ids_of_numberBlocks (block value : Nat) (bs : List Block) :
    ((numberBlocks block value bs).flatMap NumberedBlock.instructions).map Prod.snd =
      List.range' value (Block.count bs) := by
  induction bs generalizing block value with
  | nil => rfl
  | cons b bs ih =>
    have hcount : Block.count (b :: bs) = b.instructions.length + Block.count bs := rfl
    rw [numberBlocks, List.flatMap_cons, List.map_append, ih, List.zipIdx_map_snd, hcount,
      List.range'_append_1]

theorem ids_numbered (s : Snapshot) :
    s.numbered.flatMap NumberedFunction.ids =
      List.range' s.globals.length (s.firstConstant - s.globals.length) := by
  have hall : ∀ (fs : List Function) (function block value : Nat),
      (numberFunctions function block value fs).flatMap NumberedFunction.ids =
        List.range' value (fs.map Function.count).sum := by
    intro fs
    induction fs with
    | nil => exact fun _ _ _ => rfl
    | cons f fs ih =>
      intro function block value
      rw [numberFunctions, List.flatMap_cons, ih, NumberedFunction.ids,
        NumberedFunction.instructions, ids_of_numberBlocks, List.zipIdx_map_snd,
        List.range'_append_1, ← Function.count, List.range'_append_1, List.map_cons, List.sum_cons]
  rw [firstConstant, Nat.add_sub_cancel_left]
  exact hall s.functions 0 0 s.globals.length

theorem ids_numbered_functions (s : Snapshot) :
    s.numbered.map NumberedFunction.id = List.range s.functions.length := by
  have hall : ∀ (fs : List Function) (function block value : Nat),
      (numberFunctions function block value fs).map NumberedFunction.id =
        List.range' function fs.length := by
    intro fs
    induction fs with
    | nil => exact fun _ _ _ => rfl
    | cons f fs ih =>
      intro function block value
      rw [numberFunctions, List.map_cons, ih, List.length_cons, List.range'_succ]
  rw [List.range_eq_range']
  exact hall s.functions 0 0 s.globals.length

theorem ids_numbered_blocks (s : Snapshot) :
    s.numbered.flatMap (fun f => f.blocks.map NumberedBlock.id) =
      List.range (s.functions.flatMap Function.blocks).length := by
  have hall : ∀ (fs : List Function) (function block value : Nat),
      (numberFunctions function block value fs).flatMap (fun f => f.blocks.map NumberedBlock.id) =
        List.range' block (fs.flatMap Function.blocks).length := by
    intro fs
    induction fs with
    | nil => exact fun _ _ _ => rfl
    | cons f fs ih =>
      intro function block value
      rw [numberFunctions, List.flatMap_cons, ih, ids_numberBlocks, List.range'_append_1,
        List.flatMap_cons, List.length_append]
  rw [List.range_eq_range']
  exact hall s.functions 0 0 s.globals.length

/-- Items that are linked to values under their own numbers are so one after the other. -/
theorem ids_of_linkEach {α : Type} {link : ValueId → α → Except NameFault Linked}
    {ids : α → List ValueId} (hitem : ∀ next a one, link next a = .ok one →
      one.values.map Value.id = ids a) {next : ValueId} {as : List α} {linked : Linked}
    (h : linkEach link next as = .ok linked) : linked.values.map Value.id = as.flatMap ids := by
  induction as generalizing next linked with
  | nil =>
    cases h
    rfl
  | cons a as ih =>
    simp only [linkEach, except_bind_ok_iff] at h
    obtain ⟨one, hone, rest, hrest, he⟩ := h
    cases he
    rw [Linked.append, List.map_append, hitem next a one hone, ih hrest, List.flatMap_cons]

theorem ids_arguments (f : NumberedFunction) :
    f.arguments.map Value.id = f.params.map Prod.snd := by
  rw [NumberedFunction.arguments, List.map_map]
  conv_rhs => rw [← List.zipIdx_map_fst 0 f.params, List.map_map]
  rfl

theorem ids_of_linkBlock {s : Snapshot} {f : NumberedFunction} {next : ValueId} {b : NumberedBlock}
    {one : Linked} (h : s.linkBlock f next b = .ok one) :
    one.values.map Value.id = b.instructions.map Prod.snd := by
  rw [List.map_eq_flatMap (l := b.instructions)]
  refine ids_of_linkEach ?_ h
  intro next j one hone
  obtain ⟨_, _, _, _, _, _, _, rfl⟩ := linkInstruction_ok hone
  rfl

theorem ids_of_linkFunction {s : Snapshot} {next : ValueId} {f : NumberedFunction} {one : Linked}
    (h : s.linkFunction next f = .ok one) : one.values.map Value.id = f.ids := by
  obtain ⟨body, hbody, rfl⟩ := linkFunction_ok h
  rw [List.map_append, ids_arguments, ids_of_linkEach (fun _ _ _ hone => ids_of_linkBlock hone) hbody,
    NumberedFunction.ids, NumberedFunction.instructions, List.map_flatMap]

/-- An instruction has the opcode of its operation. -/
theorem opcode_of_linkFunction {s : Snapshot} {next : ValueId} {f : NumberedFunction} {one : Linked}
    (h : s.linkFunction next f = .ok one) {value : Value} (hv : value ∈ one.values) {opcode : Opcode}
    {block : BlockId} (hk : value.kind = .instruction opcode block) :
    ∃ operation, s.opcode operation = .ok opcode := by
  obtain ⟨body, hbody, rfl⟩ := linkFunction_ok h
  rcases List.mem_append.mp hv with hv | hv
  · obtain ⟨_, _, rfl⟩ := List.mem_map.mp hv
    cases hk
  · obtain ⟨b, _, _, _, _, hblock, hv⟩ := origin_of_linkEach hbody hv
    obtain ⟨⟨i, _⟩, _, _, _, _, hone, hv⟩ := origin_of_linkEach hblock hv
    obtain ⟨_, _, _, _, hopcode, _, _, rfl⟩ := linkInstruction_ok hone
    rw [List.mem_singleton.mp hv] at hk
    cases hk
    exact ⟨i.operation, hopcode⟩

theorem functionId_of_opcode {s : Snapshot} {operation : Operation} {f : FunctionId}
    (h : s.opcode operation = .ok (.call (some f))) : ∃ name, s.functionId name = .ok f := by
  cases operation with
  | call callee targets =>
    rcases call_of_opcode h with ⟨_, he⟩ | ⟨name, _, _, he, hname⟩
    · cases he
    · cases he
      exact ⟨name, hname⟩
  | _ => cases h

/-- The operands from a number on. -/
def Linked.operandsFrom (first : ValueId) (l : Linked) : List ValueId :=
  (l.values.flatMap Value.operands).filter (first ≤ ·)

/-- Items that use their own constants, one after the other, do so together. -/
theorem operandsFrom_of_linkEach {α : Type} {link : ValueId → α → Except NameFault Linked}
    {first : ValueId} {as : List α} (hitem : ∀ a ∈ as, ∀ next, first ≤ next → ∀ one,
      link next a = .ok one → one.operandsFrom first = List.range' next one.constants.length)
    {next : ValueId} (hnext : first ≤ next) {linked : Linked}
    (h : linkEach link next as = .ok linked) :
    linked.operandsFrom first = List.range' next linked.constants.length := by
  induction as generalizing next linked with
  | nil =>
    cases h
    rfl
  | cons a as ih =>
    simp only [linkEach, except_bind_ok_iff] at h
    obtain ⟨one, hone, rest, hrest, he⟩ := h
    cases he
    have hfirst := hitem a List.mem_cons_self next hnext one hone
    have hlater := ih (fun a ha => hitem a (List.mem_cons_of_mem _ ha))
      (Nat.le_add_right_of_le hnext) hrest
    unfold Linked.operandsFrom at hfirst hlater ⊢
    rw [Linked.append, List.flatMap_append, List.filter_append, hfirst, hlater, List.length_append,
      List.range'_append_1]

theorem value_lt_firstConstant {s : Snapshot} {f : NumberedFunction} (hf : f ∈ s.numbered)
    {name : String} {v : ValueId} (h : s.value f name = .ok v) : v < s.firstConstant := by
  rcases mem_of_value h with hids | hglobal
  · exact (numberFunctions_bounds hf hids).2
  · exact Nat.lt_of_lt_of_le hglobal (Nat.le_add_right _ _)

theorem operandsFrom_of_operands {s : Snapshot} {f : NumberedFunction} (hf : f ∈ s.numbered)
    {next : ValueId} (hnext : s.firstConstant ≤ next) {ops : List Operand} {vs : List ValueId}
    {cs : List Constant} (h : s.operands f next ops = .ok (vs, cs)) :
    vs.filter (s.firstConstant ≤ ·) = List.range' next cs.length := by
  induction ops generalizing next vs cs with
  | nil =>
    cases h
    rfl
  | cons op ops ih =>
    cases op with
    | int i | null =>
      simp only [operands, except_bind_ok_iff] at h
      obtain ⟨⟨vs', cs'⟩, hrest, he⟩ := h
      cases he
      rw [List.filter_cons_of_pos (by simpa using hnext), ih (Nat.le_succ_of_le hnext) hrest,
        List.length_cons, List.range'_succ]
    | name n =>
      simp only [operands, except_bind_ok_iff] at h
      obtain ⟨v, hv, ⟨vs', cs'⟩, hrest, he⟩ := h
      cases he
      have hlt := value_lt_firstConstant hf hv
      rw [List.filter_cons_of_neg (by simpa using hlt), ih hnext hrest]

theorem operandsFrom_of_linkFunction {s : Snapshot} {f : NumberedFunction} (hf : f ∈ s.numbered)
    {next : ValueId} (hnext : s.firstConstant ≤ next) {one : Linked}
    (h : s.linkFunction next f = .ok one) :
    one.operandsFrom s.firstConstant = List.range' next one.constants.length := by
  obtain ⟨body, hbody, rfl⟩ := linkFunction_ok h
  have hparams : f.arguments.flatMap Value.operands = [] := by
    rw [List.flatMap_eq_nil_iff]
    intro value hv
    obtain ⟨_, _, rfl⟩ := List.mem_map.mp hv
    rfl
  have hblocks : body.operandsFrom s.firstConstant = List.range' next body.constants.length := by
    refine operandsFrom_of_linkEach ?_ hnext hbody
    intro b _ next hnext one hblock
    refine operandsFrom_of_linkEach ?_ hnext hblock
    intro j _ next hnext one hone
    obtain ⟨_, _, _, _, _, hops, _, rfl⟩ := linkInstruction_ok hone
    rw [Linked.operandsFrom, List.flatMap_singleton]
    exact operandsFrom_of_operands hf hnext hops
  rw [Linked.operandsFrom, List.flatMap_append, hparams]
  exact hblocks

section

variable {s : Snapshot} {code : Linked} {bodies : List (List PointerTriage.Block)} {t : Tables}
  {host : HostFacts} (h : s.Linking code bodies t host)
include h

/-- Each constant is used once, in the order of the numbers. -/
theorem Linking.operandsFrom_firstConstant :
    code.operandsFrom s.firstConstant = List.range' s.firstConstant code.constants.length :=
  operandsFrom_of_linkEach (fun _ hf _ hnext _ hone => operandsFrom_of_linkFunction hf hnext hone)
    (Nat.le_refl _) h.functions

theorem Linking.ids_code : code.values.map Value.id =
    List.range' s.globals.length (s.firstConstant - s.globals.length) := by
  rw [ids_of_linkEach (fun _ _ _ hone => ids_of_linkFunction hone) h.functions, ids_numbered]

theorem Linking.size_values : t.values.size = s.firstConstant + code.constants.length := by
  have hlength := congrArg List.length h.ids_code
  rw [List.length_map, List.length_range'] at hlength
  have hle : s.globals.length ≤ s.firstConstant := Nat.le_add_right _ _
  rw [h.valueTable]
  simp [globalValues, hlength]
  omega

/-- Values stand in the table under their numbers. -/
theorem Linking.ids_values : t.values.toList.map Value.id = List.range t.values.size := by
  have hglobals : s.globalValues.map Value.id = List.range' 0 s.globals.length := by
    rw [globalValues, List.map_map, ← List.zipIdx_map_snd]
    rfl
  have hconstants : (code.constantValues s.firstConstant).map Value.id =
      List.range' s.firstConstant code.constants.length := by
    rw [Linked.constantValues, List.map_map, ← List.zipIdx_map_snd]
    rfl
  have hle : s.globals.length ≤ s.firstConstant := Nat.le_add_right _ _
  have hnumbers : List.range' 0 s.globals.length ++ List.range' s.globals.length
      (s.firstConstant - s.globals.length) = List.range' 0 s.firstConstant := by
    simpa [Nat.add_sub_cancel' hle] using List.range'_append_1 (s := 0) (m := s.globals.length)
      (n := s.firstConstant - s.globals.length)
  rw [h.size_values, h.values_toList, List.map_append, List.map_append, hglobals,
    h.ids_code, hconstants, hnumbers, List.range_eq_range']
  simpa using List.range'_append_1 (s := 0) (m := s.firstConstant) (n := code.constants.length)

theorem Linking.size_functions : t.functions.size = s.functions.length := by
  rw [h.functionTable, List.size_toArray, List.length_map, ← source_numbered s, List.length_map]

theorem Linking.ids_functions :
    t.functions.toList.map PointerTriage.Function.id = List.range t.functions.size := by
  rw [h.size_functions, h.functionTable, List.toList_toArray, List.map_map]
  exact ids_numbered_functions s

theorem Linking.ids_blocks :
    t.blocks.toList.map PointerTriage.Block.id = List.range t.blocks.size := by
  have hids : bodies.flatten.map PointerTriage.Block.id =
      s.numbered.flatMap fun f => f.blocks.map NumberedBlock.id := by
    rw [List.map_flatten, List.flatMap_def]
    congr 1
    refine map_of_mapM ?_ h.successors
    intro f body hbody
    refine map_of_mapM ?_ hbody
    intro b block hblock
    exact (linkSuccessors_ok hblock).1
  have hlength := congrArg List.length (hids.trans (ids_numbered_blocks s))
  rw [List.length_map, List.length_range] at hlength
  rw [h.blockTable, List.toList_toArray, List.size_toArray, hids, ids_numbered_blocks, hlength]

theorem Linking.value_lt {value : Value} (hv : value ∈ t.values) : value.id < t.values.size :=
  id_lt_of_mem h.ids_values hv

theorem Linking.function_lt {f : NumberedFunction} (hf : f ∈ s.numbered) :
    f.id < t.functions.size :=
  id_lt_of_mem h.ids_functions (h.functionEntry_mem hf)

theorem Linking.block_lt {f : NumberedFunction} (hf : f ∈ s.numbered) {b : NumberedBlock}
    (hb : b ∈ f.blocks) : b.id < t.blocks.size := by
  obtain ⟨block, hblock, hlink⟩ := h.block_of_numbered hf hb
  rw [← (linkSuccessors_ok hlink).1]
  exact id_lt_of_mem h.ids_blocks hblock

theorem Linking.label_lt {f : NumberedFunction} (hf : f ∈ s.numbered) {label : String}
    {b : BlockId} (hb : f.block label = .ok b) : b < t.blocks.size := by
  unfold NumberedFunction.block at hb
  split at hb
  · rename_i nb hfind
    cases hb
    exact h.block_lt hf (List.mem_of_find?_eq_some hfind)
  · cases hb

theorem Linking.operand_lt {v : Value} (hv : v ∈ t.values) {a : ValueId} (ha : a ∈ v.operands) :
    a < t.values.size := by
  rw [h.size_values]
  by_cases hlt : a < s.firstConstant
  · exact Nat.lt_add_right _ hlt
  · have hcode := h.mem_code_of_operand hv ha
    have hfrom : a ∈ code.operandsFrom s.firstConstant :=
      List.mem_filter.mpr ⟨List.mem_flatMap.mpr ⟨v, hcode, ha⟩, by simpa using hlt⟩
    rw [h.operandsFrom_firstConstant] at hfrom
    exact (List.mem_range'_1.mp hfrom).2

theorem Linking.callee_lt {v : Value} (hv : v ∈ t.values) {f : FunctionId} {b : BlockId}
    (hk : v.kind = .instruction (.call (some f)) b) : f < t.functions.size := by
  have hopcode : v.opcode? = some (.call (some f)) := by rw [Value.opcode?, hk]
  obtain ⟨_, _, _, one, _, hone, hv⟩ := origin_of_linkEach h.functions (h.mem_code hv hopcode)
  obtain ⟨operation, hopcode⟩ := opcode_of_linkFunction hone hv hk
  obtain ⟨name, hname⟩ := functionId_of_opcode hopcode
  obtain ⟨hlt, _⟩ := List.findIdx?_eq_some_iff_getElem.mp (functionId_ok_iff.mp hname)
  rwa [h.size_functions]

theorem Linking.loop_lt {l : PointerTriage.Loop} (hl : l ∈ t.loops) :
    l.function < t.functions.size ∧
      ∀ b ∈ l.header :: (l.latch.toList ++ l.predecessor.toList ++ l.blocks), b < t.blocks.size := by
  obtain ⟨source, _, hlink⟩ := origin_of_mapM h.loops hl
  simp only [linkLoop, except_bind_ok_iff] at hlink
  obtain ⟨f, hf, blocks, hblocks, header, hheader, latch, hlatch, predecessor, hpredecessor, he⟩ :=
    hlink
  cases he
  have hf := (mem_of_numberedFunction hf).1
  refine ⟨h.function_lt hf, ?_⟩
  intro b hb
  obtain ⟨label, hlabel⟩ : ∃ label, f.block label = .ok b := by
    rcases List.mem_cons.mp hb with rfl | hb
    · exact ⟨_, hheader⟩
    · rcases List.mem_append.mp hb with hb | hb
      · rcases List.mem_append.mp hb with hb | hb
        · exact origin_of_option_mapM hlatch hb
        · exact origin_of_option_mapM hpredecessor hb
      · obtain ⟨label, _, hlabel⟩ := origin_of_mapM hblocks hb
        exact ⟨label, hlabel⟩
  exact h.label_lt hf hlabel

/-- Whatever links passes the checks of its tables. -/
theorem Linking.sound : t.Sound := by
  have hlink : s.link = .ok (t, host) := link_ok_iff.mpr ⟨code, bodies, h⟩
  constructor
  case value => exact fun _ _ hi => id_of_ids_eq_range h.ids_values hi
  case function => exact fun _ _ hi => id_of_ids_eq_range h.ids_functions hi
  case block => exact fun _ _ hi => id_of_ids_eq_range h.ids_blocks hi
  case operand => exact fun _ hv _ ha => h.operand_lt hv ha
  case callee => exact fun _ hv _ _ hk => h.callee_lt hv hk
  case loop => exact fun _ hl => h.loop_lt hl
  case owner =>
    intro v hv f i hk
    obtain ⟨nf, hnf, rfl, _⟩ := h.argument_origin hv hk
    exact h.function_lt hnf
  case home =>
    intro v hv opcode b hk
    obtain ⟨nf, hnf, nb, hnb, rfl, _⟩ := h.instruction_origin hv hk
    exact h.block_lt hnf hnb
  case param =>
    intro f hf p hp
    obtain ⟨i, hi⟩ := List.mem_iff_getElem?.mp hp
    obtain ⟨value, hv, rfl, _⟩ := value_of_param hlink hf hi
    exact h.value_lt hv
  case body =>
    intro f hf b hb
    obtain ⟨nf, hnf, rfl⟩ := h.function_origin hf
    obtain ⟨nb, hnb, rfl⟩ := List.mem_map.mp hb
    exact h.block_lt hnf hnb
  case blockOwner =>
    intro b hb
    obtain ⟨nf, hnf, nb, _, hsuccessors⟩ := h.block_origin hb
    rw [(linkSuccessors_ok hsuccessors).2.1]
    exact h.function_lt hnf
  case instruction =>
    intro b hb v hv
    obtain ⟨nf, hnf, nb, hnb, hsuccessors⟩ := h.block_origin hb
    rw [(linkSuccessors_ok hsuccessors).2.2] at hv
    obtain ⟨_, one, hone, hsub⟩ := values_of_linkEach h.functions hnf
    obtain ⟨value, hvalue, rfl, _⟩ := value_of_linkFunction hone hnb hv
    exact h.value_lt (by simp [h.valueTable, hsub hvalue])
  case successor =>
    intro b hb target htarget
    obtain ⟨nf, hnf, nb, _, hsuccessors⟩ := h.block_origin hb
    simp only [linkSuccessors, except_bind_ok_iff] at hsuccessors
    obtain ⟨targets, htargets, he⟩ := hsuccessors
    cases he
    obtain ⟨label, _, hlabel⟩ := origin_of_mapM htargets (List.mem_eraseDups.mp htarget)
    exact h.label_lt hnf hlabel

end

end Snapshot

end PointerTriage
