import Mathlib
import PointerTriage.Proofs.Snapshot.Linking

namespace PointerTriage

/-- Values are used in the functions they belong to. -/
structure Tables.Scoped (t : Tables) : Prop where
  operand : ∀ v ∈ t.values, ∀ a ∈ v.operands,
    ∀ f ∈ t.functions, f.isDeclaration = true → a ∉ f.params
  owner : ∀ b ∈ t.blocks, ∃ f, t.functions[b.function]? = some f ∧ f.isDeclaration = false

namespace Snapshot

/-- The values that a function defines. -/
def NumberedFunction.ids (f : NumberedFunction) : List ValueId :=
  f.params.map Prod.snd ++ f.instructions.map Prod.snd

theorem numberBlocks_bounds {bs : List Block} {block value : Nat} {b : NumberedBlock}
    (hb : b ∈ numberBlocks block value bs) {i : Instruction} {v : Nat}
    (hv : (i, v) ∈ b.instructions) : value ≤ v ∧ v < value + Block.count bs := by
  induction bs generalizing block value with
  | nil => cases hb
  | cons b' bs ih =>
    have hcount : Block.count (b' :: bs) = b'.instructions.length + Block.count bs := rfl
    rw [hcount]
    rcases List.mem_cons.mp hb with rfl | hb
    · obtain ⟨hle, hlt, _⟩ := List.mem_zipIdx hv
      omega
    · have hbounds := ih hb
      omega

/-- A function has the values from its first on, as many as it defines. -/
theorem ids_bounds_of_params {f : Function} {function block value v : Nat}
    (hv : v ∈ NumberedFunction.ids
      ⟨f, function, f.params.zipIdx value, numberBlocks block (value + f.params.length) f.blocks⟩) :
    value ≤ v ∧ v < value + f.count := by
  unfold Function.count
  rcases List.mem_append.mp hv with hv | hv
  · obtain ⟨⟨p, _⟩, hp, rfl⟩ := List.mem_map.mp hv
    obtain ⟨hle, hlt, _⟩ := List.mem_zipIdx hp
    omega
  · obtain ⟨⟨i, _⟩, hi, rfl⟩ := List.mem_map.mp hv
    obtain ⟨b, hb, hi⟩ := List.mem_flatMap.mp hi
    have hbounds := numberBlocks_bounds hb hi
    omega

theorem numberFunctions_bounds {fs : List Function} {function block value : Nat}
    {f : NumberedFunction} (hf : f ∈ numberFunctions function block value fs) {v : Nat}
    (hv : v ∈ f.ids) : value ≤ v ∧ v < value + (fs.map Function.count).sum := by
  induction fs generalizing function block value with
  | nil => cases hf
  | cons f' fs ih =>
    rw [List.map_cons, List.sum_cons]
    rcases List.mem_cons.mp hf with rfl | hf
    · have hbounds := ids_bounds_of_params hv
      omega
    · have hbounds := ih hf
      omega

/-- Two functions define no value in common. -/
theorem numberFunctions_apart (fs : List Function) (function block value : Nat) :
    (numberFunctions function block value fs).Pairwise fun f g => f.ids.Disjoint g.ids := by
  induction fs generalizing function block value with
  | nil => exact .nil
  | cons f fs ih =>
    refine List.pairwise_cons.mpr ⟨?_, ih _ _ _⟩
    intro g hg (v : Nat) hf hv
    have hfirst := ids_bounds_of_params hf
    have hlater := numberFunctions_bounds hg hv
    omega

theorem eq_of_mem_ids {s : Snapshot} {f g : NumberedFunction} (hf : f ∈ s.numbered)
    (hg : g ∈ s.numbered) {v : ValueId} (hvf : v ∈ f.ids) (hvg : v ∈ g.ids) : f = g := by
  have hsymm : Std.Symm fun f g : NumberedFunction => f.ids.Disjoint g.ids :=
    ⟨fun _ _ h _ hg hf => h hf hg⟩
  by_contra hne
  exact (numberFunctions_apart s.functions 0 0 s.globals.length).forall hf hg hne hvf hvg

/-- A name stands for a value of the function or for a global. -/
theorem mem_of_value {s : Snapshot} {f : NumberedFunction} {name : String} {v : ValueId}
    (h : s.value f name = .ok v) : v ∈ f.ids ∨ v < s.globals.length := by
  unfold value at h
  split at h
  · rename_i w hw
    cases h
    rcases Option.or_eq_some_iff.mp hw with hw | ⟨_, hw⟩
    · left
      obtain ⟨⟨n, _⟩, hfind, rfl⟩ := Option.map_eq_some_iff.mp hw
      rcases List.mem_append.mp (List.mem_of_find?_eq_some hfind) with hm | hm
      · obtain ⟨⟨p, u⟩, hp, he⟩ := List.mem_map.mp hm
        cases he
        exact List.mem_append_left _ (List.mem_map.mpr ⟨_, hp, rfl⟩)
      · obtain ⟨⟨i, u⟩, hi, he⟩ := List.mem_filterMap.mp hm
        obtain ⟨_, _, he⟩ := Option.map_eq_some_iff.mp he
        cases he
        exact List.mem_append_right _ (List.mem_map.mpr ⟨_, hi, rfl⟩)
    · right
      obtain ⟨hlt, _⟩ := List.findIdx?_eq_some_iff_getElem.mp hw
      exact hlt
  · cases h

/-- An operand is a constant, numbered from `next` on, or has a name. -/
theorem mem_operands {s : Snapshot} {f : NumberedFunction} {ops : List Operand} {next : ValueId}
    {vs : List ValueId} {cs : List Constant} (h : s.operands f next ops = .ok (vs, cs))
    {a : ValueId} (ha : a ∈ vs) : next ≤ a ∨ ∃ name, s.value f name = .ok a := by
  induction ops generalizing next vs cs with
  | nil =>
    cases h
    cases ha
  | cons op ops ih =>
    cases op with
    | int i | null =>
      simp only [operands, except_bind_ok_iff] at h
      obtain ⟨⟨vs', cs'⟩, hrest, he⟩ := h
      cases he
      rcases List.mem_cons.mp ha with rfl | ha
      · exact .inl (Nat.le_refl _)
      · exact (ih hrest ha).imp_left fun hle => Nat.le_of_succ_le hle
    | name n =>
      simp only [operands, except_bind_ok_iff] at h
      obtain ⟨v, hv, ⟨vs', cs'⟩, hrest, he⟩ := h
      cases he
      rcases List.mem_cons.mp ha with rfl | ha
      · exact .inr ⟨n, hv⟩
      · exact ih hrest ha

theorem operands_of_linkInstruction {s : Snapshot} {f : NumberedFunction} {block next id : Nat}
    {i : Instruction} {one : Linked} (h : s.linkInstruction f block next i id = .ok one) {v : Value}
    (hv : v ∈ one.values) : ∃ cs, s.operands f next i.operands = .ok (v.operands, cs) := by
  obtain ⟨_, _, cs, _, _, hops, _, rfl⟩ := linkInstruction_ok h
  rw [List.mem_singleton.mp hv]
  exact ⟨cs, hops⟩

/-- The operands of a value of a function are constants, or have names in that function, which then
has a body. -/
theorem operand_of_linkFunction {s : Snapshot} {f : NumberedFunction} {next : ValueId}
    {one : Linked} (h : s.linkFunction next f = .ok one) {v : Value} (hv : v ∈ one.values)
    {a : ValueId} (ha : a ∈ v.operands) :
    f.blocks ≠ [] ∧ (next ≤ a ∨ ∃ name, s.value f name = .ok a) := by
  obtain ⟨body, hbody, rfl⟩ := linkFunction_ok h
  rcases List.mem_append.mp hv with hv | hv
  · obtain ⟨_, _, rfl⟩ := List.mem_map.mp hv
    cases ha
  · obtain ⟨b, hb, next', inBlock, hle, hblock, hv⟩ := origin_of_linkEach hbody hv
    obtain ⟨⟨i, id⟩, _, next'', one', hle', hone, hv⟩ := origin_of_linkEach hblock hv
    obtain ⟨cs, hops⟩ := operands_of_linkInstruction hone hv
    refine ⟨List.ne_nil_of_mem hb, (mem_operands hops ha).imp_left ?_⟩
    exact fun hnext => Nat.le_trans hle (Nat.le_trans hle' hnext)

variable {s : Snapshot} {code : Linked} {bodies : List (List PointerTriage.Block)} {t : Tables}
  {host : HostFacts}

theorem Linking.operand_origin (h : s.Linking code bodies t host) {v : Value} (hv : v ∈ t.values)
    {a : ValueId} (ha : a ∈ v.operands) :
    ∃ f ∈ s.numbered, f.blocks ≠ [] ∧ (s.firstConstant ≤ a ∨ ∃ name, s.value f name = .ok a) := by
  have hcode := h.mem_code_of_operand hv ha
  obtain ⟨f, hf, next, one, hle, hone, hv⟩ := origin_of_linkEach h.functions hcode
  obtain ⟨hbody, hor⟩ := operand_of_linkFunction hone hv ha
  exact ⟨f, hf, hbody, hor.imp_left (Nat.le_trans hle)⟩

/-- A parameter of a declaration is none of the values that instructions use. -/
theorem Linking.operand_scoped (h : s.Linking code bodies t host) {v : Value} (hv : v ∈ t.values)
    {a : ValueId} (ha : a ∈ v.operands) {f : PointerTriage.Function} (hf : f ∈ t.functions)
    (hd : f.isDeclaration = true) : a ∉ f.params := by
  intro hp
  obtain ⟨g, hg, rfl⟩ : ∃ g ∈ s.numbered, functionEntry g = f := by
    simpa [h.functionTable] using hf
  have hempty : g.blocks = [] := by
    simpa [PointerTriage.Function.isDeclaration, functionEntry] using hd
  have hown : a ∈ g.ids := List.mem_append_left _ hp
  have hbounds := numberFunctions_bounds hg hown
  obtain ⟨user, huser, hbody, hconstant | ⟨name, hname⟩⟩ := h.operand_origin hv ha
  · exact Nat.not_le.mpr hbounds.2 hconstant
  · rcases mem_of_value hname with hids | hglobal
    · rw [eq_of_mem_ids huser hg hids hown] at hbody
      exact hbody hempty
    · exact Nat.not_lt.mpr hbounds.1 hglobal

/-- A block belongs to the function that lists it. -/
theorem Linking.owner_has_body (h : s.Linking code bodies t host) (hs : t.Sound)
    {b : PointerTriage.Block} (hb : b ∈ t.blocks) :
    ∃ f, t.functions[b.function]? = some f ∧ f.isDeclaration = false := by
  have hm : b ∈ bodies.flatten := by simpa only [h.blockTable, List.mem_toArray] using hb
  obtain ⟨body, hbody, hb⟩ := List.mem_flatten.mp hm
  obtain ⟨f, hf, hlinks⟩ := origin_of_mapM h.successors hbody
  obtain ⟨nb, hnb, hlink⟩ := origin_of_mapM hlinks hb
  simp only [linkSuccessors, except_bind_ok_iff] at hlink
  obtain ⟨_, _, he⟩ := hlink
  cases he
  have hentry : functionEntry f ∈ t.functions := by simpa [h.functionTable] using ⟨f, hf, rfl⟩
  obtain ⟨i, hi⟩ := Array.mem_iff_getElem?.mp hentry
  have hid : f.id = i := hs.function i _ hi
  refine ⟨functionEntry f, ?_, ?_⟩
  · rw [← hi, hid]
  · have hne : f.blocks ≠ [] := List.ne_nil_of_mem hnb
    simpa [PointerTriage.Function.isDeclaration, functionEntry] using hne

/-- The tables of a snapshot use values in the functions they belong to. -/
theorem scoped_of_link (h : s.link = .ok (t, host)) (hs : t.Sound) : t.Scoped := by
  obtain ⟨code, bodies, hlink⟩ := link_ok_iff.mp h
  exact ⟨fun v hv a ha f hf hd => hlink.operand_scoped hv ha hf hd,
    fun b hb => hlink.owner_has_body hs hb⟩

end Snapshot

end PointerTriage
