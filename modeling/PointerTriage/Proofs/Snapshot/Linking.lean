import Mathlib.Data.List.Forall2
import PointerTriage.Proofs.Program.Parts
import PointerTriage.Snapshot.Build

namespace PointerTriage

theorem except_mapM_ok_iff {ε α β : Type} {f : α → Except ε β} {as : List α} {bs : List β} :
    as.mapM f = .ok bs ↔ List.Forall₂ (fun a b => f a = .ok b) as bs := by
  induction as generalizing bs with
  | nil =>
    rw [List.forall₂_nil_left_iff]
    constructor
    · intro h
      cases h
      rfl
    · rintro rfl
      rfl
  | cons a as ih =>
    rw [List.mapM_cons, except_bind_ok_iff, List.forall₂_cons_left_iff]
    constructor
    · intro hex
      obtain ⟨b, hb, h⟩ := hex
      obtain ⟨bs', hbs, he⟩ := except_bind_ok_iff.mp h
      cases he
      exact ⟨b, bs', hb, ih.mp hbs, rfl⟩
    · intro hex
      obtain ⟨b, bs', hb, hbs, rfl⟩ := hex
      exact ⟨b, hb, except_bind_ok_iff.mpr ⟨bs', ih.mpr hbs, rfl⟩⟩

/-- What a list is mapped to comes from one of its items. -/
theorem origin_of_mapM {ε α β : Type} {f : α → Except ε β} {as : List α} {bs : List β}
    (h : as.mapM f = .ok bs) {b : β} (hb : b ∈ bs) : ∃ a ∈ as, f a = .ok b := by
  induction except_mapM_ok_iff.mp h with
  | nil => cases hb
  | @cons a b' as bs hab hrest ih =>
    rcases List.mem_cons.mp hb with rfl | hb
    · exact ⟨a, List.mem_cons_self, hab⟩
    · obtain ⟨a', ha, hfa⟩ := ih (except_mapM_ok_iff.mpr hrest) hb
      exact ⟨a', List.mem_cons_of_mem _ ha, hfa⟩

namespace Snapshot

theorem build_ok_iff {s : Snapshot} {b : Built} :
    s.build = .ok b ↔ ∃ t host, s.link = .ok (t, host) ∧ Built.ofTables t host = .ok b := by
  unfold build
  cases s.link with
  | error fault => simp
  | ok linked =>
    obtain ⟨t, host⟩ := linked
    simp only [Except.ok.injEq, Prod.mk.injEq]
    cases hb : Built.ofTables t host with
    | error fault =>
      simp only [reduceCtorEq, false_iff]
      intro hex
      obtain ⟨_, _, ⟨rfl, rfl⟩, h⟩ := hex
      rw [hb] at h
      cases h
    | ok b' =>
      simp only [Except.ok.injEq]
      constructor
      · rintro rfl
        exact ⟨t, host, ⟨rfl, rfl⟩, hb⟩
      · intro hex
        obtain ⟨_, _, ⟨rfl, rfl⟩, h⟩ := hex
        rw [hb] at h
        exact Except.ok.inj h

theorem source_numberFunctions (function block value : Nat) (fs : List Function) :
    (numberFunctions function block value fs).map NumberedFunction.source = fs := by
  induction fs generalizing function block value with
  | nil => rfl
  | cons f fs ih => simp [numberFunctions, ih]

theorem source_numbered (s : Snapshot) : s.numbered.map NumberedFunction.source = s.functions :=
  source_numberFunctions 0 0 s.globals.length s.functions

theorem source_mem_functions {s : Snapshot} {f : NumberedFunction} (hf : f ∈ s.numbered) :
    f.source ∈ s.functions := by
  rw [← source_numbered s]
  exact List.mem_map_of_mem hf

/-- A function has its parameters and then its blocks numbered. -/
theorem parts_numberFunctions {function block value : Nat} {fs : List Function}
    {f : NumberedFunction} (hf : f ∈ numberFunctions function block value fs) :
    ∃ block' value', f.params = f.source.params.zipIdx value' ∧
      f.blocks = numberBlocks block' (value' + f.source.params.length) f.source.blocks := by
  induction fs generalizing function block value with
  | nil => cases hf
  | cons f' fs ih =>
    rcases List.mem_cons.mp hf with rfl | hf
    · exact ⟨_, _, rfl, rfl⟩
    · exact ih hf

theorem call_of_opcode {s : Snapshot} {callee : Option String} {targets : List String}
    {opcode : Opcode} (h : s.opcode (.call callee targets) = .ok opcode) :
    (callee = none ∧ opcode = .call none) ∨
      ∃ name f, callee = some name ∧ opcode = .call (some f) ∧ s.functionId name = .ok f := by
  cases callee with
  | none =>
    cases h
    exact .inl ⟨rfl, rfl⟩
  | some name =>
    obtain ⟨f, hf, he⟩ := except_bind_ok_iff.mp h
    cases he
    exact .inr ⟨name, f, rfl, rfl, hf⟩

/-- What is linked one after the other holds what each item is linked to, with its constants under
their numbers. -/
theorem part_of_linkEach {α : Type} {link : ValueId → α → Except NameFault Linked}
    {next : ValueId} {as : List α} {linked : Linked} (h : linkEach link next as = .ok linked)
    {a : α} (ha : a ∈ as) :
    ∃ next' one, link next' a = .ok one ∧ one.values ⊆ linked.values ∧
      one.constants.zipIdx next' ⊆ linked.constants.zipIdx next := by
  induction as generalizing next linked with
  | nil => cases ha
  | cons a' as ih =>
    simp only [linkEach, except_bind_ok_iff] at h
    obtain ⟨one, hone, rest, hrest, he⟩ := h
    cases he
    simp only [Linked.append, List.zipIdx_append]
    rcases List.mem_cons.mp ha with rfl | ha
    · exact ⟨next, one, hone, List.subset_append_left _ _, List.subset_append_left _ _⟩
    · obtain ⟨next', one', hone', hvalues, hconstants⟩ := ih hrest ha
      exact ⟨next', one', hone', List.subset_append_of_subset_right _ hvalues,
        List.subset_append_of_subset_right _ hconstants⟩

theorem values_of_linkEach {α : Type} {link : ValueId → α → Except NameFault Linked}
    {next : ValueId} {as : List α} {linked : Linked} (h : linkEach link next as = .ok linked)
    {a : α} (ha : a ∈ as) :
    ∃ next' one, link next' a = .ok one ∧ one.values ⊆ linked.values := by
  obtain ⟨next', one, hone, hvalues, _⟩ := part_of_linkEach h ha
  exact ⟨next', one, hone, hvalues⟩

/-- What is linked one after the other comes from one of the items, whose constants are numbered after
those of the items before it. -/
theorem origin_of_linkEach {α : Type} {link : ValueId → α → Except NameFault Linked}
    {next : ValueId} {as : List α} {linked : Linked} (h : linkEach link next as = .ok linked)
    {v : Value} (hv : v ∈ linked.values) :
    ∃ a ∈ as, ∃ next' one, next ≤ next' ∧ link next' a = .ok one ∧ v ∈ one.values := by
  induction as generalizing next linked with
  | nil =>
    cases h
    cases hv
  | cons a as ih =>
    simp only [linkEach, except_bind_ok_iff] at h
    obtain ⟨one, hone, rest, hrest, he⟩ := h
    cases he
    rcases List.mem_append.mp hv with hv | hv
    · exact ⟨a, List.mem_cons_self, next, one, Nat.le_refl _, hone, hv⟩
    · obtain ⟨a', ha, next', one', hle, hone', hv⟩ := ih hrest hv
      exact ⟨a', List.mem_cons_of_mem _ ha, next', one', Nat.le_trans (Nat.le_add_right _ _) hle,
        hone', hv⟩

/-- What a snapshot is linked to, part by part. -/
structure Linking (s : Snapshot) (code : Linked) (bodies : List (List PointerTriage.Block))
    (t : Tables) (host : HostFacts) : Prop where
  names : s.checkNames = .ok ()
  functions : linkEach s.linkFunction s.firstConstant s.numbered = .ok code
  successors : s.numbered.mapM (fun f => f.blocks.mapM (linkSuccessors f)) = .ok bodies
  loops : s.loops.mapM s.linkLoop = .ok t.loops
  pointsTo : s.pointsTo.mapM s.linkPair = .ok host.pointsTo
  flows : s.flows.mapM s.linkPair = .ok host.flows
  valueTable : t.values = (s.globalValues ++ code.values ++
    (code.constants.zipIdx s.firstConstant).map fun (c, v) => constantValue c v).toArray
  functionTable : t.functions = (s.numbered.map functionEntry).toArray
  blockTable : t.blocks = bodies.flatten.toArray
  allocators : host.allocators = s.allocators.getD Settings.defaultAllocators
  targets : host.targets = code.targets

theorem link_ok_iff {s : Snapshot} {t : Tables} {host : HostFacts} :
    s.link = .ok (t, host) ↔ ∃ code bodies, s.Linking code bodies t host := by
  unfold link
  simp only [except_bind_ok_iff]
  constructor
  · intro hex
    obtain ⟨_, hnames, code, hcode, bodies, hbodies, loops, hloops, pointsTo, hpoints, flows, hflows,
      he⟩ := hex
    cases he
    exact ⟨code, bodies, hnames, hcode, hbodies, hloops, hpoints, hflows, rfl, rfl, rfl, rfl, rfl⟩
  · intro hex
    obtain ⟨code, bodies, h⟩ := hex
    refine ⟨(), h.names, code, h.functions, bodies, h.successors, t.loops, h.loops, host.pointsTo,
      h.pointsTo, host.flows, h.flows, ?_⟩
    obtain ⟨values, functions, blockTable, loops⟩ := t
    obtain ⟨allocators, pointsTo, flows, targets⟩ := host
    obtain ⟨_, _, _, _, _, _, rfl, rfl, rfl, rfl, rfl⟩ := h
    rfl

/-- The values of the constants that linking adds, from this number on. -/
def Linked.constantValues (code : Linked) (first : ValueId) : List Value :=
  (code.constants.zipIdx first).map fun (c, v) => constantValue c v

/-- The values of the parameters of a function. -/
def NumberedFunction.arguments (f : NumberedFunction) : List Value :=
  f.params.zipIdx.map fun ((p, v), index) => ⟨v, some p.name, p.shape, .argument f.id index, []⟩

theorem linkInstruction_ok {s : Snapshot} {f : NumberedFunction} {block next v : Nat}
    {i : Instruction} {one : Linked} (h : s.linkInstruction f block next i v = .ok one) :
    ∃ opcode vs cs targets, s.opcode i.operation = .ok opcode ∧
      s.operands f next i.operands = .ok (vs, cs) ∧
      i.operation.targets.mapM s.functionId = .ok targets ∧
      one = ⟨[⟨v, i.name, i.shape.getD i.operation.shape, .instruction opcode block, vs⟩], cs,
        targets.map (v, ·)⟩ := by
  simp only [linkInstruction, except_bind_ok_iff] at h
  obtain ⟨opcode, hopcode, ⟨vs, cs⟩, hops, targets, htargets, he⟩ := h
  cases he
  exact ⟨opcode, vs, cs, targets, hopcode, hops, htargets, rfl⟩

theorem linkFunction_ok {s : Snapshot} {next : ValueId} {f : NumberedFunction} {one : Linked}
    (h : s.linkFunction next f = .ok one) : ∃ body,
      linkEach (s.linkBlock f) next f.blocks = .ok body ∧
      one = ⟨f.arguments ++ body.values, body.constants, body.targets⟩ := by
  simp only [linkFunction, except_bind_ok_iff] at h
  obtain ⟨body, hbody, he⟩ := h
  cases he
  exact ⟨body, hbody, rfl⟩

section

variable {s : Snapshot} {code : Linked} {bodies : List (List PointerTriage.Block)} {t : Tables}
  {host : HostFacts} (h : s.Linking code bodies t host)
include h

theorem Linking.values_toList :
    t.values.toList = s.globalValues ++ code.values ++ code.constantValues s.firstConstant := by
  rw [h.valueTable]
  rfl

theorem Linking.mem_values_iff {v : Value} : v ∈ t.values ↔
    v ∈ s.globalValues ∨ v ∈ code.values ∨ v ∈ code.constantValues s.firstConstant := by
  rw [← Array.mem_toList_iff, h.values_toList, List.mem_append, List.mem_append, or_assoc]

/-- Globals and constants have no operands. -/
theorem Linking.mem_code_of_operand {v : Value} (hv : v ∈ t.values) {a : ValueId}
    (ha : a ∈ v.operands) : v ∈ code.values := by
  rcases h.mem_values_iff.mp hv with hv | hv | hv
  · obtain ⟨_, _, rfl⟩ := List.mem_map.mp hv
    cases ha
  · exact hv
  · obtain ⟨_, _, rfl⟩ := List.mem_map.mp hv
    cases ha

/-- Globals and constants are no instructions. -/
theorem Linking.mem_code {v : Value} (hv : v ∈ t.values) {opcode : Opcode}
    (ho : v.opcode? = some opcode) : v ∈ code.values := by
  rcases h.mem_values_iff.mp hv with hv | hv | hv
  · obtain ⟨_, _, rfl⟩ := List.mem_map.mp hv
    cases ho
  · exact hv
  · obtain ⟨_, _, rfl⟩ := List.mem_map.mp hv
    cases ho

end

theorem Linking.function_name {s : Snapshot} {code : Linked}
    {bodies : List (List PointerTriage.Block)} {t : Tables} {host : HostFacts}
    (h : s.Linking code bodies t host) (f : FunctionId) :
    (t.functions[f]?).map PointerTriage.Function.name = (s.functions[f]?).map Function.name := by
  rw [h.functionTable, ← source_numbered s]
  simp [functionEntry, Function.comp_def]

/-- The values that a function is linked to begin with its parameters. -/
theorem param_of_linkFunction {s : Snapshot} {next : ValueId} {f : NumberedFunction}
    {linked : Linked} (h : s.linkFunction next f = .ok linked) {i : Nat} {p : Param} {v : ValueId}
    (hp : f.params[i]? = some (p, v)) :
    ⟨v, some p.name, p.shape, .argument f.id i, []⟩ ∈ linked.values := by
  obtain ⟨body, _, rfl⟩ := linkFunction_ok h
  refine List.mem_append_left _ (List.mem_map.mpr ⟨((p, v), i), ?_, rfl⟩)
  exact List.mem_zipIdx_iff_getElem?.mpr hp

/-- A parameter of a linked function is an argument value, at its own position. -/
theorem value_of_param {s : Snapshot} {t : Tables} {host : HostFacts}
    (h : s.link = .ok (t, host)) {f : PointerTriage.Function} (hf : f ∈ t.functions) {i : Nat}
    {p : ValueId} (hp : f.params[i]? = some p) :
    ∃ v ∈ t.values, v.id = p ∧ v.kind = .argument f.id i := by
  obtain ⟨code, _, hlink⟩ := link_ok_iff.mp h
  obtain ⟨nf, hnf, rfl⟩ : ∃ nf ∈ s.numbered, functionEntry nf = f := by
    simpa [hlink.functionTable] using hf
  obtain ⟨⟨param, v⟩, hparam, rfl⟩ : ∃ q, nf.params[i]? = some q ∧ q.2 = p := by
    simpa [functionEntry] using hp
  obtain ⟨next, one, hone, hsub⟩ := values_of_linkEach hlink.functions hnf
  refine ⟨⟨v, some param.name, param.shape, .argument nf.id i, []⟩, ?_, rfl, rfl⟩
  simp [hlink.valueTable, hsub (param_of_linkFunction hone hparam)]

end Snapshot

/-- In a program from a snapshot every parameter is defined. -/
theorem Built.Parts.def_of_param {b : Built} {t : Tables} {host : HostFacts} (h : b.Parts t host)
    {s : Snapshot} (hl : s.link = .ok (t, host)) {f : Function} (hf : f ∈ b.program.ir.functions)
    {p : ValueId} (hp : p ∈ f.params) : ∃ n, b.program.flow.def? p = some n := by
  obtain ⟨ht, _⟩ := Ir.ofTables_ok h.ir
  obtain ⟨i, hi⟩ := List.mem_iff_getElem?.mp hp
  have hf : f ∈ t.functions := ht ▸ Array.mem_toList_iff.mp hf
  obtain ⟨v, hv, rfl, hk⟩ := Snapshot.value_of_param hl hf hi
  have hv : v ∈ b.program.ir.values := Array.mem_toList_iff.mpr (ht ▸ hv)
  have hkind : ValueFlow.kindOf? b.program.ir host.allocators v = some .formalParam := by
    simp [ValueFlow.kindOf?, hk]
  obtain ⟨n, hn, _⟩ := h.def_of_kind (h.sound.value?_of_mem hv) hkind
  exact ⟨n, hn⟩

/-- `main` hands its parameter to `keep` in an indirect call, and copies what it gets back. `keep`
returns its parameter by way of a slot. -/
def relay : Snapshot where
  globals := []
  functions := [
    ⟨"memcpy", .void, [⟨"to", .untyped⟩, ⟨"from", .untyped⟩, ⟨"size", .int 64⟩], []⟩,
    ⟨"keep", .untyped, [⟨"x", .untyped⟩], [⟨"entry", [
      ⟨some "slot", .alloca .untyped, none, []⟩,
      ⟨none, .store, none, [.name "x", .name "slot"]⟩,
      ⟨some "y", .load, none, [.name "slot"]⟩,
      ⟨none, .ret, none, [.name "y"]⟩], []⟩]⟩,
    ⟨"main", .void, [⟨"input", .untyped⟩], [⟨"entry", [
      ⟨some "buffer", .alloca (.int 64), none, []⟩,
      ⟨some "kept", .call none ["keep"], none, [.name "input"]⟩,
      ⟨none, .call (some "memcpy") [], none, [.name "buffer", .name "kept", .int 8]⟩,
      ⟨none, .ret, none, []⟩], []⟩]⟩]
  loops := []
  pointsTo := []
  flows := []
  allocators := none

/-- `main` asks for as much memory as its first parameter says, if that is below the second. -/
def request (operation : Snapshot.Operation) : Snapshot where
  globals := []
  functions := [
    ⟨"malloc", .untyped, [⟨"size", .int 64⟩], []⟩,
    ⟨"reserve", .untyped, [⟨"size", .int 64⟩], []⟩,
    ⟨"main", .void, [⟨"count", .int 64⟩, ⟨"limit", .int 64⟩], [
      ⟨"entry", [
        ⟨some "fits", .icmp, none, [.name "count", .name "limit"]⟩,
        ⟨none, .br, none, [.name "fits"]⟩], ["grant", "refuse"]⟩,
      ⟨"grant", [
        ⟨some "block", operation, some .untyped, [.name "count"]⟩,
        ⟨none, .ret, none, []⟩], []⟩,
      ⟨"refuse", [⟨none, .ret, none, []⟩], []⟩]⟩]
  loops := []
  pointsTo := []
  flows := []
  allocators := none

end PointerTriage
