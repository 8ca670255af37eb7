import PointerTriage.Proofs.Graph.Reachability
import PointerTriage.Proofs.Sets
import PointerTriage.Proofs.Snapshot.Linking
import PointerTriage.Proofs.ValueFlow.Flows
import PointerTriage.Rules.Check
import PointerTriage.Taint.Propagate

namespace PointerTriage

namespace Findings

theorem mem_values_foldl {flags : List (ValueId × Option String)} {f : Findings} {v : ValueId} :
    v ∈ (flags.foldl (fun f (v, note) => f.flag v note) f).values ↔
      v ∈ f.values ∨ ∃ note, (v, note) ∈ flags := by
  induction flags generalizing f with
  | nil => simp
  | cons flag flags ih =>
    obtain ⟨w, note⟩ := flag
    have hflag : v ∈ (f.flag w note).values ↔ v = w ∨ v ∈ f.values := IdMap.mem_keys_insert
    rw [List.foldl_cons, ih, hflag]
    simp only [List.mem_cons, Prod.mk.injEq, exists_or, exists_and_left, exists_eq, and_true]
    tauto

/-- What the flags of a rule are about is flagged, whatever their notes. -/
theorem mem_values_ofFlags {r : Rule} {flags : List (ValueId × Option String)} {v : ValueId} :
    v ∈ (ofFlags r flags).values ↔ ∃ note, (v, note) ∈ flags := by
  rw [ofFlags, mem_values_foldl]
  exact or_iff_right List.not_mem_nil

end Findings

namespace BoundCheck

variable {c : Context}

/-- The first node depends on the second, through the edges that the settings follow. -/
def DependsOn (c : Context) (n m : NodeId) : Prop :=
  m ∈ c.flow.backwardClosure (edgeFilter c) [n]

theorem mem_backwardClosure {seeds : List NodeId} {m : NodeId} :
    m ∈ c.flow.backwardClosure (edgeFilter c) seeds ↔ ∃ n ∈ seeds, DependsOn c n m :=
  Graph.mem_reach_iff_seed

theorem mem_dependencies {n m : NodeId} :
    m ∈ dependencies c n ↔ DependsOn c n m ∨
      ∃ a ∈ sizeOperands c n, ∃ root, c.def? a = some root ∧ DependsOn c root m := by
  rw [dependencies, IdSet.mem_ofList, mem_backwardClosure, List.exists_mem_cons_iff]
  refine or_congr_right ?_
  simp only [List.mem_filterMap]
  constructor
  · intro hex
    obtain ⟨root, ⟨a, ha, hroot⟩, hm⟩ := hex
    exact ⟨a, ha, root, hroot, hm⟩
  · intro hex
    obtain ⟨a, ha, root, hroot, hm⟩ := hex
    exact ⟨root, ⟨a, ha, hroot⟩, hm⟩

/-- At the location something is compared with a value that is not a constant. -/
def ComparesVariable (c : Context) (l : LocationId) : Prop :=
  ∃ u rhs, cmpAt? c l = some u ∧ c.ir.operand? u 1 = some rhs ∧ c.ir.isConstant rhs = false

theorem ComparesVariable.isCmp {l : LocationId} (h : ComparesVariable c l) : isCmp c l = true := by
  obtain ⟨u, _, hu, _⟩ := h
  rw [BoundCheck.isCmp, hu]
  rfl

theorem hasVariableRhs_iff {l : LocationId} :
    hasVariableRhs c l = true ↔ ComparesVariable c l := by
  simp only [hasVariableRhs, rhs?, Option.any_eq_true, Option.bind_eq_some_iff, Bool.not_eq_true',
    ComparesVariable]
  constructor
  · intro hex
    obtain ⟨rhs, ⟨u, hu, hrhs⟩, hvaries⟩ := hex
    exact ⟨u, rhs, hu, hrhs, hvaries⟩
  · intro hex
    obtain ⟨u, rhs, hu, hrhs, hvaries⟩ := hex
    exact ⟨rhs, ⟨u, hu, hrhs⟩, hvaries⟩

/-- On a path to the node, something is compared with a variable, and what is at that location depends
on something that the root depends on too. -/
def Guards (c : Context) (n root : NodeId) : Prop :=
  ∃ path ∈ (paths c n).leaves, ∃ l ∈ path, ComparesVariable c l ∧
    ∃ k ∈ c.control.flowNodes l, ∃ m, DependsOn c k m ∧ DependsOn c root m

theorem isRelevant_iff {n : NodeId} {l : LocationId} :
    isRelevant c (dependencies c n) l = true ↔ ∃ k ∈ c.control.flowNodes l, ∃ m,
      DependsOn c k m ∧ (DependsOn c n m ∨
        ∃ a ∈ sizeOperands c n, ∃ root, c.def? a = some root ∧ DependsOn c root m) := by
  simp only [isRelevant, List.any_eq_true, decide_eq_true_iff, mem_backwardClosure, mem_dependencies]
  constructor
  · intro hex
    obtain ⟨m, ⟨k, hk, hkm⟩, hm⟩ := hex
    exact ⟨k, hk, m, hkm, hm⟩
  · intro hex
    obtain ⟨k, hk, m, hkm, hm⟩ := hex
    exact ⟨m, ⟨k, hk, hkm⟩, hm⟩

theorem mem_relevantCmps {found : List Path} {deps : IdSet} {l : LocationId} :
    l ∈ relevantCmps c found deps ↔
      (∃ path ∈ found, l ∈ path) ∧ isCmp c l = true ∧ isRelevant c deps l = true := by
  simp only [relevantCmps, IdSet.mem_filter, IdSet.mem_ofList, List.mem_flatMap, List.mem_filter]
  constructor
  · intro hex
    obtain ⟨⟨path, hpath, hl, hcmp⟩, hrelevant⟩ := hex
    exact ⟨⟨path, hpath, hl⟩, hcmp, hrelevant⟩
  · intro hex
    obtain ⟨⟨path, hpath, hl⟩, hcmp, hrelevant⟩ := hex
    exact ⟨⟨path, hpath, hl, hcmp⟩, hrelevant⟩

/-- The test of the rule: a comparison guards the node or one of the sizes it asks for. -/
theorem bounded_iff {n : NodeId} :
    (relevantCmps c (paths c n).leaves (dependencies c n)).toList.any (hasVariableRhs c) = true ↔
      Guards c n n ∨ ∃ a ∈ sizeOperands c n, ∃ root, c.def? a = some root ∧ Guards c n root := by
  simp only [List.any_eq_true, ← IdSet.mem_def, mem_relevantCmps, isRelevant_iff,
    hasVariableRhs_iff]
  constructor
  · intro hex
    obtain ⟨l, ⟨⟨path, hpath, hl⟩, _, k, hk, m, hkm, hm⟩, hcompares⟩ := hex
    rcases hm with hm | ⟨a, ha, root, hroot, hm⟩
    · exact .inl ⟨path, hpath, l, hl, hcompares, k, hk, m, hkm, hm⟩
    · exact .inr ⟨a, ha, root, hroot, path, hpath, l, hl, hcompares, k, hk, m, hkm, hm⟩
  · intro hor
    rcases hor with hguards | ⟨a, ha, root, hroot, hguards⟩
    · obtain ⟨path, hpath, l, hl, hcompares, k, hk, m, hkm, hm⟩ := hguards
      exact ⟨l, ⟨⟨path, hpath, hl⟩, hcompares.isCmp, k, hk, m, hkm, .inl hm⟩, hcompares⟩
    · obtain ⟨path, hpath, l, hl, hcompares, k, hk, m, hkm, hm⟩ := hguards
      exact ⟨l, ⟨⟨path, hpath, hl⟩, hcompares.isCmp, k, hk, m, hkm, .inr ⟨a, ha, root, hroot, hm⟩⟩,
        hcompares⟩

end BoundCheck

section

variable {b : Built} {t : Tables} {host : HostFacts} (h : b.Parts t host) (settings : Settings)
  {call : Value} (hc : call ∈ b.program.ir.values)
include h hc

/-- A call asks for sizes only where the program takes it for an allocation. -/
theorem Built.Parts.mem_sizeOperands {callee : Option FunctionId}
    (ho : call.opcode? = some (.call callee)) {n : NodeId}
    (hn : b.program.flow.def? call.id = some n) {a : ValueId} :
    a ∈ BoundCheck.sizeOperands (b.context settings) n ↔
      b.program.ir.allocates host.allocators call.id = true ∧ a ∈ call.operands ∧
        b.program.ir.isConstant a = false := by
  have hv := h.sound.value?_of_mem hc
  obtain ⟨block, hk⟩ := opcode_kind ho
  have hkind : ValueFlow.kindOf? b.program.ir host.allocators call =
      some (if b.program.ir.allocates host.allocators call.id then .addr else .actualReturn) := by
    simp [ValueFlow.kindOf?, hk]
  obtain ⟨m, hm, hnode⟩ := h.def_of_kind hv hkind
  rw [hn] at hm
  cases hm
  have hnode : (b.context settings).flow.node? n = _ := hnode
  have hopcode : (b.context settings).ir.opcode? call.id = some (.call callee) := by
    change b.program.ir.opcode? call.id = _
    rw [Ir.opcode?, hv]
    exact ho
  have hvalue : (b.context settings).ir.value? call.id = some call := hv
  rw [BoundCheck.sizeOperands, hnode]
  cases ha : b.program.ir.allocates host.allocators call.id with
  | false => simp
  | true =>
    simp only [if_true, hopcode, hvalue, Option.map_some, Option.getD_some, List.mem_filter,
      Bool.not_eq_true', true_and]
    rfl

theorem Built.Parts.mem_allocatorCalls (taint : Taint) {f : FunctionId}
    (hreach : host.MayReach call f) {function : Function}
    (hf : b.program.ir.function? f = some function)
    (hname : function.name ∈ settings.rules.allocators) {size : ValueId}
    (hsize : size ∈ call.operands) (hvaries : b.program.ir.isConstant size = false) {n : NodeId}
    (hn : b.program.flow.def? call.id = some n) (htaint : n ∈ taint.nodes) :
    call ∈ Rules.allocatorCalls (b.context settings) taint := by
  have hnames := h.mem_calleeNames settings hc hreach hf
  obtain ⟨callee, ho, _⟩ := hreach
  have hcallee : ((b.context settings).calleeNames call.id).any settings.rules.allocators.contains =
      true :=
    List.any_eq_true.mpr ⟨_, hnames, List.contains_iff_mem.mpr hname⟩
  have hvaries : (b.context settings).ir.isConstant size = false := hvaries
  have hoperand : call.operands.any (!(b.context settings).ir.isConstant ·) = true :=
    List.any_eq_true.mpr ⟨size, hsize, by rw [hvaries]; rfl⟩
  have htainted : taint.isValueTainted b.program call.id = true := by
    simp [Taint.isValueTainted, hn, htaint]
  refine List.mem_filter.mpr ⟨hc, ?_⟩
  simp only [Bool.and_eq_true]
  exact ⟨⟨⟨by simp [ho, Opcode.isCall], hcallee⟩, hoperand⟩, htainted⟩

end

namespace Rules

/-- A value is flagged if it is a tainted call of an allocator that nothing bounds. -/
theorem mem_unboundedAlloc {c : Context} {taint : Taint} {v : ValueId} :
    v ∈ ((Check.ofRule .unboundedAlloc).run c taint).values ↔
      ∃ call ∈ allocatorCalls c taint, call.id = v ∧ ∃ n, c.def? v = some n ∧
        ¬(BoundCheck.Guards c n n ∨ ∃ a ∈ BoundCheck.sizeOperands c n, ∃ root,
          c.def? a = some root ∧ BoundCheck.Guards c n root) := by
  rw [Check.run, Findings.mem_values_ofFlags]
  change (∃ note, (v, note) ∈ unboundedAlloc c taint) ↔ _
  simp only [unboundedAlloc, List.mem_filterMap, Option.bind_eq_some_iff]
  constructor
  · intro hex
    obtain ⟨note, call, hcall, n, hn, hflag⟩ := hex
    split at hflag
    · cases hflag
    · rename_i hopen
      cases hflag
      rw [BoundCheck.bounded_iff] at hopen
      exact ⟨call, hcall, rfl, n, hn, hopen⟩
  · intro hex
    obtain ⟨call, hcall, rfl, n, hn, hopen⟩ := hex
    rw [← BoundCheck.bounded_iff] at hopen
    exact ⟨_, call, hcall, n, hn, by rw [if_neg hopen]⟩

/-- A tainted call of an allocator is flagged unless a comparison guards it or, where the program takes
it for an allocation, one of the sizes it asks for. -/
theorem allocator_call_flagged_iff {t : Tables} {host : HostFacts} {b : Built}
    (h : Built.ofTables t host = .ok b) (settings : Settings) (taint : Taint) {call : Value}
    (hc : call ∈ b.program.ir.values) {f : FunctionId} (hreach : host.MayReach call f)
    {function : Function} (hf : b.program.ir.function? f = some function)
    (hname : function.name ∈ settings.rules.allocators) {size : ValueId}
    (hsize : size ∈ call.operands) (hvaries : b.program.ir.isConstant size = false) {n : NodeId}
    (hn : b.program.flow.def? call.id = some n) (htaint : n ∈ taint.nodes) :
    call.id ∈ ((Check.ofRule .unboundedAlloc).run (b.context settings) taint).values ↔
      ¬BoundCheck.Guards (b.context settings) n n ∧
      (b.program.ir.allocates host.allocators call.id = true → ∀ a ∈ call.operands,
        b.program.ir.isConstant a = false → ∀ root, b.program.flow.def? a = some root →
        ¬BoundCheck.Guards (b.context settings) n root) := by
  have hparts := Built.ofTables_ok_iff.mp h
  have hcandidate := hparts.mem_allocatorCalls settings hc taint hreach hf hname hsize hvaries hn htaint
  obtain ⟨callee, ho, _⟩ := hreach
  have hsizes : ∀ a, a ∈ BoundCheck.sizeOperands (b.context settings) n ↔ _ :=
    fun a => hparts.mem_sizeOperands settings hc ho hn
  rw [mem_unboundedAlloc]
  constructor
  · intro hex
    obtain ⟨_, _, _, m, hm, hopen⟩ := hex
    cases hm.symm.trans hn
    refine ⟨fun hguards => hopen (.inl hguards), ?_⟩
    intro halloc a ha hconst root hroot hguards
    exact hopen (.inr ⟨a, (hsizes a).mpr ⟨halloc, ha, hconst⟩, root, hroot, hguards⟩)
  · intro hopen
    refine ⟨call, hcandidate, rfl, n, hn, ?_⟩
    rintro (hguards | ⟨a, ha, root, hroot, hguards⟩)
    · exact hopen.1 hguards
    · obtain ⟨halloc, ha, hconst⟩ := (hsizes a).mp ha
      exact hopen.2 halloc a ha hconst root hroot hguards

/-- The comparison of the count with the limit is on the one path to the request. -/
theorem request_guards {operation : Snapshot.Operation} (settings : Settings) {b : Built}
    (hb : (request operation).build = .ok b)
    (hpath : ((request operation).build.toOption.map fun b =>
      ((BoundCheck.paths (b.context settings) 5).leaves, BoundCheck.cmpAt? (b.context settings) 3,
        b.program.ir.operand? 4 1, b.program.ir.isConstant 3)) =
      some ([[5, 4, 3, 1, 0]], some 4, some 3, false))
    (hshared : ((request operation).build.toOption.map fun b =>
      let filter := BoundCheck.edgeFilter (b.context settings)
      (b.program.control.flowNodes 3, b.program.flow.backwardClosure filter [4],
        b.program.flow.backwardClosure filter [2])) = some ([4], [4, 2, 3], [2])) :
    BoundCheck.Guards (b.context settings) 5 2 := by
  rw [hb] at hpath hshared
  simp only [Except.toOption, Option.map_some, Option.some.injEq, Prod.mk.injEq] at hpath hshared
  obtain ⟨hleaves, hcmp, hrhs, hvaries⟩ := hpath
  obtain ⟨hplaced, hcompared, hcount⟩ := hshared
  have hleft : BoundCheck.DependsOn (b.context settings) 4 2 := by
    change 2 ∈ b.program.flow.backwardClosure _ _
    rw [hcompared]
    simp
  have hright : BoundCheck.DependsOn (b.context settings) 2 2 := by
    change 2 ∈ b.program.flow.backwardClosure _ _
    rw [hcount]
    simp
  exact ⟨[5, 4, 3, 1, 0], by simp [hleaves], 3, by simp, ⟨4, 3, hcmp, hrhs, hvaries⟩, 4,
    hplaced ▸ by simp, 2, hleft, hright⟩

/-- With `malloc` called by its name, the guarded request is not flagged. -/
theorem request_malloc_not_flagged : ∃ b, (request (.call (some "malloc") [])).build = .ok b ∧
    BoundCheck.Guards (b.context .unchanged) 5 2 ∧
    6 ∉ ((Check.ofRule .unboundedAlloc).run (b.context .unchanged)
      (Taint.run (b.context .unchanged)).1).values := by
  obtain ⟨b, hb⟩ := exists_ok_of_isOk (x := (request (.call (some "malloc") [])).build)
    (by decide +kernel)
  have hguards := request_guards .unchanged hb (by decide +kernel) (by decide +kernel)
  have hcall : ((request (.call (some "malloc") [])).build.toOption.map fun b =>
      (b.program.ir.callee? 6, (b.program.ir.function? 0).map (·.name), b.program.ir.operand? 6 0,
        b.program.ir.isConstant 2)) = some (some 0, some "malloc", some 2, false) := by
    decide +kernel
  have hnodes : ((request (.call (some "malloc") [])).build.toOption.map fun b =>
      (b.program.flow.def? 6, b.program.flow.def? 2,
        b.program.ir.allocates Settings.defaultAllocators 6,
        decide (5 ∈ (Taint.run (b.context .unchanged)).1.nodes))) =
      some (some 5, some 2, true, true) := by decide +kernel
  rw [hb] at hcall hnodes
  simp only [Except.toOption, Option.map_some, Option.some.injEq, Prod.mk.injEq,
    decide_eq_true_eq] at hcall hnodes
  obtain ⟨hcallee, hname, hoperand, hvaries⟩ := hcall
  obtain ⟨hn, hroot, halloc, htaint⟩ := hnodes
  obtain ⟨t, host, hl, ht⟩ := Snapshot.build_ok_iff.mp hb
  obtain ⟨_, _, hlink⟩ := Snapshot.link_ok_iff.mp hl
  obtain ⟨function, hf, hname⟩ := Option.map_eq_some_iff.mp hname
  obtain ⟨call, hc, hid, hreach, hoperands⟩ :=
    Ir.call_of_callee? (Built.ofTables_ok_iff.mp ht).sound host hcallee
  have hsize : 2 ∈ call.operands := List.mem_of_getElem? ((hoperands 0).symm.trans hoperand)
  have hallocator : function.name ∈ Settings.unchanged.rules.allocators := by
    rw [hname]
    decide +kernel
  have hflagged := allocator_call_flagged_iff ht .unchanged _ hc hreach hf hallocator hsize hvaries
    (hid ▸ hn) htaint
  refine ⟨b, hb, hguards, ?_⟩
  rw [hid, hlink.allocators] at hflagged
  intro hmem
  exact (hflagged.mp hmem).2 halloc 2 hsize hvaries 2 hroot hguards

theorem reserving_check :
    (Settings.Draft.onRules {} ({ · with allocators := ["reserve"] })).stages.check = .ok () :=
  Settings.Stages.check_of_isOk (by decide +kernel)

/-- The settings whose one allocator is `reserve`. -/
def reserving : Settings := ⟨_, reserving_check⟩

/-- With `reserve` an allocator of the settings but not of the program, the guarded request is flagged:
the size it asks for is not looked at. -/
theorem request_reserve_flagged : ∃ b, (request (.call (some "reserve") [])).build = .ok b ∧
    reserving.rules.allocators = ["reserve"] ∧
    b.program.ir.callee? 6 = some 1 ∧ (b.program.ir.function? 1).map (·.name) = some "reserve" ∧
    b.program.ir.operand? 6 0 = some 2 ∧ b.program.ir.isConstant 2 = false ∧
    b.program.flow.def? 6 = some 5 ∧ b.program.flow.def? 2 = some 2 ∧
    5 ∈ (Taint.run (b.context reserving)).1.nodes ∧
    BoundCheck.Guards (b.context reserving) 5 2 ∧
    6 ∈ ((Check.ofRule .unboundedAlloc).run (b.context reserving)
      (Taint.run (b.context reserving)).1).values := by
  obtain ⟨b, hb⟩ := exists_ok_of_isOk (x := (request (.call (some "reserve") [])).build)
    (by decide +kernel)
  have hguards := request_guards reserving hb (by decide +kernel) (by decide +kernel)
  have hcall : ((request (.call (some "reserve") [])).build.toOption.map fun b =>
      (b.program.ir.callee? 6, (b.program.ir.function? 1).map (·.name), b.program.ir.operand? 6 0,
        b.program.ir.isConstant 2)) = some (some 1, some "reserve", some 2, false) := by
    decide +kernel
  have hnodes : ((request (.call (some "reserve") [])).build.toOption.map fun b =>
      (b.program.flow.def? 6, b.program.flow.def? 2,
        decide (5 ∈ (Taint.run (b.context reserving)).1.nodes),
        ((Check.ofRule .unboundedAlloc).run (b.context reserving)
          (Taint.run (b.context reserving)).1).values)) =
      some (some 5, some 2, true, [6]) := by decide +kernel
  rw [hb] at hcall hnodes
  simp only [Except.toOption, Option.map_some, Option.some.injEq, Prod.mk.injEq,
    decide_eq_true_eq] at hcall hnodes
  obtain ⟨hcallee, hname, hoperand, hvaries⟩ := hcall
  obtain ⟨hn, hroot, htaint, hflagged⟩ := hnodes
  refine ⟨b, hb, rfl, hcallee, hname, hoperand, hvaries, hn, hroot, htaint, hguards, ?_⟩
  rw [hflagged]
  simp

end Rules

end PointerTriage
