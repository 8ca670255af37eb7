import PointerTriage.Proofs.Snapshot.Linking
import PointerTriage.Proofs.Taint.Closure
import PointerTriage.Proofs.ValueFlow.Flows

namespace PointerTriage

/-- An address computation whose operands from position `k` on are constants; the base is at 0. -/
def Ir.FixedFrom (ir : Ir) (k : Nat) (v : ValueId) : Prop :=
  ∃ value, ir.value? v = some value ∧ value.opcode? = some .getElementPtr ∧
    ∀ a ∈ value.operands.drop k, ir.isConstant a = true

theorem Ir.isConstantGep_iff {ir : Ir} {v : ValueId} :
    ir.isConstantGep v = true ↔ ir.FixedFrom 1 v := by
  unfold isConstantGep FixedFrom
  cases hv : ir.value? v with
  | none => simp
  | some value =>
    have ho : ir.opcode? v = value.opcode? := by simp [opcode?, hv]
    rw [ho]
    simp only [Option.some.injEq, exists_eq_left']
    split
    · rename_i hvalue hgep
      cases hvalue
      rw [List.all_eq_true, and_iff_right hgep]
    · rename_i hnot
      simp only [Bool.false_eq_true, false_iff]
      exact fun h => hnot value rfl h.1

theorem Ir.isRuntime_iff {ir : Ir} {v : ValueId} :
    ir.isRuntime v = true ↔ ir.isConstant v = false ∧ ¬ir.FixedFrom 1 v := by
  simp [isRuntime, ← isConstantGep_iff]

/-- All values but constants and branches define something. -/
theorem kind_of_runtime {ir : Ir} (allocators : List String) {v : ValueId} {value : Value}
    (hv : ir.value? v = some value) (hconst : ir.isConstant v = false)
    (hbranch : value.opcode? ≠ some .branch) :
    ∃ kind, ValueFlow.kindOf? ir allocators value = some kind := by
  cases hk : value.kind with
  | argument => simp [ValueFlow.kindOf?, hk]
  | global => simp [ValueFlow.kindOf?, hk]
  | constant c => simp [Ir.isConstant, Ir.constant?, hv, Value.constant?, hk] at hconst
  | instruction opcode block =>
    have ho : value.opcode? = some opcode := by simp [Value.opcode?, hk]
    exact kind_of_opcode ir allocators ho fun h => hbranch (ho.trans (congrArg some h))

namespace Built.Parts

variable {b : Built} {t : Tables} {host : HostFacts} (h : b.Parts t host)
include h

theorem def_of_runtime {v : ValueId} (hlt : v < b.program.ir.tables.values.size)
    (hconst : b.program.ir.isConstant v = false)
    (hbranch : b.program.ir.opcode? v ≠ some .branch) :
    ∃ n, b.program.flow.def? v = some n := by
  have hv : b.program.ir.value? v = some b.program.ir.tables.values[v] :=
    Array.getElem?_eq_getElem hlt
  have ho : b.program.ir.opcode? v = b.program.ir.tables.values[v].opcode? := by simp [Ir.opcode?, hv]
  obtain ⟨kind, hk⟩ := kind_of_runtime host.allocators hv hconst (ho ▸ hbranch)
  obtain ⟨n, hn, _⟩ := h.def_of_kind hv hk
  exact ⟨n, hn⟩

end Built.Parts

/-- `serve` reads into a buffer on its stack, from an index on. -/
def readInto (index : Snapshot.Operand) : Snapshot where
  globals := []
  functions := [
    ⟨"read", .int 64, [⟨"from", .int 32⟩, ⟨"into", .untyped⟩, ⟨"count", .int 64⟩], []⟩,
    ⟨"serve", .void, [⟨"at", .int 64⟩], [⟨"entry", [
      ⟨some "buffer", .alloca (.array (.int 8) 64), none, []⟩,
      ⟨some "cell", .gep, none, [.name "buffer", .int 0, index]⟩,
      ⟨some "got", .call (some "read") [], some (.int 64), [.int 0, .name "cell", .int 64]⟩,
      ⟨none, .ret, none, []⟩], []⟩]⟩]
  loops := []
  pointsTo := []
  flows := []
  allocators := none

namespace Taint

/-- What a call of an input function fills: arguments from some position on that are neither constants
nor at constant indices of their base. -/
theorem filled_of_call {b : Built} {t : Tables} {host : HostFacts} (h : b.Parts t host)
    (settings : Settings) {call : Value} (hc : call ∈ b.program.ir.values) {f : FunctionId}
    (hreach : host.MayReach call f) {function : Function}
    (hf : b.program.ir.function? f = some function) {input : Settings.InputFunction}
    (hinput : settings.taint.findInput? function.name = some input) {i : Nat} {a : ValueId}
    (hi : input.argStart ≤ i) (ha : call.operands[i]? = some a)
    (hconst : b.program.ir.isConstant a = false) (hfixed : ¬b.program.ir.FixedFrom 1 a) :
    Filled (b.context settings) a := by
  have hname := h.mem_calleeNames settings hc hreach hf
  obtain ⟨callee, ho, _⟩ := hreach
  obtain ⟨hsite, hargs, _⟩ := h.site hc ho
  rw [← hargs] at ha
  exact .mk hsite hname hinput hi ha (Ir.isRuntime_iff.mpr ⟨hconst, hfixed⟩)

/-- The node of an argument that an input function fills is a seed, and the objects that the argument
points to are tainted. Branches alone have no node. -/
theorem input_arguments_seeded {t : Tables} {host : HostFacts} {b : Built}
    (h : Built.ofTables t host = .ok b) (settings : Settings) {call : Value}
    (hc : call ∈ b.program.ir.values) {f : FunctionId} (hreach : host.MayReach call f)
    {function : Function} (hf : b.program.ir.function? f = some function)
    {input : Settings.InputFunction}
    (hinput : settings.taint.findInput? function.name = some input) {i : Nat} {a : ValueId}
    (hi : input.argStart ≤ i) (ha : call.operands[i]? = some a)
    (hconst : b.program.ir.isConstant a = false) (hfixed : ¬b.program.ir.FixedFrom 1 a) :
    (b.program.ir.opcode? a ≠ some .branch →
      ∃ n, b.program.flow.def? a = some n ∧ n ∈ (run (b.context settings)).1.seeds) ∧
    ∀ o ∈ b.pointsTo.objects a, o ∈ (run (b.context settings)).1.objects := by
  have hparts := Built.ofTables_ok_iff.mp h
  have hfilled := filled_of_call hparts settings hc hreach hf hinput hi ha hconst hfixed
  refine ⟨?_, (run_closed (regular hparts settings)).filled a hfilled⟩
  intro hbranch
  have hlt := hparts.sound.operand call (Array.mem_toList_iff.mp hc) a (List.mem_of_getElem? ha)
  obtain ⟨n, hn⟩ := hparts.def_of_runtime hlt hconst hbranch
  exact ⟨n, hn, IdSet.mem_ofList.mpr (mem_seedNodes.mpr ⟨a, .filled hfilled, hn⟩)⟩

/-- At the index that a parameter gives, the read fills the buffer. -/
theorem readInto_variable_seeded : ∃ b, (readInto (.name "at")).build = .ok b ∧
    (∃ n, b.program.flow.def? 5 = some n ∧ n ∈ (run (b.context .unchanged)).1.seeds) ∧
    0 ∈ b.pointsTo.objects 5 ∧
    ∀ o ∈ b.pointsTo.objects 5, o ∈ (run (b.context .unchanged)).1.objects := by
  obtain ⟨b, hb⟩ := exists_ok_of_isOk (x := (readInto (.name "at")).build) (by decide +kernel)
  have hcall : ((readInto (.name "at")).build.toOption.map fun b =>
      (b.program.ir.callee? 6, b.program.ir.operand? 6 1, (b.program.ir.function? 0).map (·.name))) =
      some (some 0, some 5, some "read") := by decide +kernel
  have hcell : ((readInto (.name "at")).build.toOption.map fun b =>
      (b.program.ir.isRuntime 5, (b.program.ir.opcode? 5).map (·.mnemonic), b.pointsTo.objects 5)) =
      some (true, some "getelementptr", .ofList [0]) := by decide +kernel
  rw [hb] at hcall hcell
  simp only [Except.toOption, Option.map_some, Option.some.injEq, Prod.mk.injEq] at hcall hcell
  obtain ⟨hcallee, hoperand, hname⟩ := hcall
  obtain ⟨hruntime, hmnemonic, hobjects⟩ := hcell
  obtain ⟨t, host, _, ht⟩ := Snapshot.build_ok_iff.mp hb
  obtain ⟨call, hc, _, hreach, hoperands⟩ :=
    Ir.call_of_callee? (Built.ofTables_ok_iff.mp ht).sound host hcallee
  have ha : call.operands[1]? = some 5 := (hoperands 1).symm.trans hoperand
  obtain ⟨function, hf, hname⟩ := Option.map_eq_some_iff.mp hname
  obtain ⟨hconst, hfixed⟩ := Ir.isRuntime_iff.mp hruntime
  have hinput : Settings.unchanged.taint.findInput? function.name = some ⟨"read", 0, false⟩ := by
    rw [hname]
    decide +kernel
  obtain ⟨hseed, htaint⟩ := input_arguments_seeded ht .unchanged hc hreach hf hinput
    (Nat.zero_le 1) ha hconst hfixed
  refine ⟨b, hb, hseed ?_, by simp [hobjects, IdSet.mem_ofList], htaint⟩
  intro hbranch
  simp [hbranch, Opcode.mnemonic] at hmnemonic

/-- At a constant index nothing is filled, though the buffer that the address is computed from is not a
constant: the address is no seed, and nothing is tainted. -/
theorem readInto_constant_not_seeded : ∃ t host b, (readInto (.int 0)).link = .ok (t, host) ∧
    Built.ofTables t host = .ok b ∧
    (∃ call ∈ b.program.ir.values, host.MayReach call 0 ∧ call.operands[1]? = some 5) ∧
    (b.program.ir.function? 0).map (·.name) = some "read" ∧
    Settings.unchanged.taint.findInput? "read" = some ⟨"read", 0, false⟩ ∧
    b.program.ir.isConstant 5 = false ∧ ¬b.program.ir.FixedFrom 0 5 ∧
    b.program.flow.def? 5 = some 5 ∧ 5 ∉ (run (b.context .unchanged)).1.seeds ∧
    0 ∈ b.pointsTo.objects 5 ∧ 0 ∉ (run (b.context .unchanged)).1.objects := by
  obtain ⟨b, hb⟩ := exists_ok_of_isOk (x := (readInto (.int 0)).build) (by decide +kernel)
  have hcall : ((readInto (.int 0)).build.toOption.map fun b =>
      (b.program.ir.callee? 6, b.program.ir.operand? 6 1, (b.program.ir.function? 0).map (·.name))) =
      some (some 0, some 5, some "read") := by decide +kernel
  have hcell : ((readInto (.int 0)).build.toOption.map fun b =>
      (b.program.ir.isConstant 5, b.program.ir.operand? 5 0, b.program.ir.isConstant 4,
        b.program.flow.def? 5, b.pointsTo.objects 5)) =
      some (false, some 4, false, some 5, .ofList [0]) := by decide +kernel
  have htaint : ((readInto (.int 0)).build.toOption.map fun b =>
      (run (b.context .unchanged)).1) = some ⟨∅, ∅, ∅, ∅⟩ := by decide +kernel
  rw [hb] at hcall hcell htaint
  simp only [Except.toOption, Option.map_some, Option.some.injEq, Prod.mk.injEq] at hcall hcell htaint
  obtain ⟨hcallee, hoperand, hname⟩ := hcall
  obtain ⟨hconst, hbase, hvaries, hdef, hobjects⟩ := hcell
  obtain ⟨t, host, hl, ht⟩ := Snapshot.build_ok_iff.mp hb
  have hfixed : ¬b.program.ir.FixedFrom 0 5 := by
    intro hex
    obtain ⟨value, hv, _, hall⟩ := hex
    have hmem : 4 ∈ value.operands.drop 0 := by
      rw [Ir.operand?, hv] at hbase
      exact List.mem_of_getElem? hbase
    rw [hall 4 hmem] at hvaries
    cases hvaries
  obtain ⟨call, hc, _, hreach, hoperands⟩ :=
    Ir.call_of_callee? (Built.ofTables_ok_iff.mp ht).sound host hcallee
  refine ⟨t, host, b, hl, ht, ⟨call, hc, hreach, (hoperands 1).symm.trans hoperand⟩, hname,
    by decide +kernel, hconst, hfixed, hdef, ?_⟩
  rw [htaint, hobjects]
  simp [IdSet.mem_ofList]

end Taint

end PointerTriage
