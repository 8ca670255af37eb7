import Mathlib.Data.List.Nodup
import PointerTriage.Proofs.Outcome.Order

namespace PointerTriage

/-- The address of a variable that is never written. -/
def Ir.isConstantGlobal (ir : Ir) (v : ValueId) : Bool :=
  match (ir.value? v).map Value.kind with
  | some (.global _ true) => true
  | _ => false

theorem Program.mem_dataPointers {p : Program} {v : ValueId} :
    v ∈ p.dataPointers ↔ (∃ n, p.flow.node? n = some ⟨.addr, v⟩) ∧
      p.ir.isConstantGlobal v = false ∧ (p.ir.allocated? v).any Shape.isDataPointer = true := by
  have hnode : (∃ n, p.flow.node? n = some ⟨.addr, v⟩) ↔ ⟨.addr, v⟩ ∈ p.flow.nodes :=
    Array.mem_iff_getElem?.symm
  rw [hnode]
  unfold dataPointers
  rw [List.mem_filter, Bool.and_eq_true, Bool.not_eq_true']
  refine and_congr ?_ Iff.rfl
  simp only [List.mem_map, List.mem_filter, Array.mem_toList_iff, beq_iff_eq]
  constructor
  · intro hex
    obtain ⟨⟨_, _⟩, ⟨hm, rfl⟩, rfl⟩ := hex
    exact hm
  · exact fun hm => ⟨⟨.addr, v⟩, ⟨hm, rfl⟩, rfl⟩

theorem Program.allocated?_eq_some_iff {p : Program} {n : NodeId} {shape : Shape} :
    p.allocated? n = some shape ↔
      ∃ v, p.flow.node? n = some ⟨.addr, v⟩ ∧ p.ir.allocated? v = some shape := by
  unfold allocated?
  split
  · rename_i v hn
    simp [hn]
  · rename_i hn
    simp only [reduceCtorEq, false_iff]
    intro hex
    obtain ⟨v, hv, _⟩ := hex
    exact hn v hv

namespace Taint

theorem mem_flagged {t : Taint} {p : Program} {v : ValueId} :
    v ∈ t.flagged p ↔ ∃ n ∈ t.allocations, p.flow.node? n = some ⟨.addr, v⟩ ∧
      (p.ir.allocated? v).any Shape.isDataPointer = true := by
  have hdata : ∀ n, (p.allocated? n).any Shape.isDataPointer = true ↔
      ∃ w, p.flow.node? n = some ⟨.addr, w⟩ ∧
        (p.ir.allocated? w).any Shape.isDataPointer = true := by
    intro n
    simp only [Option.any_eq_true, Program.allocated?_eq_some_iff]
    grind
  unfold flagged
  rw [List.mem_filterMap]
  constructor
  · intro hex
    obtain ⟨n, hn, hv⟩ := hex
    obtain ⟨hn, hpointer⟩ := List.mem_filter.mp hn
    obtain ⟨w, hw, hpointer⟩ := (hdata n).mp hpointer
    rw [ValueFlow.value?, hw] at hv
    cases hv
    exact ⟨n, hn, hw, hpointer⟩
  · intro hex
    obtain ⟨n, hn, hv, hpointer⟩ := hex
    exact ⟨n, List.mem_filter.mpr ⟨hn, (hdata n).mpr ⟨v, hv, hpointer⟩⟩, by simp [ValueFlow.value?, hv]⟩

/-- A tainted data pointer is counted as a data pointer unless it is a constant variable. -/
theorem mem_dataPointers_of_flagged {t : Taint} {p : Program} {v : ValueId} (h : v ∈ t.flagged p) :
    v ∈ p.dataPointers ↔ p.ir.isConstantGlobal v = false := by
  obtain ⟨n, _, hn, hpointer⟩ := mem_flagged.mp h
  rw [Program.mem_dataPointers]
  exact ⟨fun hv => hv.2.1, fun hv => ⟨⟨n, hn⟩, hv, hpointer⟩⟩

theorem nodup_flagged {p : Program} (hd : p.flow.Distinct) (t : Taint) : (t.flagged p).Nodup := by
  refine List.Nodup.filterMap ?_ (List.Nodup.filter _ (t.allocations.ascending.imp Nat.ne_of_lt))
  intro n n' v hn hn'
  obtain ⟨node, hnode, hv⟩ := Option.map_eq_some_iff.mp hn
  obtain ⟨node', hnode', hv'⟩ := Option.map_eq_some_iff.mp hn'
  have hdef := hd.def?_of_node hnode
  rw [hv, ← hv', hd.def?_of_node hnode'] at hdef
  exact (Option.some.inj hdef).symm

end Taint

theorem Program.nodup_dataPointers {p : Program} (hd : p.flow.Distinct) : p.dataPointers.Nodup :=
  List.Nodup.filter _ (List.pairwise_map.mpr (List.Pairwise.filter _ hd))

namespace Outcome

theorem nodup_accesses (r : Ranking) (ir : Ir) (protection : Settings.Protection) :
    ((r.accessesToProtect ir protection).map Prod.fst).Nodup := by
  have hentries : ∀ m : IdMap Access, (m.entries.map Prod.fst).Nodup := by
    intro m
    exact List.pairwise_map.mpr (m.ascending.imp Nat.ne_of_lt)
  cases protection with
  | none => exact List.nodup_nil
  | full => exact hentries _
  | prioritized => exact hentries _

/-- Every access is a load or a store. -/
theorem loads_add_stores (o : Outcome) :
    o.protectedLoads + o.protectedStores = o.accesses.length := by
  have hstore : ∀ a : ValueId × Access, (!(a.2 == .load)) = (a.2 == .store) := by
    rintro ⟨_, _ | _⟩ <;> rfl
  unfold protectedLoads protectedStores
  rw [← List.filter_congr fun a _ => hstore a]
  exact (List.length_eq_length_filter_add _).symm

/-- The numbers of an outcome agree with one another and with what they count. -/
structure Consistent (o : Outcome) (p : Program) : Prop where
  inputDependent : o.inputDependent = (o.taint.flagged p).length ∧ (o.taint.flagged p).Nodup
  dataPointers : o.dataPointers = p.dataPointers.length ∧ p.dataPointers.Nodup
  counted : ∀ v ∈ o.taint.flagged p, v ∈ p.dataPointers ↔ p.ir.isConstantGlobal v = false
  bound : o.inputDependent ≤
    o.dataPointers + ((o.taint.flagged p).filter p.ir.isConstantGlobal).length
  selected : o.ranking.selected.length ≤ o.ranking.ranked.length
  accesses : o.protectedLoads + o.protectedStores = o.accesses.length ∧
    (o.accesses.map Prod.fst).Nodup

/-- The outcome of a run is consistent. More input-dependent data pointers than data pointers come
from constant variables only. -/
theorem consistent_of_run {t : Tables} {host : HostFacts} {b : Built}
    (h : Built.ofTables t host = .ok b) (settings : Settings) (checks : List Rules.Check) :
    (run (b.context settings) checks).Consistent b.program := by
  have hd := (Built.ofTables_ok_iff.mp h).distinct
  have hflagged := Taint.nodup_flagged hd (Taint.run (b.context settings)).1
  constructor
  case inputDependent => exact ⟨rfl, hflagged⟩
  case dataPointers => exact ⟨rfl, Program.nodup_dataPointers hd⟩
  case counted => exact fun v hv => Taint.mem_dataPointers_of_flagged hv
  case bound =>
    let flagged := (Taint.run (b.context settings)).1.flagged b.program
    let isConstant := b.program.ir.isConstantGlobal
    have hvariable : (flagged.filter (!isConstant ·)).length ≤ b.program.dataPointers.length := by
      refine (hflagged.filter _).length_le_of_subset ?_
      intro v hv
      obtain ⟨hv, hconstant⟩ := List.mem_filter.mp hv
      exact (Taint.mem_dataPointers_of_flagged hv).mpr (by simpa using hconstant)
    change flagged.length ≤ b.program.dataPointers.length + (flagged.filter isConstant).length
    have hsplit := flagged.length_eq_length_filter_add isConstant
    omega
  case selected => exact List.length_take_le' _ _
  case accesses => exact ⟨loads_add_stores _, nodup_accesses _ _ _⟩

/-- In `dispatch` the variable 0 is the one data pointer, and it depends on input. -/
theorem consistent_dispatch : ∃ b, dispatch.build = .ok b ∧
    (run (b.context .unchanged) (Rules.checks .unchanged)).Consistent b.program ∧
    (run (b.context .unchanged) (Rules.checks .unchanged)).taint.flagged b.program = [0] ∧
    b.program.ir.isConstantGlobal 0 = false ∧ b.program.dataPointers = [0] := by
  obtain ⟨b, hb⟩ := exists_ok_of_isOk (x := dispatch.build) (by decide +kernel)
  obtain ⟨_, _, _, htables⟩ := Snapshot.build_ok_iff.mp hb
  have hvalues : (dispatch.build.toOption.map fun b =>
      ((Taint.run (b.context .unchanged)).1.flagged b.program,
        b.program.ir.isConstantGlobal 0, b.program.dataPointers)) = some ([0], false, [0]) := by
    decide +kernel
  rw [hb] at hvalues
  simp only [Except.toOption, Option.map_some, Option.some.injEq, Prod.mk.injEq] at hvalues
  exact ⟨b, hb, consistent_of_run htables .unchanged (Rules.checks .unchanged), hvalues⟩

end Outcome

/-- `main` looks up an element of a constant table. -/
def lookupTable : Snapshot where
  globals := [⟨"table", .array (.int 8) 16, true⟩]
  functions := [⟨"main", .void, [⟨"index", .int 64⟩], [⟨"entry", [
    ⟨some "cell", .gep, none, [.name "table", .name "index"]⟩,
    ⟨none, .ret, none, []⟩], []⟩]⟩]
  loops := []
  pointsTo := []
  flows := []
  allocators := none

/-- A constant table that input indexes depends on input and is no data pointer that counts. -/
theorem Outcome.lookupTable_not_counted : ∃ b, lookupTable.build = .ok b ∧
    (run (b.context .unchanged) (Rules.checks .unchanged)).inputDependent = 1 ∧
    (run (b.context .unchanged) (Rules.checks .unchanged)).dataPointers = 0 ∧
    (run (b.context .unchanged) (Rules.checks .unchanged)).taint.flagged b.program = [0] ∧
    0 ∉ b.program.dataPointers := by
  obtain ⟨b, hb⟩ := exists_ok_of_isOk (x := lookupTable.build) (by decide +kernel)
  have hvalues : (lookupTable.build.toOption.map fun b =>
      ((Taint.run (b.context .unchanged)).1.flagged b.program, b.program.dataPointers)) =
      some ([0], []) := by decide +kernel
  rw [hb] at hvalues
  simp only [Except.toOption, Option.map_some, Option.some.injEq, Prod.mk.injEq] at hvalues
  obtain ⟨hflagged, hpointers⟩ := hvalues
  refine ⟨b, hb, ?_, ?_, hflagged, by simp [hpointers]⟩
  · exact congrArg List.length hflagged
  · exact congrArg List.length hpointers

end PointerTriage
