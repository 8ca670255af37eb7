import PointerTriage.Proofs.Graph.Reachability
import PointerTriage.Proofs.PointsTo.Derivation
import PointerTriage.Proofs.Snapshot.Scopes
import PointerTriage.Proofs.ValueFlow.Flows

namespace PointerTriage

/-- The value is a parameter of a function without a body. -/
def Ir.IsDeclared (ir : Ir) (v : ValueId) : Prop :=
  ∃ f ∈ ir.functions, f.isDeclaration = true ∧ v ∈ f.params

/-- The definition of the value is reached from the definition that allocates the object. -/
def Built.Traced (b : Built) (v : ValueId) (o : ObjectId) : Prop :=
  ∃ site n m, b.pointsTo.site? o = some site ∧ b.program.flow.def? site = some n ∧
    b.program.flow.def? v = some m ∧ m ∈ b.program.flow.forwardClosure [n]

namespace PointsTo

/-- A points-to fact is traced to the value, and what an object holds to a store into it. Parameters of
declarations have no trace, since no value flows to them. -/
def Judgement.Traced (b : Built) : Judgement → Prop
  | .points v o => ¬b.program.ir.IsDeclared v → b.Traced v o
  | .keeps t o => ∃ store ∈ b.program.ir.values, store.opcode? = some .store ∧
      ∃ p, store.operands[1]? = some p ∧ t ∈ b.pointsTo.objects p ∧ b.Traced store.id o

variable {b : Built} {t : Tables} {host : HostFacts} (h : b.Parts t host)
include h

theorem traced_own {s : ValueId} {o : ObjectId}
    (hs : (allocationSites b.program.ir host.allocators)[o]? = some s) : b.Traced s o := by
  have hsite : b.pointsTo.site? o = some s := by rw [h.pointsTo, site?_solve h.sound, hs]
  obtain ⟨value, hm, rfl⟩ := List.mem_map.mp (List.mem_of_getElem? hs)
  obtain ⟨hv, hallocates⟩ := List.mem_filter.mp hm
  obtain ⟨value', hv', hk⟩ := kind_of_allocates h.sound hallocates
  obtain ⟨n, hn, _⟩ := h.def_of_kind hv' hk
  refine ⟨value.id, n, n, hsite, hn, hn, Graph.seed_mem_reach (List.mem_singleton_self n) ?_⟩
  exact List.mem_range.mpr (ValueFlow.lt_of_def? hn)

/-- A trace goes on along a flow into a definition. -/
theorem traced_of_flow {kind : ValueFlow.EdgeKind} {a v : ValueId} {o : ObjectId}
    (ha : b.Traced a o) (hflow : ValueFlow.Flow b.program.ir host b.pointsTo kind a v)
    (hv : ∃ m, b.program.flow.def? v = some m) : b.Traced v o := by
  obtain ⟨site, n, m, hsite, hn, hm, hreach⟩ := ha
  obtain ⟨m', hm'⟩ := hv
  have he : ⟨m, m', kind⟩ ∈ b.program.flow.edges := h.mem_edges.mpr ⟨a, v, hflow, hm, hm'⟩
  have hnext : m' ∈ b.program.flow.successors .all m :=
    Graph.mem_outOf.mpr ⟨_, he, rfl, rfl, rfl⟩
  refine ⟨site, n, m', hsite, hn, hm', Graph.reach_closed hreach hnext ?_⟩
  exact List.mem_range.mpr (ValueFlow.lt_of_def? hm')

theorem traced_operand {v : Value} (hv : v ∈ b.program.ir.values) {opcode : Opcode}
    (ho : v.opcode? = some opcode) (hc : opcode.isCall = false) (hb : opcode ≠ .branch)
    {a : ValueId} (ha : a ∈ v.operands) {o : ObjectId} (htrace : b.Traced a o) :
    b.Traced v.id o :=
  traced_of_flow h htrace (.operand hv ho hc ha) (h.def_of_opcode hv ho hb)

section

variable {s : Snapshot} (hl : s.link = .ok (t, host))
include hl

theorem not_isDeclared_of_operand {v : Value} (hv : v ∈ b.program.ir.values) {a : ValueId}
    (ha : a ∈ v.operands) : ¬b.program.ir.IsDeclared a := by
  obtain ⟨ht, hsound⟩ := Ir.ofTables_ok h.ir
  intro hex
  obtain ⟨f, hf, hd, hp⟩ := hex
  refine (Snapshot.scoped_of_link hl hsound).operand v ?_ a ha f ?_ hd hp
  · exact ht ▸ Array.mem_toList_iff.mp hv
  · exact ht ▸ Array.mem_toList_iff.mp hf

theorem body_of_returnsFrom {r : Value} {f : FunctionId} (hr : b.program.ir.ReturnsFrom r f) :
    ∃ function, b.program.ir.function? f = some function ∧ function.isDeclaration = false := by
  obtain ⟨ht, hsound⟩ := Ir.ofTables_ok h.ir
  obtain ⟨block, home, _, hhome, rfl⟩ := hr
  obtain ⟨function, hf, hd⟩ :=
    (Snapshot.scoped_of_link hl hsound).owner home (ht ▸ Array.mem_of_getElem? hhome)
  refine ⟨function, ?_, hd⟩
  unfold Ir.function?
  rw [ht]
  exact hf

/-- Without facts of the host, every derived fact is traced. -/
theorem traced_of_derives (hfacts : host.pointsTo = []) {j : Judgement}
    (hj : Derives b.program.ir host j) : j.Traced b := by
  have hpoints : ∀ {v o}, Derives b.program.ir host (.points v o) → o ∈ b.pointsTo.objects v := by
    intro v o hd
    rw [h.pointsTo]
    exact (mem_solve_iff h.sound).mpr hd
  induction hj with
  | own hsite => exact fun _ => traced_own h hsite
  | fact known => simp [hfacts] at known
  | base hv opcode operand _ ha =>
    intro _
    have hm := List.mem_of_head? operand
    have htrace := ha (not_isDeclared_of_operand h hl hv hm)
    rcases opcode with ho | ho
    · exact traced_operand h hv ho rfl nofun hm htrace
    · exact traced_operand h hv ho rfl nofun hm htrace
  | phi hv opcode operand _ ha =>
    intro _
    exact traced_operand h hv opcode rfl nofun operand
      (ha (not_isDeclared_of_operand h hl hv operand))
  | @argument call f function i a p o hc calls callee argument param _ ha =>
    intro hp
    have hf : function ∈ b.program.ir.functions :=
      Array.mem_toList_iff.mpr (Array.mem_of_getElem? callee)
    have hm : p ∈ function.params := List.mem_of_getElem? param
    have hbody : function.isDeclaration = false := by
      by_contra hd
      exact hp ⟨function, hf, by simpa using hd, hm⟩
    have htrace := ha (not_isDeclared_of_operand h hl hc (List.mem_of_getElem? argument))
    exact traced_of_flow h htrace (.argument hc calls callee hbody argument param)
      (h.def_of_param hl hf hm)
  | @result call r f a o hc calls hr returns operand _ ha =>
    intro _
    -- What is returned flows to the `ret`, and the `ret` to the call.
    have hret : r.opcode? = some .ret := by
      obtain ⟨block, home, hk, _⟩ := returns
      simp [Value.opcode?, hk]
    have hm := List.mem_of_head? operand
    have htrace := traced_operand h hr hret rfl nofun hm
      (ha (not_isDeclared_of_operand h hl hr hm))
    obtain ⟨function, hf, hbody⟩ := body_of_returnsFrom h hl returns
    obtain ⟨callee, ho, _⟩ := calls.2
    exact traced_of_flow h htrace (.result hc calls hf hbody hr returns)
      (h.def_of_opcode hc ho nofun)
  | @store v a p rest t o hv opcode operands hp _ _ ha =>
    have hm : a ∈ v.operands := by simp [operands]
    have htrace := ha (not_isDeclared_of_operand h hl hv hm)
    refine ⟨v, hv, opcode, p, by simp [operands], hpoints hp, ?_⟩
    exact traced_operand h hv opcode rfl nofun hm htrace
  | @load v q t o hv opcode operand hp _ _ ht =>
    intro _
    -- The pointer of the store and that of the load have the object in common.
    obtain ⟨store, hs, stores, p, target, hobject, htrace⟩ := ht
    have halias : b.pointsTo.mayAlias p q = true := IdSet.meets_iff.mpr ⟨t, hobject, hpoints hp⟩
    rw [List.head?_eq_getElem?] at operand
    exact traced_of_flow h htrace (.memory hs stores target hv opcode operand halias)
      (h.def_of_opcode hv opcode nofun)

end

end PointsTo

/-- Without points-to facts of the host, what a value may point to is allocated where the value comes
from: the definition of the value is reached from that of the allocation. Only parameters of functions
without a body are exempt. -/
theorem Snapshot.points_to_traced {s : Snapshot} (hs : s.pointsTo = []) {b : Built}
    (hb : s.build = .ok b) {v : ValueId}
    (hv : ∀ f ∈ b.program.ir.functions, f.isDeclaration = true → v ∉ f.params)
    {o : ObjectId} (ho : o ∈ b.pointsTo.objects v) :
    ∃ site n m, b.pointsTo.site? o = some site ∧ b.program.flow.def? site = some n ∧
      b.program.flow.def? v = some m ∧ m ∈ b.program.flow.forwardClosure [n] := by
  obtain ⟨t, host, hl, hparts⟩ := Snapshot.build_ok_iff.mp hb
  have h := Built.ofTables_ok_iff.mp hparts
  have hfacts : host.pointsTo = [] := by
    obtain ⟨_, _, hlink⟩ := Snapshot.link_ok_iff.mp hl
    simpa [hs] using except_mapM_ok_iff.mp hlink.pointsTo
  rw [h.pointsTo] at ho
  have hderives := (PointsTo.mem_solve_iff h.sound).mp ho
  refine PointsTo.traced_of_derives h hl hfacts hderives ?_
  intro hex
  obtain ⟨f, hf, hd, hp⟩ := hex
  exact hv f hf hd hp

/-- `main` puts the address of `buffer` in `slot`, and `fetch` takes it out again. -/
def mailbox : Snapshot where
  globals := [⟨"buffer", .int 64, false⟩]
  functions := [
    ⟨"fetch", .untyped, [⟨"p", .untyped⟩], [⟨"entry", [
      ⟨some "x", .load, none, [.name "p"]⟩,
      ⟨none, .ret, none, [.name "x"]⟩], []⟩]⟩,
    ⟨"main", .void, [], [⟨"entry", [
      ⟨some "slot", .alloca .untyped, none, []⟩,
      ⟨none, .store, none, [.name "buffer", .name "slot"]⟩,
      ⟨some "got", .call (some "fetch") [], none, [.name "slot"]⟩,
      ⟨none, .ret, none, []⟩], []⟩]⟩]
  loops := []
  pointsTo := []
  flows := []
  allocators := none

/-- What the call of `fetch` gives points to `buffer`. -/
theorem Snapshot.mailbox_traced : mailbox.pointsTo = [] ∧ ∃ b, mailbox.build = .ok b ∧
    (∀ f ∈ b.program.ir.functions, f.isDeclaration = true → 6 ∉ f.params) ∧
    0 ∈ b.pointsTo.objects 6 ∧
    ∃ site n m, b.pointsTo.site? 0 = some site ∧ b.program.flow.def? site = some n ∧
      b.program.flow.def? 6 = some m ∧ m ∈ b.program.flow.forwardClosure [n] := by
  obtain ⟨b, hb⟩ := exists_ok_of_isOk (x := mailbox.build) (by decide +kernel)
  have heval : (mailbox.build.toOption.map fun b =>
      (b.program.ir.functions.map Function.isDeclaration, (b.pointsTo.objects 6).toList)) =
      some ([false, false], [0]) := by decide +kernel
  rw [hb] at heval
  obtain ⟨hbodies, hobjects⟩ := Prod.mk.inj (Option.some.inj heval)
  have hv : ∀ f ∈ b.program.ir.functions, f.isDeclaration = true → 6 ∉ f.params := by
    intro f hf hd
    have hm := List.mem_map_of_mem (f := Function.isDeclaration) hf
    simp [hbodies, hd] at hm
  have ho : 0 ∈ b.pointsTo.objects 6 := by simp [IdSet.mem_def, hobjects]
  exact ⟨rfl, b, hb, hv, ho, points_to_traced rfl hb hv ho⟩

end PointerTriage
