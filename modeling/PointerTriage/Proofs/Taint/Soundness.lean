import PointerTriage.Proofs.PointsTo.Derivation
import PointerTriage.Proofs.Snapshot.Linking
import PointerTriage.Proofs.Taint.Closure
import PointerTriage.Proofs.ValueFlow.Flows

namespace PointerTriage

namespace Taint

/-- The object is tainted and the definition that allocates it is reported. -/
def Exposed (b : Built) (taint : Taint) (o : ObjectId) : Prop :=
  o ∈ taint.objects ∧ ∃ site n, b.pointsTo.site? o = some site ∧
    b.program.flow.def? site = some n ∧ n ∈ taint.allocations

/-- No flow of the program leads out of what is tainted. -/
structure CoversFlows (b : Built) (host : HostFacts) (settings : Settings) (taint : Taint) : Prop where
  operand : ∀ v ∈ b.program.ir.values, ∀ opcode, v.opcode? = some opcode → opcode.isCall = false →
    (b.program.flow.def? v.id).isSome → ∀ a ∈ v.operands,
    taint.isValueTainted b.program a → taint.isValueTainted b.program v.id
  argument : ∀ call ∈ b.program.ir.values, ∀ f, b.program.ir.Calls host call f →
    ∀ function, b.program.ir.function? f = some function → function.isDeclaration = false →
    ∀ (i : Nat) (a p : ValueId), call.operands[i]? = some a → function.params[i]? = some p →
    taint.isValueTainted b.program a → taint.isValueTainted b.program p
  result : ∀ call ∈ b.program.ir.values, ∀ f, b.program.ir.Calls host call f →
    ∀ function, b.program.ir.function? f = some function → function.isDeclaration = false →
    ∀ r ∈ b.program.ir.values, b.program.ir.ReturnsFrom r f →
    taint.isValueTainted b.program r.id → taint.isValueTainted b.program call.id
  call : ∀ call ∈ b.program.ir.values, ∀ callee, call.opcode? = some (.call callee) →
    ∀ a ∈ call.operands, taint.isValueTainted b.program a → taint.isValueTainted b.program call.id
  store : ∀ store ∈ b.program.ir.values, store.opcode? = some .store →
    ∀ a p rest, store.operands = a :: p :: rest → taint.isValueTainted b.program a →
    ∀ o ∈ b.pointsTo.objects p, Exposed b taint o
  load : ∀ store ∈ b.program.ir.values, store.opcode? = some .store →
    ∀ a p rest, store.operands = a :: p :: rest → taint.isValueTainted b.program a →
    ∀ load ∈ b.program.ir.values, load.opcode? = some .load →
    ∀ q, load.operands.head? = some q →
    b.pointsTo.mayAlias p q ∨ (p = q ∧ (b.program.flow.def? p).isSome) →
    taint.isValueTainted b.program load.id
  copy : ∀ call ∈ b.program.ir.values, ∀ f, host.MayReach call f →
    ∀ function, b.program.ir.function? f = some function →
    ∀ copies, settings.taint.findCopy? function.name = some copies →
    ∀ src dst, call.operands[copies.srcArg]? = some src → call.operands[copies.dstArg]? = some dst →
    taint.isValueTainted b.program src ∨ (∃ o ∈ b.pointsTo.objects src, o ∈ taint.objects) →
    ∀ o ∈ b.pointsTo.objects dst, Exposed b taint o

end Taint

namespace Built.Parts

variable {b : Built} {t : Tables} {host : HostFacts} (h : b.Parts t host)
include h

/-- An object that is pointed to comes from a definition that allocates. -/
theorem def_of_object {v : ValueId} {o : ObjectId} (ho : o ∈ b.pointsTo.objects v) :
    ∃ site n, b.pointsTo.site? o = some site ∧ b.program.flow.def? site = some n ∧
      b.program.flow.kind? n = some .addr := by
  rw [h.pointsTo] at ho ⊢
  obtain ⟨site, hsite, hallocates⟩ := PointsTo.site_of_mem_solve h.sound ho
  obtain ⟨value, hv, hk⟩ := kind_of_allocates h.sound hallocates
  obtain ⟨n, hn, hnode⟩ := h.def_of_kind hv hk
  refine ⟨site, n, hsite, hn, ?_⟩
  rw [ValueFlow.kind?, hnode]
  rfl

end Built.Parts

namespace Taint

variable {b : Built} {t : Tables} {host : HostFacts} {settings : Settings}

theorem isValueTainted_iff (settings : Settings) {taint : Taint} {v : ValueId} :
    taint.isValueTainted b.program v = true ↔
      Reached (b.context settings) (· ∈ taint.nodes) v := by
  simp [isValueTainted, Reached, Context.def?, Context.flow, Built.context, Option.any_eq_true]

section

variable {nodes : NodeId → Prop} {objects : ObjectId → Prop}
  (hclosed : Closed (b.context settings) nodes objects) (h : b.Parts t host)
include hclosed h

/-- Along a flow into a definition, taint is passed on. -/
theorem Closed.reached_of_flow {kind : ValueFlow.EdgeKind} {a v : ValueId} {n : NodeId}
    (hflow : ValueFlow.Flow b.program.ir host b.pointsTo kind a v)
    (hn : b.program.flow.def? v = some n) (ha : Reached (b.context settings) nodes a) :
    Reached (b.context settings) nodes v := by
  obtain ⟨m, hm, hnode⟩ := ha
  have he : ⟨m, n, kind⟩ ∈ b.program.flow.edges := h.mem_edges.mpr ⟨a, v, hflow, hm, hn⟩
  exact ⟨n, hn, hclosed.flow _ he hnode⟩

/-- A store of a tainted value is tainted, and with it where it stores to and what that points to. -/
theorem Closed.holds_of_store {store : Value} (hs : store ∈ b.program.ir.values)
    (ho : store.opcode? = some .store) {a p : ValueId} {rest : List ValueId}
    (hops : store.operands = a :: p :: rest) (ha : Reached (b.context settings) nodes a) :
    Reached (b.context settings) nodes store.id ∧ HoldsNode (b.context settings) nodes p ∧
      HoldsObjects (b.context settings) objects p := by
  have hv := h.sound.value?_of_mem hs
  obtain ⟨block, hk⟩ := opcode_kind ho
  have hkind : ValueFlow.kindOf? b.program.ir host.allocators store = some .store := by
    simp [ValueFlow.kindOf?, hk]
  obtain ⟨n, hn, hnode⟩ := h.def_of_kind hv hkind
  have hflow : ValueFlow.Flow b.program.ir host b.pointsTo .direct a store.id :=
    .operand hs ho rfl (by simp [hops])
  have hstore := hclosed.reached_of_flow h hflow hn ha
  refine ⟨hstore, ?_⟩
  obtain ⟨m, hm, hreached⟩ := hstore
  have hmn : m = n := Option.some.inj (hm.symm.trans hn)
  have hop : b.program.ir.operand? store.id 1 = some p := by simp [Ir.operand?, hv, hops]
  exact hclosed.store n store.id p (hmn ▸ hreached) hnode hop

end

section

variable (h : b.Parts t host)
include h

/-- A tainted object is exposed: something points to it, so that it has a site, and the propagation ends
only when that is tainted too. -/
theorem exposed_of_tainted {o : ObjectId} (ho : o ∈ (run (b.context settings)).1.objects) :
    Exposed b (run (b.context settings)).1 o := by
  have hr := regular h settings
  obtain ⟨v, _, hv⟩ := object_mem_possible.mp ((run_within hr (possible_closed hr)).2 o ho)
  obtain ⟨site, n, hsite, hn, hkind⟩ := h.def_of_object hv
  have hnode := (run_closed hr).site o ho site hsite n hn
  exact ⟨ho, site, n, hsite, hn, IdSet.mem_filter.mpr ⟨hnode, decide_eq_true hkind⟩⟩

/-- The objects of a value are exposed once they are all tainted. -/
theorem exposed_of_holds {p : ValueId}
    (hp : HoldsObjects (b.context settings) (· ∈ (run (b.context settings)).1.objects) p) :
    ∀ o ∈ b.pointsTo.objects p, Exposed b (run (b.context settings)).1 o :=
  fun o ho => exposed_of_tainted h (hp o ho)

/-- Taint covers the flows of a program whose parameters are defined. -/
theorem coversFlows_of_params (settings : Settings)
    (hparams : ∀ f ∈ b.program.ir.functions, ∀ p ∈ f.params,
      ∃ n, b.program.flow.def? p = some n) :
    CoversFlows b host settings (run (b.context settings)).1 := by
  have hclosed := run_closed (regular h settings)
  constructor
  case operand =>
    intro v hv opcode ho hc hdef a ha htaint
    obtain ⟨n, hn⟩ := Option.isSome_iff_exists.mp hdef
    rw [isValueTainted_iff settings] at htaint ⊢
    exact hclosed.reached_of_flow h (.operand hv ho hc ha) hn htaint
  case argument =>
    intro call hc f hcalls function hf hbody i a p ha hp htaint
    obtain ⟨n, hn⟩ := hparams function (Array.mem_toList_iff.mpr (Array.mem_of_getElem? hf)) p
      (List.mem_of_getElem? hp)
    rw [isValueTainted_iff settings] at htaint ⊢
    exact hclosed.reached_of_flow h (.argument hc hcalls hf hbody ha hp) hn htaint
  case result =>
    intro call hc f hcalls function hf hbody r hr hret htaint
    have hreach : host.MayReach call f := hcalls.2
    obtain ⟨callee, ho, _⟩ := hreach
    obtain ⟨n, hn⟩ := h.def_of_opcode hc ho nofun
    rw [isValueTainted_iff settings] at htaint ⊢
    exact hclosed.reached_of_flow h (.result hc hcalls hf hbody hr hret) hn htaint
  case call =>
    intro call hc callee ho a ha htaint
    obtain ⟨hsite, hargs, _⟩ := h.site hc ho
    obtain ⟨n, hn⟩ := h.def_of_opcode hc ho nofun
    rw [isValueTainted_iff settings] at htaint ⊢
    rw [← hargs] at ha
    exact ⟨n, hn, hclosed.call call.id hsite a ha htaint n hn⟩
  case store =>
    intro store hs ho a p rest hops htaint
    rw [isValueTainted_iff settings] at htaint
    exact exposed_of_holds h (hclosed.holds_of_store h hs ho hops htaint).2.2
  case load =>
    intro store hs hso a p rest hops htaint load hl hlo q hq halias
    rw [isValueTainted_iff settings] at htaint ⊢
    obtain ⟨hstore, hpointer, _⟩ := hclosed.holds_of_store h hs hso hops htaint
    obtain ⟨block, hk⟩ := opcode_kind hlo
    have hkind : ValueFlow.kindOf? b.program.ir host.allocators load = some .load := by
      simp [ValueFlow.kindOf?, hk]
    obtain ⟨n, hn, _⟩ := h.def_of_kind (h.sound.value?_of_mem hl) hkind
    rcases halias with halias | ⟨rfl, hdef⟩
    · have hp : store.operands[1]? = some p := by simp [hops]
      rw [List.head?_eq_getElem?] at hq
      exact hclosed.reached_of_flow h (.memory hs hso hp hl hlo hq halias) hn hstore
    · -- The pointer itself is tainted, and the load has it as an operand.
      obtain ⟨m, hm⟩ := Option.isSome_iff_exists.mp hdef
      have hp : Reached (b.context settings) (· ∈ (run (b.context settings)).1.nodes) p :=
        ⟨m, hm, hpointer m hm⟩
      exact hclosed.reached_of_flow h (.operand hl hlo rfl (List.mem_of_head? hq)) hn hp
  case copy =>
    intro call hc f hreach function hf copies hcopy src dst hsrc hdst htaint
    have hname := h.mem_calleeNames settings hc hreach hf
    obtain ⟨callee, ho, _⟩ := hreach
    obtain ⟨hsite, hargs, _⟩ := h.site hc ho
    have hcarried := htaint.imp_left (isValueTainted_iff settings).mp
    rw [← hargs] at hsrc hdst
    exact exposed_of_holds h
      (hclosed.copy call.id hsite _ hname copies hcopy src dst hsrc hdst hcarried).2

end

/-- Whatever the settings, the taint of a program from a snapshot covers its flows: through operands,
to the callees that calls name or the host resolved and back, through memory, and through copies. -/
theorem snapshot_flows_covered {s : Snapshot} {b : Built} (h : s.build = .ok b)
    (settings : Settings) :
    ∃ t host, s.link = .ok (t, host) ∧ b.program.ir.tables = t ∧
      CoversFlows b host settings (run (b.context settings)).1 := by
  obtain ⟨t, host, hl, hb⟩ := Snapshot.build_ok_iff.mp h
  have hparts := Built.ofTables_ok_iff.mp hb
  refine ⟨t, host, hl, (Ir.ofTables_ok hparts.ir).1, ?_⟩
  exact coversFlows_of_params hparts settings fun f hf p hp => hparts.def_of_param hl hf hp

theorem relay_flows : ∃ b, relay.build = .ok b ∧ ∃ t host, relay.link = .ok (t, host) ∧
    b.program.ir.tables = t ∧ CoversFlows b host .unchanged (run (b.context .unchanged)).1 := by
  obtain ⟨b, hb⟩ := exists_ok_of_isOk (x := relay.build) (by decide +kernel)
  exact ⟨b, hb, snapshot_flows_covered hb .unchanged⟩

end Taint

end PointerTriage
