import PointerTriage.Proofs.Snapshot.Facts
import PointerTriage.Proofs.Taint.Closure

namespace PointerTriage

/-- The second settings are the first with functions appended to those that taint is drawn from and
copied by. -/
def Settings.TaintExtends (settings settings' : Settings) : Prop :=
  ∃ inputs copies, settings'.toStages = { settings.toStages with
    taint := { settings.taint with
      inputs := settings.taint.inputs ++ inputs
      copies := settings.taint.copies ++ copies } }

namespace Settings.TaintExtends

variable {settings settings' : Settings} (h : settings.TaintExtends settings')
include h

theorem entry : settings'.taint.entry = settings.taint.entry := by
  obtain ⟨inputs, copies, he⟩ := h
  rw [he]

/-- The first entry of a name decides, and it stays the first. -/
theorem input {name : String} {f : InputFunction} (hf : settings.taint.findInput? name = some f) :
    settings'.taint.findInput? name = some f := by
  obtain ⟨inputs, copies, he⟩ := h
  unfold Taint.findInput? at hf ⊢
  rw [he, List.find?_append, hf]
  rfl

theorem copy {name : String} {f : CopyFunction} (hf : settings.taint.findCopy? name = some f) :
    settings'.taint.findCopy? name = some f := by
  obtain ⟨inputs, copies, he⟩ := h
  unfold Taint.findCopy? at hf ⊢
  rw [he, List.find?_append, hf]
  rfl

end Settings.TaintExtends

namespace Taint

section

variable {b b' : Built} {settings settings' : Settings} (h : b.Below b')
  (hs : settings.TaintExtends settings')
include h

theorem def?_of_below (v : ValueId) :
    (b.context settings).def? v = (b'.context settings').def? v := by
  change b.program.flow.def? v = b'.program.flow.def? v
  unfold ValueFlow.def?
  rw [h.nodes]

theorem node?_of_below (n : NodeId) :
    (b.context settings).flow.node? n = (b'.context settings').flow.node? n := by
  change b.program.flow.node? n = b'.program.flow.node? n
  unfold ValueFlow.node?
  rw [h.nodes]

theorem calleeNames_of_below {site : ValueId} {name : String}
    (hn : name ∈ (b.context settings).calleeNames site) :
    name ∈ (b'.context settings').calleeNames site := by
  obtain ⟨f, hf, hname⟩ := List.mem_filterMap.mp hn
  obtain ⟨loops, hir⟩ := h.ir
  refine List.mem_filterMap.mpr ⟨f, h.callees site f hf, ?_⟩
  change (b.program.ir.function? f).map Function.name = some name at hname
  rw [hir] at hname
  exact hname

include hs

theorem filled_of_below {v : ValueId} (hv : Filled (b.context settings) v) :
    Filled (b'.context settings') v := by
  obtain ⟨loops, hir⟩ := h.ir
  obtain ⟨site_mem, callee, input, from_start, argument, runtime⟩ := hv
  change _ ∈ b.calls.answers.sites at site_mem
  change (b.calls.arguments _)[_]? = _ at argument
  change b.program.ir.isRuntime v = true at runtime
  rw [h.sites] at site_mem
  rw [h.arguments] at argument
  rw [hir] at runtime
  exact .mk site_mem (calleeNames_of_below h callee) (hs.input input) from_start argument runtime

theorem source_of_below {v : ValueId} (hv : Source (b.context settings) v) :
    Source (b'.context settings') v := by
  obtain ⟨loops, hir⟩ := h.ir
  cases hv with
  | entry named param =>
    change b.program.ir.functionNamed? settings.taint.entry = _ at named
    rw [hir, ← hs.entry] at named
    exact .entry named param
  | filled hv => exact .filled (filled_of_below h hs hv)
  | result site_mem callee input returns =>
    change _ ∈ b.calls.answers.sites at site_mem
    rw [h.sites] at site_mem
    exact .result site_mem (calleeNames_of_below h callee) (hs.input input) returns

/-- The rules of the smaller program lead nowhere that those of the larger one do not. -/
theorem Closed.of_below {nodes : NodeId → Prop} {objects : ObjectId → Prop}
    (hclosed : Closed (b'.context settings') nodes objects) :
    Closed (b.context settings) nodes objects := by
  obtain ⟨loops, hir⟩ := h.ir
  have hnode : ∀ {v}, HoldsNode (b'.context settings') nodes v →
      HoldsNode (b.context settings) nodes v := by
    intro v hv n hn
    rw [def?_of_below h] at hn
    exact hv n hn
  have hobjects : ∀ {v}, HoldsObjects (b'.context settings') objects v →
      HoldsObjects (b.context settings) objects v := fun hv o ho => hv o (h.objects _ o ho)
  have hreached : ∀ {v}, Reached (b.context settings) nodes v →
      Reached (b'.context settings') nodes v := by
    intro v hex
    obtain ⟨n, hn, hm⟩ := hex
    rw [def?_of_below h] at hn
    exact ⟨n, hn, hm⟩
  have hcarried : ∀ {v}, Carried (b.context settings) nodes objects v →
      Carried (b'.context settings') nodes objects v := by
    intro v hv
    refine hv.imp hreached ?_
    intro hex
    obtain ⟨o, ho, hm⟩ := hex
    exact ⟨o, h.objects v o ho, hm⟩
  have hoperand : ∀ v i, (b.context settings).ir.operand? v i =
      (b'.context settings').ir.operand? v i := by
    intro v i
    change b.program.ir.operand? v i = _
    rw [hir]
    rfl
  have hvalue : ∀ v, (b.context settings).ir.value? v = (b'.context settings').ir.value? v := by
    intro v
    change b.program.ir.value? v = _
    rw [hir]
    rfl
  have hsites : (b.context settings).calls.sites = (b'.context settings').calls.sites := h.sites
  have harguments : (b.context settings).calls.arguments =
      (b'.context settings').calls.arguments := h.arguments
  constructor
  case source => exact fun v hv => hnode (hclosed.source v (source_of_below h hs hv))
  case filled => exact fun v hv => hobjects (hclosed.filled v (filled_of_below h hs hv))
  case site =>
    intro o ho v hv
    change b.pointsTo.site? o = some v at hv
    rw [h.site] at hv
    exact hnode (hclosed.site o ho v hv)
  case flow => exact fun e he => hclosed.flow e (h.edges he)
  case store =>
    intro n v p hn hk hp
    rw [node?_of_below h] at hk
    rw [hoperand] at hp
    exact (hclosed.store n v p hn hk hp).imp hnode hobjects
  case load =>
    intro n v p hn hk hp
    rw [node?_of_below h] at hk
    rw [hoperand] at hp
    exact hobjects (hclosed.load n v p hn hk hp)
  case copy =>
    intro site hsite name hname f hf src dst hsrc hdst hc
    rw [hsites] at hsite
    rw [harguments] at hsrc hdst
    exact (hclosed.copy site hsite name (calleeNames_of_below h hname) f (hs.copy hf) src dst hsrc
      hdst (hcarried hc)).imp hnode hobjects
  case call =>
    intro site hsite a ha hr
    rw [hsites] at hsite
    rw [harguments] at ha
    exact hnode (hclosed.call site hsite a ha (hreached hr))
  case addr =>
    intro n v value hk hv a ha hr
    rw [node?_of_below h] at hk
    rw [hvalue] at hv
    exact hclosed.addr n v value hk hv a ha (hreached hr)
  case gep =>
    intro n v value hk hv a ha hr base hbase
    rw [node?_of_below h] at hk
    rw [hvalue] at hv
    exact hobjects (hclosed.gep n v value hk hv a ha (hreached hr) base hbase)

end

/-- All that is tainted in the first way is tainted in the second. -/
structure Within (t t' : Taint) : Prop where
  seeds : ∀ n ∈ t.seeds, n ∈ t'.seeds
  nodes : ∀ n ∈ t.nodes, n ∈ t'.nodes
  allocations : ∀ n ∈ t.allocations, n ∈ t'.allocations
  objects : ∀ o ∈ t.objects, o ∈ t'.objects

theorem mem_allocations {c : Context} {n : NodeId} :
    n ∈ (run c).1.allocations ↔ n ∈ (run c).1.nodes ∧ c.flow.kind? n = some .addr :=
  IdSet.mem_filter.trans (and_congr_right fun _ => decide_eq_true_iff)

theorem run_within_of_below {b b' : Built} {settings settings' : Settings} (h : b.Below b')
    (hs : settings.TaintExtends settings') (hr : Regular (b.context settings))
    (hr' : Regular (b'.context settings')) :
    (run (b.context settings)).1.Within (run (b'.context settings')).1 := by
  obtain ⟨hnodes, hobjects⟩ := run_within hr ((run_closed hr').of_below h hs)
  refine ⟨?_, hnodes, ?_, hobjects⟩
  · intro n hn
    obtain ⟨v, hv, hd⟩ := mem_seedNodes.mp (IdSet.mem_ofList.mp hn)
    rw [def?_of_below h] at hd
    exact IdSet.mem_ofList.mpr (mem_seedNodes.mpr ⟨v, source_of_below h hs hv, hd⟩)
  · intro n hn
    obtain ⟨hm, hk⟩ := mem_allocations.mp hn
    refine mem_allocations.mpr ⟨hnodes n hm, ?_⟩
    rw [← hk]
    unfold ValueFlow.kind?
    rw [node?_of_below h]

/-- Taint grows with what the host and the settings add: with more points-to facts, flows and targets,
and with more functions to draw taint from and to copy it, all that was a seed, tainted node, tainted
allocation or tainted object still is one. -/
theorem within_of_extends {s s' : Snapshot} (hext : s.Extends s') {b b' : Built}
    (hb : s.build = .ok b) (hb' : s'.build = .ok b') {settings settings' : Settings}
    (hs : settings.TaintExtends settings') :
    (run (b.context settings)).1.Within (run (b'.context settings')).1 := by
  obtain ⟨t, host, hl, hparts⟩ := Snapshot.build_ok_iff.mp hb
  obtain ⟨t', host', hl', hparts'⟩ := Snapshot.build_ok_iff.mp hb'
  have h := Built.ofTables_ok_iff.mp hparts
  have h' := Built.ofTables_ok_iff.mp hparts'
  obtain ⟨loops, below, hlink, _, hbelow⟩ := hext.link hl'
  cases hl.symm.trans hlink
  exact run_within_of_below (h.below h' rfl hbelow) hs (regular h settings) (regular h' settings')

/-- Two more functions to watch. -/
def moreWatched : Settings.Stages :=
  { Settings.unchanged.toStages with
    taint := { Settings.unchanged.taint with
      inputs := Settings.unchanged.taint.inputs ++ [⟨"gets", 0, true⟩]
      copies := Settings.unchanged.taint.copies ++ [⟨"bcopy", 1, 0⟩] } }

/-- The call of `keep` is resolved in one snapshot and not in the other. -/
theorem relay_within : ∃ b b' settings', relay.bare.build = .ok b ∧ relay.build = .ok b' ∧
    settings'.toStages = moreWatched ∧
    (run (b.context .unchanged)).1.Within (run (b'.context settings')).1 := by
  obtain ⟨b, hb⟩ := exists_ok_of_isOk (x := relay.bare.build) (by decide +kernel)
  obtain ⟨b', hb'⟩ := exists_ok_of_isOk (x := relay.build) (by decide +kernel)
  obtain ⟨_, hcheck⟩ := exists_ok_of_isOk (x := moreWatched.check) (by decide +kernel)
  have hext : relay.bare.Extends relay :=
    ⟨rfl, List.nil_subset _, List.nil_subset _, List.nil_subset _, by decide, fun _ => Iff.rfl⟩
  refine ⟨b, b', ⟨moreWatched, hcheck⟩, hb, hb', rfl, within_of_extends hext hb hb' ?_⟩
  exact ⟨[⟨"gets", 0, true⟩], [⟨"bcopy", 1, 0⟩], rfl⟩

end Taint

end PointerTriage
