import PointerTriage.Proofs.BoundCheck.Guards
import PointerTriage.Proofs.ValueFlow.Closures

namespace PointerTriage

/-- The second settings are the first ones, except that they do not follow indirect edges. -/
structure Settings.DropsIndirect (on off : Settings) : Prop where
  follows : on.bound.followIndirectEdges = true
  same : off.toStages = { on.toStages with bound := { on.bound with followIndirectEdges := false } }

namespace BoundCheck

/-- The estimates agree on the paths and comparisons, and the first has no more guarded paths. -/
structure Estimate.GuardsNoMore (less more : Estimate) : Prop where
  node : less.node = more.node
  kind : less.kind = more.kind
  lower : less.lower = more.lower
  upper : less.upper = more.upper
  cmpCount : less.cmpCount = more.cmpCount
  totalPaths : less.totalPaths = more.totalPaths
  truncated : less.truncated = more.truncated
  relevantPaths : less.relevantPaths ≤ more.relevantPaths

theorem Estimate.GuardsNoMore.isGuarded {less more : Estimate} (h : less.GuardsNoMore more)
    (hguarded : less.isGuarded = true) : more.isGuarded = true := by
  unfold Estimate.isGuarded at hguarded ⊢
  have := h.relevantPaths
  simp only [decide_eq_true_eq] at hguarded ⊢
  omega

variable {b : Built} {on off : Settings} (hd : on.DropsIndirect off)
include hd

/-- The search for paths does not look at the flag. -/
theorem paths_of_drops (n : NodeId) : paths (b.context off) n = paths (b.context on) n := by
  obtain ⟨stages, valid⟩ := off
  obtain ⟨_, rfl⟩ := hd
  rfl

theorem cmps_of_drops (n : NodeId) : cmps (b.context off) n = cmps (b.context on) n := by
  obtain ⟨stages, valid⟩ := off
  obtain ⟨_, rfl⟩ := hd
  rfl

theorem DependsOn.of_drops {n m : NodeId} (h : DependsOn (b.context off) n m) :
    DependsOn (b.context on) n m := by
  have hall : edgeFilter (b.context on) = .all := if_pos hd.follows
  unfold DependsOn at h ⊢
  rw [hall]
  exact ValueFlow.mem_backwardClosure_all h

theorem Guards.of_drops {n root : NodeId} (h : Guards (b.context off) n root) :
    Guards (b.context on) n root := by
  obtain ⟨path, hpath, l, hl, hcompares, k, hk, m, hkm, hm⟩ := h
  rw [paths_of_drops hd] at hpath
  exact ⟨path, hpath, l, hl, hcompares, k, hk, m, hkm.of_drops hd, hm.of_drops hd⟩

theorem relevantPaths_of_drops (n : NodeId) :
    (estimate (b.context off) n).relevantPaths ≤ (estimate (b.context on) n).relevantPaths := by
  have hleaves : (paths (b.context off) n).leaves = (paths (b.context on) n).leaves := by
    rw [paths_of_drops hd]
  rw [relevantPaths_eq, relevantPaths_eq, ← hleaves]
  apply List.countP_mono_left
  intro path hpath hguard
  have hguard := ((any_relevantCmps_iff hpath).mp hguard).mono (DependsOn.of_drops hd)
  rw [hleaves] at hpath ⊢
  exact (any_relevantCmps_iff hpath).mpr hguard

theorem estimate_guardsNoMore (n : NodeId) :
    (estimate (b.context off) n).GuardsNoMore (estimate (b.context on) n) := by
  have hclass : classify (b.context off) (cmps (b.context off) n) =
      classify (b.context on) (cmps (b.context on) n) := by
    rw [cmps_of_drops hd]
    rfl
  exact {
    node := rfl
    kind := congrArg (·.1) hclass
    lower := congrArg (·.2.1) hclass
    upper := congrArg (·.2.2) hclass
    cmpCount := congrArg List.length (cmps_of_drops hd n)
    totalPaths := congrArg (·.leaves.length) (paths_of_drops hd n)
    truncated := congrArg (·.truncated) (paths_of_drops hd n)
    relevantPaths := relevantPaths_of_drops hd n }

end BoundCheck

section

variable {b : Built} {on off : Settings} (hd : on.DropsIndirect off)
include hd

theorem Taint.run_of_drops : Taint.run (b.context off) = Taint.run (b.context on) := by
  have htaint : off.taint = on.taint := by rw [hd.same]
  exact Taint.run_of_same_stage (b.context on) htaint

theorem Rules.allocatorCalls_of_drops (taint : Taint) :
    allocatorCalls (b.context off) taint = allocatorCalls (b.context on) taint := by
  obtain ⟨stages, valid⟩ := off
  obtain ⟨_, rfl⟩ := hd
  rfl

theorem Rules.mem_unboundedAlloc_of_drops {taint : Taint} {v : ValueId}
    (hv : v ∈ ((Check.ofRule .unboundedAlloc).run (b.context on) taint).values) :
    v ∈ ((Check.ofRule .unboundedAlloc).run (b.context off) taint).values := by
  obtain ⟨call, hcall, hid, n, hn, hopen⟩ := mem_unboundedAlloc.mp hv
  rw [← allocatorCalls_of_drops hd] at hcall
  refine mem_unboundedAlloc.mpr ⟨call, hcall, hid, n, hn, ?_⟩
  rintro (hguards | ⟨a, ha, root, hroot, hguards⟩)
  · exact hopen (.inl (hguards.of_drops hd))
  · exact hopen (.inr ⟨a, ha, root, hroot, hguards.of_drops hd⟩)

end

/-- Without flows through memory an estimate counts the same paths and comparisons, and no more paths as
guarded. The taint stays, and what the two rules on guards flagged is still flagged. -/
theorem BoundCheck.indirect_edges_only_add_guards (b : Built) {on off : Settings}
    (hd : on.DropsIndirect off) :
    (∀ n, (estimate (b.context off) n).GuardsNoMore (estimate (b.context on) n)) ∧
    Taint.run (b.context off) = Taint.run (b.context on) ∧
    ∀ r ∈ [Rule.boundCheck, .unboundedAlloc],
      ∀ v ∈ ((Rules.Check.ofRule r).run (b.context on) (Taint.run (b.context on)).1).values,
        v ∈ ((Rules.Check.ofRule r).run (b.context off) (Taint.run (b.context off)).1).values := by
  refine ⟨estimate_guardsNoMore hd, Taint.run_of_drops hd, ?_⟩
  intro r hr v hv
  rw [Taint.run_of_drops hd]
  simp only [List.mem_cons, List.not_mem_nil, or_false] at hr
  rcases hr with rfl | rfl
  · exact Rules.mem_unguarded_of_guarded (fun n _ => (estimate_guardsNoMore hd n).isGuarded) hv
  · exact Rules.mem_unboundedAlloc_of_drops hd hv

theorem directOnly_check : (Settings.Draft.onBound {} ({ · with
    followIndirectEdges := false })).stages.check = .ok () :=
  Settings.Stages.check_of_isOk (by decide +kernel)

/-- The settings that nobody changed, but with direct edges only. -/
def Settings.directOnly : Settings := ⟨_, directOnly_check⟩

/-- `main` keeps its first parameter in a slot, and compares what it finds there before it asks for as
much memory. -/
def spill : Snapshot where
  globals := []
  functions := [
    ⟨"malloc", .untyped, [⟨"size", .int 64⟩], []⟩,
    ⟨"main", .void, [⟨"count", .int 64⟩, ⟨"limit", .int 64⟩], [
      ⟨"entry", [
        ⟨some "spare", .call (some "malloc") [], some .untyped, [.name "limit"]⟩,
        ⟨some "slot", .alloca .untyped, none, []⟩,
        ⟨none, .store, none, [.name "count", .name "slot"]⟩,
        ⟨some "kept", .load, none, [.name "slot"]⟩,
        ⟨some "fits", .icmp, none, [.name "kept", .name "limit"]⟩,
        ⟨none, .br, none, [.name "fits"]⟩], ["grant", "refuse"]⟩,
      ⟨"grant", [
        ⟨some "block", .call (some "malloc") [], some .untyped, [.name "count"]⟩,
        ⟨none, .ret, none, []⟩], []⟩,
      ⟨"refuse", [⟨none, .ret, none, []⟩], []⟩]⟩]
  loops := []
  pointsTo := []
  flows := []
  allocators := none

/-- The comparison guards the request 9 through the slot, so only without flows through memory it is
flagged. The request 3, which nothing guards, is flagged either way. -/
theorem BoundCheck.spill_guards : Settings.unchanged.DropsIndirect .directOnly ∧
    ∃ b, spill.build = .ok b ∧ b.program.flow.def? 9 = some 8 ∧
      (estimate (b.context .unchanged) 8).isGuarded = true ∧
      (estimate (b.context .directOnly) 8).isGuarded = false ∧
      (estimate (b.context .directOnly) 8).GuardsNoMore (estimate (b.context .unchanged) 8) ∧
      Taint.run (b.context .directOnly) = Taint.run (b.context .unchanged) ∧
      (∀ r ∈ [Rule.boundCheck, .unboundedAlloc],
        3 ∈ ((Rules.Check.ofRule r).run (b.context .unchanged)
          (Taint.run (b.context .unchanged)).1).values ∧
        3 ∈ ((Rules.Check.ofRule r).run (b.context .directOnly)
          (Taint.run (b.context .directOnly)).1).values) ∧
      9 ∉ ((Rules.Check.ofRule .unboundedAlloc).run (b.context .unchanged)
        (Taint.run (b.context .unchanged)).1).values ∧
      9 ∈ ((Rules.Check.ofRule .unboundedAlloc).run (b.context .directOnly)
        (Taint.run (b.context .directOnly)).1).values := by
  have hd : Settings.unchanged.DropsIndirect .directOnly := ⟨by decide +kernel, rfl⟩
  obtain ⟨b, hb, hvalues⟩ := exists_ok_of_map (x := spill.build)
    (f := fun b => ((b.program.flow.def? 9, (estimate (b.context .unchanged) 8).isGuarded,
      (estimate (b.context .directOnly) 8).isGuarded),
      ((Rules.Check.ofRule .boundCheck).run (b.context .unchanged)
        (Taint.run (b.context .unchanged)).1).values,
      ((Rules.Check.ofRule .unboundedAlloc).run (b.context .unchanged)
        (Taint.run (b.context .unchanged)).1).values,
      ((Rules.Check.ofRule .unboundedAlloc).run (b.context .directOnly)
        (Taint.run (b.context .directOnly)).1).values))
    (y := ((some 8, true, false), [3, 4], [3], [3, 9])) (by decide +kernel)
  simp only [Prod.mk.injEq] at hvalues
  obtain ⟨⟨hn, hon, hoff⟩, hbound, halloc, hdirect⟩ := hvalues
  obtain ⟨hestimate, htaint, hkept⟩ := indirect_edges_only_add_guards b hd
  refine ⟨hd, b, hb, hn, hon, hoff, hestimate 8, htaint, ?_, by simp [halloc], by simp [hdirect]⟩
  intro r hr
  have hflagged : 3 ∈ ((Rules.Check.ofRule r).run (b.context .unchanged)
      (Taint.run (b.context .unchanged)).1).values := by
    simp only [List.mem_cons, List.not_mem_nil, or_false] at hr
    rcases hr with rfl | rfl
    · simp [hbound]
    · simp [halloc]
  exact ⟨hflagged, hkept r hr 3 hflagged⟩

end PointerTriage
