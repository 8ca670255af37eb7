import PointerTriage.Proofs.BoundCheck.Paths
import PointerTriage.Proofs.Rules.UnboundedAlloc
import PointerTriage.Proofs.Taint.Rules

namespace PointerTriage

namespace BoundCheck

variable {c : Context} {n : NodeId}

theorem paths_of_location {start : LocationId} (hl : c.control.location? n = some start) :
    paths c n = { Graph.unfold (extend c) c.settings.bound.maxExploredPaths [start] with
      leaves := (Graph.unfold (extend c) c.settings.bound.maxExploredPaths [start]).leaves.map
        List.reverse } := by
  simp only [paths, hl]

/-- Every path that is listed is one of the tree, also where the search was cut short. -/
theorem below_of_mem_paths {path : Path} (hp : path ∈ (paths c n).leaves) :
    ∃ start, c.control.location? n = some start ∧
      path.reverse ∈ Graph.below (extend_ranked c) [start] := by
  cases hl : c.control.location? n with
  | none => simp [paths, hl, noPaths] at hp
  | some start =>
    rw [paths_of_location hl] at hp
    obtain ⟨q, hq, rfl⟩ := List.mem_map.mp hp
    obtain ⟨_, _, _, hbelow, _⟩ :=
      Graph.unfold_spec (extend_ranked c) c.settings.bound.maxExploredPaths [start]
    refine ⟨start, rfl, ?_⟩
    rw [List.reverse_reverse]
    exact hbelow q hq

/-- A search that was not cut short lists every leaf of the tree. -/
theorem mem_paths_of_leaf {start : LocationId} (hl : c.control.location? n = some start)
    (hwhole : (paths c n).truncated = false) {q : Path}
    (hq : q ∈ Graph.leavesBelow (extend_ranked c) [start]) : q.reverse ∈ (paths c n).leaves := by
  rw [paths_of_location hl] at hwhole ⊢
  obtain ⟨_, _, hleaves, _, _⟩ :=
    Graph.unfold_spec (extend_ranked c) c.settings.bound.maxExploredPaths [start]
  exact List.mem_map.mpr ⟨q, (hleaves hwhole).mem_iff.mpr hq, rfl⟩

/-- The search extends a path at its head and keeps the rest. -/
theorem suffix_of_below {path q : Path} (h : q ∈ Graph.below (extend_ranked c) path) :
    path <:+ q := by
  induction Graph.mem_below.mp h with
  | refl => exact List.suffix_refl path
  | tail hr hq ih =>
    obtain ⟨_, _, p, _, _, _, _, rfl⟩ := mem_extend.mp hq
    exact (ih (Graph.mem_below.mpr hr)).trans (List.suffix_cons p _)

/-- A path passes a comparison that matters to the node. -/
def PassesGuard (c : Context) (n : NodeId) (path : Path) : Prop :=
  ∃ l ∈ path, isCmp c l = true ∧ isRelevant c (dependencies c n) l = true

/-- Under settings that see more dependencies a path passes no fewer guards. -/
theorem PassesGuard.mono {b : Built} {s s' : Settings}
    (hd : ∀ {k m}, DependsOn (b.context s) k m → DependsOn (b.context s') k m) {path : Path}
    (h : PassesGuard (b.context s) n path) : PassesGuard (b.context s') n path := by
  obtain ⟨l, hl, hcmp, hrelevant⟩ := h
  obtain ⟨k, hk, m, hkm, hm⟩ := isRelevant_iff.mp hrelevant
  refine ⟨l, hl, hcmp, isRelevant_iff.mpr ⟨k, hk, m, hd hkm, ?_⟩⟩
  rcases hm with hm | ⟨a, ha, root, hroot, hm⟩
  · exact .inl (hd hm)
  · exact .inr ⟨a, ha, root, hroot, hd hm⟩

theorem any_relevantCmps_iff {path : Path} (hpath : path ∈ (paths c n).leaves) :
    path.any (· ∈ relevantCmps c (paths c n).leaves (dependencies c n)) = true ↔
      PassesGuard c n path := by
  simp only [List.any_eq_true, decide_eq_true_eq, mem_relevantCmps]
  exact exists_congr fun l => and_congr_right fun hl => and_iff_right ⟨path, hpath, hl⟩

theorem relevantPaths_eq :
    (estimate c n).relevantPaths = (paths c n).leaves.countP fun path =>
      path.any (· ∈ relevantCmps c (paths c n).leaves (dependencies c n)) :=
  List.countP_eq_length_filter.symm

theorem isGuarded_iff :
    (estimate c n).isGuarded = true ↔ ∃ path ∈ (paths c n).leaves, PassesGuard c n path := by
  unfold Estimate.isGuarded
  rw [decide_eq_true_eq, relevantPaths_eq, List.countP_pos_iff]
  exact exists_congr fun path => and_congr_right any_relevantCmps_iff

end BoundCheck

/-- Limits that stop no path earlier, with the same edges to decide what matters. How many comparisons
are collected, how many paths are explored and how scores are weighed is left open. -/
structure Settings.Bound.Widens (narrow wide : Settings.Bound) : Prop where
  edges : wide.followIndirectEdges = narrow.followIndirectEdges
  length : narrow.maxPathLength ≤ wide.maxPathLength
  cmps : narrow.maxPathsWithCmps ≤ wide.maxPathsWithCmps

namespace BoundCheck

variable {b : Built} {narrow wide : Settings} (hw : narrow.bound.Widens wide.bound)
include hw

theorem Stopped.of_widens {path : Path} (h : Stopped (b.context wide) path) :
    Stopped (b.context narrow) path := by
  rcases h with hlength | ⟨last, hlast, hcmp, hcmps⟩
  · exact .inl (Nat.le_trans hw.length hlength)
  · exact .inr ⟨last, hlast, hcmp, Nat.le_trans hw.cmps hcmps⟩

/-- The tree of paths grows with the limits. -/
theorem below_of_widens {path q : Path}
    (h : q ∈ Graph.below (extend_ranked (b.context narrow)) path) :
    q ∈ Graph.below (extend_ranked (b.context wide)) path := by
  refine Graph.mem_below.mpr (Relation.ReflTransGen.mono ?_ _ _ (Graph.mem_below.mp h))
  intro p q hq
  obtain ⟨last, rest, l, hp, hopen, hl, hnew, rfl⟩ := mem_extend.mp hq
  exact mem_extend.mpr ⟨last, rest, l, hp, fun hstop => hopen (hstop.of_widens hw), hl, hnew, rfl⟩

theorem passesGuard_of_widens {n : NodeId} {path : Path}
    (h : PassesGuard (b.context narrow) n path) : PassesGuard (b.context wide) n path := by
  have hfollow : (b.context wide).settings.bound.followIndirectEdges =
      (b.context narrow).settings.bound.followIndirectEdges := hw.edges
  have hfilter : edgeFilter (b.context wide) = edgeFilter (b.context narrow) := by
    unfold edgeFilter
    rw [hfollow]
  refine h.mono fun hm => ?_
  unfold DependsOn at hm ⊢
  rw [hfilter]
  exact hm

theorem isGuarded_of_widens {n : NodeId} (hwhole : (paths (b.context wide) n).truncated = false)
    (h : (estimate (b.context narrow) n).isGuarded = true) :
    (estimate (b.context wide) n).isGuarded = true := by
  obtain ⟨path, hpath, hguard⟩ := isGuarded_iff.mp h
  obtain ⟨start, hl, hbelow⟩ := below_of_mem_paths hpath
  have hl : (b.context wide).control.location? n = some start := hl
  -- The path may have stopped, or been cut short, before its end in the larger tree.
  obtain ⟨leaf, hleaf, hcontinues⟩ := Graph.exists_leaf_below (below_of_widens hw hbelow)
  obtain ⟨l, hmem, hmatters⟩ := passesGuard_of_widens hw hguard
  refine isGuarded_iff.mpr ⟨leaf.reverse, mem_paths_of_leaf hl hwhole hleaf, l, ?_, hmatters⟩
  exact List.mem_reverse.mpr ((suffix_of_below hcontinues).mem (List.mem_reverse.mpr hmem))

end BoundCheck

namespace Rules

/-- A value is flagged if it is a tainted data pointer and its node is not guarded. -/
theorem mem_unguarded {c : Context} {taint : Taint} {v : ValueId} :
    v ∈ ((Check.ofRule .boundCheck).run c taint).values ↔
      v ∈ taint.flagged c.program ∧
        ∃ n, c.def? v = some n ∧ (BoundCheck.estimate c n).isGuarded = false := by
  rw [Check.run, Findings.mem_values_ofFlags]
  change (∃ note, (v, note) ∈ unguarded c taint) ↔ _
  simp only [unguarded, List.mem_filterMap, Option.bind_eq_some_iff]
  constructor
  · intro hex
    obtain ⟨note, w, hw, n, hn, hflag⟩ := hex
    split at hflag
    · cases hflag
    · rename_i hopen
      cases hflag
      exact ⟨hw, n, hn, by simpa using hopen⟩
  · intro hex
    obtain ⟨hv, n, hn, hopen⟩ := hex
    exact ⟨_, v, hv, n, hn, by rw [if_neg (by simp [hopen])]⟩

/-- Where more is guarded, less is flagged. -/
theorem mem_unguarded_of_guarded {b : Built} {s s' : Settings} {taint : Taint} {v : ValueId}
    (hg : ∀ n, b.program.flow.def? v = some n →
      (BoundCheck.estimate (b.context s) n).isGuarded = true →
      (BoundCheck.estimate (b.context s') n).isGuarded = true)
    (hv : v ∈ ((Check.ofRule .boundCheck).run (b.context s') taint).values) :
    v ∈ ((Check.ofRule .boundCheck).run (b.context s) taint).values := by
  obtain ⟨hflagged, n, hn, hopen⟩ := mem_unguarded.mp hv
  refine mem_unguarded.mpr ⟨hflagged, n, hn, Bool.eq_false_iff.mpr fun hguarded => ?_⟩
  exact Bool.eq_false_iff.mp hopen (hg n hn hguarded)

end Rules

/-- A wider search that is not cut short loses no guard, whether or not the narrow one was. So where no
search for a tainted data pointer is cut short, it leaves no value unguarded that was guarded. -/
theorem BoundCheck.wider_search_keeps_guards (b : Built) {narrow wide : Settings}
    (hw : narrow.bound.Widens wide.bound) :
    (∀ n, (paths (b.context wide) n).truncated = false →
      (estimate (b.context narrow) n).isGuarded = true →
      (estimate (b.context wide) n).isGuarded = true) ∧
    (wide.taint = narrow.taint →
      (∀ v ∈ (Taint.run (b.context wide)).1.flagged b.program, ∀ n,
        b.program.flow.def? v = some n → (paths (b.context wide) n).truncated = false) →
      ∀ v ∈ ((Rules.Check.ofRule .boundCheck).run (b.context wide)
          (Taint.run (b.context wide)).1).values,
        v ∈ ((Rules.Check.ofRule .boundCheck).run (b.context narrow)
          (Taint.run (b.context narrow)).1).values) := by
  refine ⟨fun n => isGuarded_of_widens hw, ?_⟩
  intro htaint hwhole v hv
  have hrun : Taint.run (b.context wide) = Taint.run (b.context narrow) :=
    Taint.run_of_same_stage (b.context narrow) htaint
  have hflagged := (Rules.mem_unguarded.mp hv).1
  rw [← hrun]
  refine Rules.mem_unguarded_of_guarded ?_ hv
  intro n hn
  exact isGuarded_of_widens hw (hwhole v hflagged n hn)

theorem hasty_check : (Settings.Draft.onBound {} ({ · with
    maxPathLength := 3, maxPathsWithCmps := 1, maxExploredPaths := 2 })).stages.check = .ok () :=
  Settings.Stages.check_of_isOk (by decide +kernel)

/-- Settings under which a search gives up soon. -/
def hasty : Settings := ⟨_, hasty_check⟩

/-- The hasty search for the guarded request 6 is cut short where it comes to the comparison, which a
search with the usual limits finds too. In `relay` nothing is compared, and the slot 4 that is
unguarded with those limits is so for the hasty search. -/
theorem BoundCheck.hasty_guards : hasty.bound.Widens Settings.unchanged.bound ∧
    (∃ b, (request (.call (some "malloc") [])).build = .ok b ∧ b.program.flow.def? 6 = some 5 ∧
      (estimate (b.context hasty) 5).truncated = true ∧
      (estimate (b.context hasty) 5).isGuarded = true ∧
      (estimate (b.context .unchanged) 5).isGuarded = true) ∧
    ∃ b, relay.build = .ok b ∧
      4 ∈ ((Rules.Check.ofRule .boundCheck).run (b.context .unchanged)
        (Taint.run (b.context .unchanged)).1).values ∧
      4 ∈ ((Rules.Check.ofRule .boundCheck).run (b.context hasty)
        (Taint.run (b.context hasty)).1).values := by
  have hw : hasty.bound.Widens Settings.unchanged.bound := ⟨rfl, by decide +kernel, by decide +kernel⟩
  refine ⟨hw, ?_, ?_⟩
  · obtain ⟨b, hb, hvalues⟩ := exists_ok_of_map (x := (request (.call (some "malloc") [])).build)
      (f := fun b => (b.program.flow.def? 6, (estimate (b.context hasty) 5).truncated,
        (estimate (b.context hasty) 5).isGuarded, (paths (b.context .unchanged) 5).truncated))
      (y := (some 5, true, true, false)) (by decide +kernel)
    simp only [Prod.mk.injEq] at hvalues
    obtain ⟨hn, hcut, hguarded, hwhole⟩ := hvalues
    exact ⟨b, hb, hn, hcut, hguarded, (wider_search_keeps_guards b hw).1 5 hwhole hguarded⟩
  · obtain ⟨b, hb, hvalues⟩ := exists_ok_of_map (x := relay.build)
      (f := fun b => ((Taint.run (b.context .unchanged)).1.flagged b.program,
        b.program.flow.def? 4, (paths (b.context .unchanged) 4).truncated,
        ((Rules.Check.ofRule .boundCheck).run (b.context .unchanged)
          (Taint.run (b.context .unchanged)).1).values))
      (y := ([4], some 4, false, [4])) (by decide +kernel)
    simp only [Prod.mk.injEq] at hvalues
    obtain ⟨hflagged, hslot, hwhole, hfound⟩ := hvalues
    have hunguarded : 4 ∈ ((Rules.Check.ofRule .boundCheck).run (b.context .unchanged)
        (Taint.run (b.context .unchanged)).1).values := by simp [hfound]
    refine ⟨b, hb, hunguarded, (wider_search_keeps_guards b hw).2 rfl ?_ 4 hunguarded⟩
    intro v hv n hn
    rw [hflagged, List.mem_singleton] at hv
    subst hv
    cases hslot.symm.trans hn
    exact hwhole

end PointerTriage
