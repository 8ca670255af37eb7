import PointerTriage.Outcome.Basic
import PointerTriage.Proofs.Snapshot.Facts
import PointerTriage.Proofs.Taint.Rules

namespace PointerTriage

/-- The same context, with the loops and the edges of the value flow listed in another way. -/
def Context.relisted (c : Context) (loops : List Loop) (edges : List ValueFlow.Edge) : Context :=
  { c with program := { c.program with
      ir := c.program.ir.withLoops loops
      flow := { c.program.flow with edges } } }

section

variable {c : Context} {loops : List Loop} {edges : List ValueFlow.Edge}

section

variable (hedges : ∀ e, e ∈ edges ↔ e ∈ c.flow.edges)
include hedges

theorem mem_successors_relisted (f : ValueFlow.EdgeFilter) (n m : NodeId) :
    m ∈ (c.relisted loops edges).flow.successors f n ↔ m ∈ c.flow.successors f n := by
  unfold ValueFlow.successors
  rw [Graph.mem_outOf, Graph.mem_outOf]
  exact exists_congr fun e => and_congr_left fun _ => hedges e

theorem mem_predecessors_relisted (f : ValueFlow.EdgeFilter) (n m : NodeId) :
    m ∈ (c.relisted loops edges).flow.predecessors f n ↔ m ∈ c.flow.predecessors f n := by
  unfold ValueFlow.predecessors
  rw [Graph.mem_into, Graph.mem_into]
  exact exists_congr fun e => and_congr_left fun _ => hedges e

theorem mem_forwardClosure_relisted (seeds : List NodeId) (n : NodeId) :
    n ∈ (c.relisted loops edges).flow.forwardClosure seeds ↔ n ∈ c.flow.forwardClosure seeds :=
  Graph.mem_reach_congr (mem_successors_relisted hedges .all)

theorem mem_backwardClosure_relisted (f : ValueFlow.EdgeFilter) (seeds : List NodeId) (n : NodeId) :
    n ∈ (c.relisted loops edges).flow.backwardClosure f seeds ↔ n ∈ c.flow.backwardClosure f seeds :=
  Graph.mem_reach_congr (mem_predecessors_relisted hedges f)

namespace Taint

theorem mem_consequences_relisted (f g : Fact) :
    g ∈ consequences (c.relisted loops edges) f ↔ g ∈ consequences c f := by
  cases f with
  | node n =>
    simp only [consequences, List.mem_append, List.mem_map, mem_successors_relisted hedges]
    rfl
  | object o => exact Iff.rfl

theorem State.drain_relisted (s : State) : s.drain (c.relisted loops edges) = s.drain c := by
  have hreach : ∀ f, f ∈ Graph.reach (consequences (c.relisted loops edges)) (possible c) s.facts ↔
      f ∈ Graph.reach (consequences c) (possible c) s.facts :=
    fun f => Graph.mem_reach_congr (mem_consequences_relisted hedges)
  have hnodes : (s.drain (c.relisted loops edges)).nodes = (s.drain c).nodes :=
    IdSet.ext fun n => mem_drain_nodes.trans ((hreach _).trans mem_drain_nodes.symm)
  have hobjects : (s.drain (c.relisted loops edges)).objects = (s.drain c).objects :=
    IdSet.ext fun o => mem_drain_objects.trans ((hreach _).trans mem_drain_objects.symm)
  exact (State.mk.injEq ..).mpr ⟨hnodes, hobjects, rfl⟩

theorem State.round_relisted (s : State) : s.round (c.relisted loops edges) = s.round c := by
  unfold State.round
  simp only [State.drain_relisted hedges]
  rfl

/-- The room left does not depend on edges, so both runs stop after the same round. -/
theorem run_relisted : run (c.relisted loops edges) = run c :=
  run_congr (State.round_relisted hedges) (fun _ => rfl) rfl rfl rfl

end Taint

namespace BoundCheck

theorem dependencies_relisted (n : NodeId) :
    dependencies (c.relisted loops edges) n = dependencies c n := by
  refine IdSet.ext ?_
  intro m
  unfold dependencies
  rw [IdSet.mem_ofList, IdSet.mem_ofList]
  exact mem_backwardClosure_relisted hedges _ _ m

theorem isRelevant_relisted : isRelevant (c.relisted loops edges) = isRelevant c := by
  funext deps l
  unfold isRelevant
  rw [Bool.eq_iff_iff, List.any_eq_true, List.any_eq_true]
  exact exists_congr fun n => and_congr_left fun _ => mem_backwardClosure_relisted hedges _ _ n

theorem relevantCmps_relisted (paths : List Path) (deps : IdSet) :
    relevantCmps (c.relisted loops edges) paths deps = relevantCmps c paths deps := by
  unfold relevantCmps
  rw [isRelevant_relisted hedges]
  rfl

theorem estimate_relisted (n : NodeId) : estimate (c.relisted loops edges) n = estimate c n := by
  unfold estimate
  rw [dependencies_relisted hedges]
  simp only [relevantCmps_relisted hedges]
  rfl

end BoundCheck

theorem usersFrom_relisted (roots : IdSet) :
    (c.relisted loops edges).usersFrom roots = c.usersFrom roots := by
  refine IdSet.ext ?_
  intro u
  unfold Context.usersFrom
  rw [IdSet.mem_ofList, IdSet.mem_ofList, List.mem_filterMap, List.mem_filterMap]
  exact exists_congr fun n => and_congr_left fun _ => mem_forwardClosure_relisted hedges _ n

theorem users_relisted : (c.relisted loops edges).users = c.users :=
  funext fun _ => usersFrom_relisted hedges _

theorem Candidate.users_relisted :
    Candidate.users (c.relisted loops edges) = Candidate.users c := by
  funext k
  cases k with
  | object o => exact usersFrom_relisted hedges _
  | value v => exact usersFrom_relisted hedges _

theorem Ranking.rank_relisted (findings : List Findings) :
    rank (c.relisted loops edges) findings = rank c findings := by
  have hloads : Candidate.loads (c.relisted loops edges) = Candidate.loads c := by
    funext k
    unfold Candidate.loads
    rw [Candidate.users_relisted hedges]
    rfl
  have hstores : Candidate.stores (c.relisted loops edges) = Candidate.stores c := by
    funext k
    unfold Candidate.stores
    rw [Candidate.users_relisted hedges]
    rfl
  have hobject : rankedObject (c.relisted loops edges) = rankedObject c := by
    funext votes k
    unfold rankedObject
    rw [hloads, hstores]
  unfold rank
  rw [hobject]
  rfl

namespace Rules

theorem unguarded_relisted (t : Taint) : unguarded (c.relisted loops edges) t = unguarded c t := by
  unfold unguarded
  simp only [BoundCheck.estimate_relisted hedges]
  rfl

theorem unboundedAlloc_relisted (t : Taint) :
    unboundedAlloc (c.relisted loops edges) t = unboundedAlloc c t := by
  unfold unboundedAlloc
  simp only [BoundCheck.dependencies_relisted hedges, BoundCheck.relevantCmps_relisted hedges]
  rfl

theorem byUser_relisted (t : Taint) (isWitness : ValueId → Bool) :
    byUser (c.relisted loops edges) t isWitness = byUser c t isWitness := by
  unfold byUser
  rw [users_relisted hedges]
  rfl

end Rules

end

theorem Rules.controlsLoop_relisted (hloops : ∀ l, l ∈ loops ↔ l ∈ c.ir.loops) :
    controlsLoop (c.relisted loops edges) = controlsLoop c := by
  have hany : ∀ p : Loop → Bool, loops.any p = c.ir.loops.any p := by
    intro p
    rw [Bool.eq_iff_iff, List.any_eq_true, List.any_eq_true]
    exact exists_congr fun l => and_congr_left fun _ => hloops l
  funext u
  unfold controlsLoop
  have hlisted : (c.relisted loops edges).ir.loops = loops := rfl
  simp only [hlisted, hany]
  rfl

variable (hloops : ∀ l, l ∈ loops ↔ l ∈ c.ir.loops) (hedges : ∀ e, e ∈ edges ↔ e ∈ c.flow.edges)
include hloops hedges

theorem Rules.flags_relisted (r : Rule) (t : Taint) :
    (Check.ofRule r).flags (c.relisted loops edges) t = (Check.ofRule r).flags c t := by
  cases r with
  | baseline => rfl
  | boundCheck => exact unguarded_relisted hedges t
  | cmpExistence => exact byUser_relisted hedges t _
  | loopUsage =>
    change byUser _ t (controlsLoop (c.relisted loops edges)) = byUser c t (controlsLoop c)
    rw [controlsLoop_relisted hloops]
    exact byUser_relisted hedges t _
  | typeShape => rfl
  | vulnerableArg => exact byUser_relisted hedges t _
  | resizingCast => exact byUser_relisted hedges t _
  | unboundedAlloc => exact unboundedAlloc_relisted hedges t

/-- No stage of a run looks at the order of loops and edges. -/
theorem Outcome.run_relisted (settings : Settings) :
    run (c.relisted loops edges) (Rules.checks settings) = run c (Rules.checks settings) := by
  have hfindings : (Rules.checks settings).map
        (·.run (c.relisted loops edges) (Taint.run c).1) =
      (Rules.checks settings).map (·.run c (Taint.run c).1) := by
    refine List.map_congr_left ?_
    intro k hk
    obtain ⟨r, _, rfl⟩ := List.mem_map.mp hk
    unfold Rules.Check.run
    rw [Rules.flags_relisted hloops hedges]
  unfold run
  simp only [Taint.run_relisted hedges, hfindings, Ranking.rank_relisted hedges]
  rfl

end

namespace Built.Parts

variable {b b' : Built} {t : Tables} {loops : List Loop} {host host' : HostFacts}
  (h : b.Parts t host) (h' : b'.Parts { t with loops } host') (hb : host.Below host')
  (hb' : host'.Below host)
include h h' hb hb'

/-- Callees are sets of functions, whatever order they were recorded in. -/
theorem calls_eq : b'.calls = b.calls := by
  have hsites : (CallGraph.withTargets host'.targets) = CallGraph.withTargets host.targets := by
    funext s
    have hcallees : CallGraph.calleesWith s.site host'.targets s.callees =
        CallGraph.calleesWith s.site host.targets s.callees := by
      refine IdSet.ext ?_
      intro f
      rw [CallGraph.mem_calleesWith, CallGraph.mem_calleesWith]
      exact or_congr_right ⟨fun hm => hb'.targets hm, fun hm => hb.targets hm⟩
    unfold CallGraph.withTargets
    rw [hcallees]
  have hlist : b'.calls.sites = b.calls.sites := by
    rw [h.calls, h'.calls, CallGraph.sites_addTargets, CallGraph.sites_addTargets, hsites,
      h'.ir_withLoops h rfl]
    rfl
  exact (CallGraph.mk.injEq ..).mpr hlist

/-- Points-to sets are the least ones, whatever order the facts are in. -/
theorem answers_eq : b'.pointsTo.answers = b.pointsTo.answers := by
  have hbelow := h.below h' rfl hb
  have hbelow' := h'.below h rfl hb'
  have himage : ∀ v o, o ∈ b'.pointsTo.objects v ↔ o ∈ b.pointsTo.objects v :=
    fun v o => ⟨hbelow'.objects v o, hbelow.objects v o⟩
  have hobjects : b'.pointsTo.objects = b.pointsTo.objects :=
    funext fun v => IdSet.ext (himage v)
  have hpointers : b'.pointsTo.pointers = b.pointsTo.pointers := by
    funext o
    refine IdSet.ext ?_
    intro v
    exact (h'.paired.inverse v o).trans ((himage v o).trans (h.paired.inverse v o).symm)
  exact (PointsToAnswers.mk.injEq ..).mpr ⟨hobjects, hpointers, hbelow'.site⟩

/-- The control flow of a program depends on neither loops nor edges of the value flow. -/
theorem control_eq : b'.program.control = b.program.control := by
  have hcontrol := h'.control
  rw [calls_eq h h' hb hb', h'.ir_withLoops h rfl] at hcontrol
  have hsame : ControlFlow.ofIr (b.program.ir.withLoops loops) b.calls b'.program.flow =
      ControlFlow.ofIr b.program.ir b.calls
        { b.program.flow with nodes := b'.program.flow.nodes } := rfl
  rw [hsame, (h'.below h rfl hb').nodes, h.control] at hcontrol
  exact (Except.ok.inj hcontrol).symm

theorem context_relisted (settings : Settings) :
    b'.context settings = (b.context settings).relisted loops b'.program.flow.edges := by
  have hflow : b'.program.flow = { b.program.flow with edges := b'.program.flow.edges } :=
    (ValueFlow.mk.injEq ..).mpr ⟨(h'.below h rfl hb').nodes, rfl⟩
  have hprogram : b'.program = ⟨b.program.ir.withLoops loops,
      { b.program.flow with edges := b'.program.flow.edges }, b.program.control⟩ :=
    (Program.mk.injEq ..).mpr ⟨h'.ir_withLoops h rfl, hflow, control_eq h h' hb hb'⟩
  have hcalls : b'.calls.answers = b.calls.answers := by rw [calls_eq h h' hb hb']
  exact (Context.mk.injEq ..).mpr ⟨hprogram, answers_eq h h' hb hb', hcalls, rfl⟩

end Built.Parts

/-- Facts are taken as sets. A snapshot that gives the same points-to facts, flows, loops, allocators and
recorded targets in another order, or some of them more than once, builds if the original does, and
every run over it ends with the same outcome. -/
theorem Outcome.run_eq_of_same_facts {s s' : Snapshot} (hext : s.Extends s') (hext' : s'.Extends s)
    {b : Built} (hb : s.build = .ok b) :
    ∃ b', s'.build = .ok b' ∧ ∀ settings,
      run (b'.context settings) (Rules.checks settings) =
        run (b.context settings) (Rules.checks settings) := by
  obtain ⟨t, host, hl, hparts⟩ := Snapshot.build_ok_iff.mp hb
  have h := Built.ofTables_ok_iff.mp hparts
  -- The second snapshot links since it has no more facts than the first, and its facts then bound
  -- those of the first, which links in one way only.
  obtain ⟨loops, host', hl', hloops', hbelow'⟩ := hext'.link hl
  obtain ⟨loops₀, host₀, hl₀, hloops, hbelow⟩ := hext.link hl'
  obtain ⟨ht, rfl⟩ := Prod.mk.inj (Except.ok.inj (hl.symm.trans hl₀))
  have hloops₀ : t.loops = loops₀ := congrArg Tables.loops ht
  obtain ⟨b', h'⟩ := h.exists_of_below hloops' hbelow'
  refine ⟨b', Snapshot.build_ok_iff.mpr ⟨_, _, hl', Built.ofTables_ok_iff.mpr h'⟩, ?_⟩
  intro settings
  have htables := (Ir.ofTables_ok h.ir).1
  rw [h.context_relisted h' hbelow hbelow' settings]
  refine run_relisted ?_ ?_ settings
  · intro l
    change l ∈ loops ↔ l ∈ b.program.ir.tables.loops
    rw [htables]
    exact ⟨fun hm => hloops' hm, fun hm => hloops (hloops₀ ▸ hm)⟩
  · intro e
    exact ⟨fun hm => (h'.below h rfl hbelow').edges hm, fun hm => (h.below h' rfl hbelow).edges hm⟩

/-- `main` takes memory from `get` and hands what it reads there to a handler, in a loop. -/
def dispatchWith (loops : List Snapshot.Loop) (pointsTo flows : List (String × String))
    (allocators targets : List String) : Snapshot where
  globals := [⟨"table", .pointerTo (.int 8), false⟩]
  functions := [
    ⟨"get", .untyped, [⟨"size", .int 64⟩], []⟩,
    ⟨"first", .untyped, [⟨"a", .untyped⟩], [⟨"entry", [⟨none, .ret, none, [.name "a"]⟩], []⟩]⟩,
    ⟨"second", .untyped, [⟨"a", .untyped⟩], [⟨"entry", [
      ⟨some "held", .load, none, [.name "a"]⟩,
      ⟨none, .ret, none, [.name "held"]⟩], []⟩]⟩,
    ⟨"main", .void, [⟨"n", .int 64⟩], [
      ⟨"entry", [
        ⟨some "p", .call (some "get") [], none, [.name "n"]⟩,
        ⟨none, .br, none, []⟩], ["body"]⟩,
      ⟨"body", [
        ⟨some "x", .load, none, [.name "p"]⟩,
        ⟨some "r", .call none targets, none, [.name "x"]⟩,
        ⟨some "more", .icmp, none, [.name "r", .int 0]⟩,
        ⟨none, .br, none, [.name "more"]⟩], ["body", "exit"]⟩,
      ⟨"exit", [⟨none, .ret, none, []⟩], []⟩]⟩]
  loops := loops
  pointsTo := pointsTo
  flows := flows
  allocators := some allocators

def bodyLoop : Snapshot.Loop := ⟨"main", "body", some "body", some "entry", ["body"]⟩

def exitLoop : Snapshot.Loop := ⟨"main", "exit", none, some "body", ["exit"]⟩

def dispatch : Snapshot :=
  dispatchWith [bodyLoop, exitLoop] [("main:x", "table"), ("main:r", "main:p")]
    [("main:p", "main:x"), ("table", "main:r")] ["get", "malloc"] ["first", "second"]

/-- The facts of `dispatch` in another order, some of them repeated. -/
def shuffledDispatch : Snapshot :=
  dispatchWith [exitLoop, bodyLoop, exitLoop]
    [("main:r", "main:p"), ("main:x", "table"), ("main:r", "main:p")]
    [("table", "main:r"), ("main:p", "main:x")] ["malloc", "get", "get"]
    ["second", "first", "second"]

theorem Outcome.dispatch_run_shuffled :
    ∃ b b', dispatch.build = .ok b ∧ shuffledDispatch.build = .ok b' ∧ ∀ settings,
      run (b'.context settings) (Rules.checks settings) =
        run (b.context settings) (Rules.checks settings) := by
  obtain ⟨b, hb⟩ := exists_ok_of_isOk (x := dispatch.build) (by decide +kernel)
  have hext : dispatch.Extends shuffledDispatch :=
    ⟨rfl, by simp [dispatch, shuffledDispatch, dispatchWith], by decide, by decide, by decide, by
      simp [Snapshot.allocatorNames, dispatch, shuffledDispatch, dispatchWith, or_comm]⟩
  have hext' : shuffledDispatch.Extends dispatch :=
    ⟨rfl, by simp [dispatch, shuffledDispatch, dispatchWith], by decide, by decide, by decide,
      fun name => (hext.allocators name).symm⟩
  obtain ⟨b', hb', hrun⟩ := run_eq_of_same_facts hext hext' hb
  exact ⟨b, b', hb, hb', hrun⟩

end PointerTriage
