import PointerTriage.Proofs.BoundCheck.Paths
import PointerTriage.Proofs.Graph.Collection
import PointerTriage.Proofs.Program.CrossLinks
import PointerTriage.Proofs.Snapshot.Linking

namespace PointerTriage

namespace ControlFlow

/-- Control can go from a location to `goal` over so many edges. -/
inductive LeadsTo (g : ControlFlow) (goal : LocationId) : Nat → LocationId → Prop where
  | here : LeadsTo g goal 0 goal
  | edge {n : Nat} {e : Edge} (he : e ∈ g.edges) (h : LeadsTo g goal n e.target) :
      LeadsTo g goal (n + 1) e.source

/-- The least number of edges over which control can go from a location to `goal`. -/
structure DistanceTo (g : ControlFlow) (goal : LocationId) (n : Nat) (l : LocationId) : Prop where
  leads : LeadsTo g goal n l
  least : ∀ m, LeadsTo g goal m l → n ≤ m

variable {ir : Ir} {calls : CallGraph} {flow : ValueFlow} {g : ControlFlow}

theorem mem_nodeIds {l : LocationId} : l ∈ g.nodeIds ↔ ∃ n, g.node? l = some n := by
  simp [nodeIds, node?, ← Option.isSome_iff_exists]

theorem IsAt.mem_nodeIds {kinds : List NodeKind} {l : LocationId} (h : g.IsAt kinds l) :
    l ∈ g.nodeIds := by
  obtain ⟨n, hn, _⟩ := h
  exact ControlFlow.mem_nodeIds.mpr ⟨n, hn⟩

/-- Nodes of the value-flow graph sit at locations that exist. -/
theorem mem_nodeIds_of_location (h : ofIr ir calls flow = .ok g) {n : NodeId} {l : LocationId}
    (hl : g.location? n = some l) : l ∈ g.nodeIds := by
  obtain ⟨⟨n', l'⟩, hfound, rfl⟩ := Option.map_eq_some_iff.mp hl
  have hplace := List.mem_of_find?_eq_some hfound
  obtain ⟨_, rfl⟩ := ofIr_ok h
  change (n', l') ∈ (unlinked ir).placesOf ir flow at hplace
  change l' ∈ (unlinked ir).nodeIds
  simp only [placesOf_eq, List.mem_flatMap, Prod.exists, mem_place] at hplace
  obtain ⟨_, point, _, _, hc⟩ := hplace
  cases point with
  | globals =>
    cases hc
    exact ControlFlow.mem_nodeIds.mpr ⟨globalNode, rfl⟩
  | entry f => exact (isAt_entry hc).mem_nodeIds
  | exit f => exact (isAt_exit hc).mem_nodeIds
  | start v => exact (isAt_start hc).mem_nodeIds
  | finish v => exact (isAt_end hc).mem_nodeIds

theorem mem_predecessors {l p : LocationId} :
    p ∈ g.predecessors l ↔ ∃ e ∈ g.edges, e.target = l ∧ e.source = p := by
  simp [predecessors, Graph.mem_into]

/-- The steps of the search are the edges, taken backward. -/
theorem reachesIn_iff_leadsTo (h : ofIr ir calls flow = .ok g) {goal : LocationId}
    (hgoal : goal ∈ g.nodeIds) {n : Nat} {l : LocationId} :
    Graph.ReachesIn g.predecessors g.nodeIds [goal] n l ↔ LeadsTo g goal n l := by
  constructor
  · intro hreach
    induction hreach with
    | seed _ hs =>
      rw [List.mem_singleton.mp hs]
      exact .here
    | step _ _ hp ih =>
      obtain ⟨e, he, rfl, rfl⟩ := mem_predecessors.mp hp
      exact .edge he ih
  · intro hleads
    induction hleads with
    | here => exact .seed hgoal (List.mem_singleton_self goal)
    | edge he _ ih =>
      obtain ⟨a, _, ha, _⟩ := (edges_of_ofIr h).2 _ he
      exact .step ih (mem_nodeIds.mpr ⟨a, ha⟩) (mem_predecessors.mpr ⟨_, he, rfl, rfl⟩)

theorem isDistance_iff_distanceTo (h : ofIr ir calls flow = .ok g) {goal : LocationId}
    (hgoal : goal ∈ g.nodeIds) {n : Nat} {l : LocationId} :
    Graph.IsDistance g.predecessors g.nodeIds [goal] n l ↔ DistanceTo g goal n l := by
  have hiff : ∀ m, _ := fun m => reachesIn_iff_leadsTo h hgoal (n := m) (l := l)
  constructor
  · intro hdist
    exact ⟨(hiff n).mp hdist.reached, fun m hm => hdist.least m ((hiff m).mpr hm)⟩
  · intro hdist
    exact ⟨(hiff n).mpr hdist.leads, fun m hm => hdist.least m ((hiff m).mp hm)⟩

end ControlFlow

/-- The statement at a location is a comparison. -/
def Program.Compares (p : Program) (l : LocationId) : Prop :=
  ∃ f v opcode, p.control.node? l = some ⟨.intraBlock, f, some v⟩ ∧
    p.ir.opcode? v = some opcode ∧ opcode.isCmp = true

namespace BoundCheck

theorem isCmp_iff {c : Context} {l : LocationId} : isCmp c l = true ↔ c.program.Compares l := by
  unfold isCmp cmpAt? Program.Compares
  split
  · rename_i f v hnode
    change c.program.control.node? l = _ at hnode
    rw [hnode]
    cases hop : c.ir.opcode? v with
    | none =>
      change c.program.ir.opcode? v = _ at hop
      simp [hop]
    | some opcode =>
      change c.program.ir.opcode? v = _ at hop
      simp [hop]
  · rename_i hnode
    simp only [Option.isSome_none, Bool.false_eq_true, false_iff]
    rintro ⟨f, v, _, hv, _⟩
    exact hnode f v hv

variable {t : Tables} {host : HostFacts} {b : Built} {n : NodeId} {start : LocationId}

/-- All comparisons before a location, in the order of the search. -/
def cmpsBefore (c : Context) (start : LocationId) : List LocationId :=
  (Graph.reach c.control.predecessors c.control.nodeIds [start]).filter fun l =>
    l != start && isCmp c l

/-- A limit cuts off the list of all comparisons. -/
theorem cmpsUpTo_eq_take (h : b.Parts t host) (settings : Settings)
    (hl : b.program.control.location? n = some start) (cap : Nat) :
    cmpsUpTo (b.context settings) cap n = (cmpsBefore (b.context settings) start).take cap := by
  have hl' : (b.context settings).control.location? n = some start := hl
  rw [cmpsUpTo, hl']
  exact Graph.collect_eq_take _ _ List.nodup_range
    (ControlFlow.mem_nodeIds_of_location h.control hl) cap

theorem mem_cmpsBefore (h : b.Parts t host) (settings : Settings)
    (hstart : start ∈ b.program.control.nodeIds) {l : LocationId} :
    l ∈ cmpsBefore (b.context settings) start ↔
      l ≠ start ∧ b.program.Compares l ∧ ∃ d, b.program.control.LeadsTo start d l := by
  have hreach : l ∈ Graph.reach b.program.control.predecessors b.program.control.nodeIds [start] ↔
      ∃ d, b.program.control.LeadsTo start d l := by
    rw [Graph.mem_reach_iff, Graph.reaches_iff_reachesIn]
    exact exists_congr fun d => ControlFlow.reachesIn_iff_leadsTo h.control hstart
  rw [cmpsBefore, List.mem_filter, Bool.and_eq_true, bne_iff_ne, isCmp_iff]
  exact (and_congr_left fun _ => hreach).trans (by tauto)

/-- A location is no farther from `start` than another. -/
def NoFarther (g : ControlFlow) (start l l' : LocationId) : Prop :=
  ∀ d d', g.DistanceTo start d l → g.DistanceTo start d' l' → d ≤ d'

theorem pairwise_cmpsBefore (h : b.Parts t host) (settings : Settings)
    (hstart : start ∈ b.program.control.nodeIds) :
    (cmpsBefore (b.context settings) start).Pairwise (NoFarther b.program.control start) := by
  refine ((Graph.pairwise_reach _ _ _).imp ?_).filter _
  intro l l' hle d d' hd hd'
  exact hle d d' ((ControlFlow.isDistance_iff_distanceTo h.control hstart).mpr hd)
    ((ControlFlow.isDistance_iff_distanceTo h.control hstart).mpr hd')

/-- There is one list of the comparisons before a node, each once and nearest first, from which every
limit takes the first. None that is left out is nearer than one that is taken, and if fewer are taken
than the limit allows, they are all there are. -/
theorem cmps_are_nearest (hb : Built.ofTables t host = .ok b)
    (hl : b.program.control.location? n = some start) :
    ∃ all : List LocationId, all.Nodup ∧
      (∀ l, l ∈ all ↔
        l ≠ start ∧ b.program.Compares l ∧ ∃ d, b.program.control.LeadsTo start d l) ∧
      all.Pairwise (NoFarther b.program.control start) ∧
      ∀ settings : Settings,
        cmps (b.context settings) n = all.take settings.bound.maxBackwardCmps ∧
        ∀ cap, let found := cmpsUpTo (b.context settings) cap n
          found = all.take cap ∧
          (∀ l ∈ found, ∀ l' ∈ all, l' ∉ found → NoFarther b.program.control start l l') ∧
          (found.length < cap → found = all) := by
  have h := Built.ofTables_ok_iff.mp hb
  have hstart := ControlFlow.mem_nodeIds_of_location h.control hl
  -- The list does not depend on the settings, so any will do.
  have hsame : ∀ settings : Settings,
      cmpsBefore (b.context settings) start = cmpsBefore (b.context .unchanged) start := fun _ => rfl
  have hordered := pairwise_cmpsBefore h .unchanged hstart
  refine ⟨cmpsBefore (b.context .unchanged) start, (Graph.nodup_reach _ _ _).filter _,
    fun l => mem_cmpsBefore h .unchanged hstart, hordered, ?_⟩
  intro settings
  have htake : ∀ cap, cmpsUpTo (b.context settings) cap n =
      (cmpsBefore (b.context .unchanged) start).take cap :=
    fun cap => hsame settings ▸ cmpsUpTo_eq_take h settings hl cap
  refine ⟨htake _, ?_⟩
  intro cap found
  have hfound : found = (cmpsBefore (b.context .unchanged) start).take cap := htake cap
  rw [hfound]
  refine ⟨rfl, ?_, ?_⟩
  · intro l hmem l' hmem' hout
    exact before_of_take hordered hmem hmem' hout
  · intro hfew
    apply List.take_of_length_le
    rw [List.length_take] at hfew
    omega

end BoundCheck

/-- `main` compares its parameter once before a loop and twice in it. -/
def stairs : Snapshot where
  globals := []
  functions := [⟨"main", .void, [⟨"count", .int 64⟩], [
    ⟨"entry", [
      ⟨some "low", .icmp, none, [.name "count", .int 1]⟩,
      ⟨none, .br, none, [.name "low"]⟩], ["loop"]⟩,
    ⟨"loop", [
      ⟨some "middle", .icmp, none, [.name "count", .int 2]⟩,
      ⟨some "high", .icmp, none, [.name "count", .int 3]⟩,
      ⟨none, .br, none, [.name "high"]⟩], ["loop", "done"]⟩,
    ⟨"done", [
      ⟨some "buffer", .alloca (.int 64), none, []⟩,
      ⟨none, .ret, none, []⟩], []⟩]⟩]
  loops := []
  pointsTo := []
  flows := []
  allocators := none

/-- Of the three comparisons before the buffer, at location 8, the settings ask for two. -/
theorem BoundCheck.stairs_nearest : ∃ b, stairs.build = .ok b ∧
    b.program.control.location? 4 = some 8 ∧
    cmps (b.context .unchanged) 4 = [6, 5] ∧ cmpsUpTo (b.context .unchanged) 9 4 = [6, 5, 3] ∧
    (∀ l, l ∈ [6, 5, 3] ↔
      l ≠ 8 ∧ b.program.Compares l ∧ ∃ d, b.program.control.LeadsTo 8 d l) ∧
    [6, 5, 3].Pairwise (NoFarther b.program.control 8) := by
  obtain ⟨b, hb, hvalues⟩ := exists_ok_of_map (x := stairs.build)
    (f := fun b => (b.program.control.location? 4, cmps (b.context .unchanged) 4,
      cmpsUpTo (b.context .unchanged) 9 4)) (y := (some 8, [6, 5], [6, 5, 3])) (by decide +kernel)
  simp only [Prod.mk.injEq] at hvalues
  obtain ⟨hl, htwo, hthree⟩ := hvalues
  obtain ⟨_, _, _, htables⟩ := Snapshot.build_ok_iff.mp hb
  obtain ⟨all, _, hmem, hordered, hfound⟩ := cmps_are_nearest htables hl
  obtain ⟨_, hcaps⟩ := hfound .unchanged
  -- With room for nine, the three that are found are all there are.
  have hall : [6, 5, 3] = all := hthree ▸ (hcaps 9).2.2 (by rw [hthree]; decide)
  subst hall
  exact ⟨b, hb, hl, htwo, hthree, hmem, hordered⟩

end PointerTriage
