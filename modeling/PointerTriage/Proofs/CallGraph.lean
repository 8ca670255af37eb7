import PointerTriage.CallGraph
import PointerTriage.PointsTo.Constraint
import PointerTriage.Proofs.ValueFlow.Definitions

namespace PointerTriage

/-- A call may reach the function it names and those that the host found for it. -/
def HostFacts.MayReach (host : HostFacts) (call : Value) (f : FunctionId) : Prop :=
  ∃ callee, call.opcode? = some (.call callee) ∧ (callee = some f ∨ (call.id, f) ∈ host.targets)

/-- A call that hands out no memory passes its arguments on to the functions it may reach. -/
def Ir.Calls (ir : Ir) (host : HostFacts) (call : Value) (f : FunctionId) : Prop :=
  ir.allocates host.allocators call.id = false ∧ host.MayReach call f

/-- The value is a `ret` in a block of the function. -/
def Ir.ReturnsFrom (ir : Ir) (r : Value) (f : FunctionId) : Prop :=
  ∃ block b, r.kind = .instruction .ret block ∧ ir.block? block = some b ∧ b.function = f

/-- Arguments meet parameters at the same position. -/
theorem mem_zip_iff {as ps : List ValueId} {a p : ValueId} :
    (a, p) ∈ as.zip ps ↔ ∃ i : Nat, as[i]? = some a ∧ ps[i]? = some p := by
  simp only [List.mem_iff_getElem?, List.getElem?_zip_eq_some]

theorem Ir.mem_rets {ir : Ir} {f : FunctionId} {r : Value} :
    r ∈ ir.rets f ↔ r ∈ ir.values ∧ ir.ReturnsFrom r f := by
  unfold Ir.rets
  rw [List.mem_filter]
  refine and_congr_right fun _ => ?_
  split
  · rename_i block hk
    simp only [ReturnsFrom, hk, Option.any_eq_true, beq_iff_eq]
    constructor
    · intro hex
      obtain ⟨b, hb, hf⟩ := hex
      exact ⟨block, b, rfl, hb, hf⟩
    · intro hex
      obtain ⟨_, b, hk, hb, hf⟩ := hex
      cases hk
      exact ⟨b, hb, hf⟩
  · rename_i hk
    simp only [Bool.false_eq_true, false_iff]
    intro hex
    obtain ⟨block, _, hk', _⟩ := hex
    exact hk block hk'

theorem HostFacts.mem_targetsOf {host : HostFacts} {v : ValueId} {f : FunctionId} :
    f ∈ host.targetsOf v ↔ (v, f) ∈ host.targets := by
  simp [targetsOf]

theorem HostFacts.mayReach_iff {host : HostFacts} {call : Value} {callee : Option FunctionId}
    (ho : call.opcode? = some (.call callee)) {f : FunctionId} :
    host.MayReach call f ↔ callee = some f ∨ (call.id, f) ∈ host.targets := by
  constructor
  · intro hex
    obtain ⟨callee', ho', hf⟩ := hex
    rw [ho] at ho'
    cases ho'
    exact hf
  · exact fun hf => ⟨callee, ho, hf⟩

/-- A call that names its callee, found by its number. -/
theorem Ir.call_of_callee? {ir : Ir} (hs : ir.tables.Sound) (host : HostFacts) {v : ValueId}
    {f : FunctionId} (hf : ir.callee? v = some f) :
    ∃ call ∈ ir.values, call.id = v ∧ host.MayReach call f ∧
      ∀ i, ir.operand? v i = call.operands[i]? := by
  unfold callee? at hf
  split at hf
  · rename_i callee ho
    obtain ⟨call, hcall, ho⟩ := Option.bind_eq_some_iff.mp ho
    refine ⟨call, mem_values hcall, hs.id_of_value? hcall, ⟨callee, ho, .inl hf⟩, ?_⟩
    intro i
    simp [operand?, hcall]
  · cases hf

namespace CallGraph

/-- Callees, and the targets recorded on a site. -/
def calleesWith (site : ValueId) (targets : List (ValueId × FunctionId)) (callees : IdSet) : IdSet :=
  targets.foldl (fun callees target => if site = target.1 then callees.insert target.2 else callees)
    callees

theorem mem_calleesWith {site : ValueId} {targets : List (ValueId × FunctionId)} {callees : IdSet}
    {f : FunctionId} :
    f ∈ calleesWith site targets callees ↔ f ∈ callees ∨ (site, f) ∈ targets := by
  induction targets generalizing callees with
  | nil => simp [calleesWith]
  | cons target targets ih =>
    obtain ⟨v, callee⟩ := target
    by_cases hv : site = v
    · have hfirst : calleesWith site ((v, callee) :: targets) callees =
          calleesWith site targets (callees.insert callee) := by simp [calleesWith, hv]
      rw [hfirst, ih, IdSet.mem_insert, List.mem_cons, Prod.mk.injEq]
      simp only [hv, true_and]
      rw [or_comm (a := f = callee), or_assoc]
    · have hfirst : calleesWith site ((v, callee) :: targets) callees =
          calleesWith site targets callees := by simp [calleesWith, hv]
      rw [hfirst, ih]
      simp [hv]

/-- The site with the targets recorded on it among its callees. -/
def withTargets (targets : List (ValueId × FunctionId)) (s : CallSite) : CallSite :=
  { s with callees := calleesWith s.site targets s.callees }

/-- Recording targets changes nothing but the callees of the sites. -/
theorem sites_addTargets (targets : List (ValueId × FunctionId)) (g : CallGraph) :
    (targets.foldl (fun g target => g.addTarget target.1 target.2) g).sites =
      g.sites.map (withTargets targets) := by
  induction targets generalizing g with
  | nil => exact (List.map_id' g.sites).symm
  | cons target targets ih =>
    rw [List.foldl_cons, ih, addTarget, List.map_map]
    refine List.map_congr_left ?_
    intro s _
    simp only [Function.comp_apply]
    split
    · rename_i heq
      simp [withTargets, calleesWith, heq]
    · rename_i hne
      simp [withTargets, calleesWith, hne]

theorem find?_addTargets (targets : List (ValueId × FunctionId)) (g : CallGraph) (v : ValueId) :
    (targets.foldl (fun g target => g.addTarget target.1 target.2) g).find? v =
      (g.find? v).map (withTargets targets) := by
  unfold find?
  rw [sites_addTargets, List.find?_map]
  rfl

theorem find?_ofIr {ir : Ir} (hs : ir.tables.Sound) {call : Value} (hc : call ∈ ir.values)
    {callee : Option FunctionId} (ho : call.opcode? = some (.call callee)) :
    (ofIr ir).find? call.id = some ⟨call.id, .ofList callee.toList, call.operands⟩ := by
  have hsite : siteOf? call = some ⟨call.id, .ofList callee.toList, call.operands⟩ := by
    simp [siteOf?, ho]
  have hm : ⟨call.id, .ofList callee.toList, call.operands⟩ ∈ (ofIr ir).sites :=
    List.mem_filterMap.mpr ⟨call, hc, hsite⟩
  cases hf : (ofIr ir).find? call.id with
  | none => simpa using List.find?_eq_none.mp hf _ hm
  | some s =>
    -- A site with this id is the site of the call, since ids are distinct.
    obtain ⟨w, hw, hws⟩ := List.mem_filterMap.mp (List.mem_of_find?_eq_some hf)
    have hid : s.site = call.id := by simpa using List.find?_some hf
    have hwid : w.id = s.site := by
      unfold siteOf? at hws
      split at hws
      · cases hws
        rfl
      · cases hws
    have hwc : w = call := by
      have hlook := hs.value?_of_mem hw
      rw [hwid, hid, hs.value?_of_mem hc] at hlook
      exact (Option.some.inj hlook).symm
    rw [hwc, hsite] at hws
    exact hws.symm

section

variable {ir : Ir} (hs : ir.tables.Sound) (host : HostFacts) {call : Value} (hc : call ∈ ir.values)
  {callee : Option FunctionId} (ho : call.opcode? = some (.call callee))
include hs hc ho

/-- A call has a site, with its own operands and the functions it may reach. -/
theorem site_of_call :
    ∃ s, (host.targets.foldl (fun g target => g.addTarget target.1 target.2) (ofIr ir)).find?
        call.id = some s ∧
      s.arguments = call.operands ∧ ∀ f, f ∈ s.callees ↔ host.MayReach call f := by
  rw [find?_addTargets, find?_ofIr hs hc ho]
  refine ⟨_, rfl, rfl, ?_⟩
  intro f
  rw [withTargets, mem_calleesWith, HostFacts.mayReach_iff ho, IdSet.mem_ofList, Option.mem_toList]

end

end CallGraph

end PointerTriage
