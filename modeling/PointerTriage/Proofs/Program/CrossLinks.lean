import PointerTriage.Proofs.ControlFlow.Transfers
import PointerTriage.Proofs.Outcome.Order
import PointerTriage.Proofs.Snapshot.Layout

namespace PointerTriage

theorem Ir.isGlobal_iff {ir : Ir} {v : ValueId} : ir.isGlobal v = true ↔
    ∃ value shape constant, ir.value? v = some value ∧ value.kind = .global shape constant := by
  unfold Ir.isGlobal
  cases ir.value? v with
  | none => simp
  | some value =>
    cases hk : value.kind with
    | global shape constant =>
      simp only [Option.map_some, hk]
      exact iff_of_true trivial ⟨value, shape, constant, rfl, hk⟩
    | _ => simp [hk]

namespace ControlFlow

/-- Where a value sits. -/
inductive Sits (ir : Ir) : ValueId → Point → Prop where
  | param {f : Function} {p : ValueId} (hf : f ∈ ir.defined) (hp : p ∈ f.params) :
      Sits ir p (.entry f.id)
  | instruction {v : ValueId} (hv : ir.IsInstruction v) : Sits ir v (.start v)
  | global {v : ValueId} (hv : ir.isGlobal v = true) : Sits ir v .globals

/-- The place of a value's node, if both are known. -/
def place (flow : ValueFlow) (v : ValueId) (c : Option LocationId) : List (NodeId × LocationId) :=
  match flow.def? v, c with
  | some n, some c => [(n, c)]
  | _, _ => []

theorem mem_place {flow : ValueFlow} {v : ValueId} {l : Option LocationId} {n : NodeId}
    {c : LocationId} : (n, c) ∈ place flow v l ↔ flow.def? v = some n ∧ l = some c := by
  unfold place
  cases flow.def? v <;> cases l <;> simp [eq_comm]

/-- The values that sit somewhere, each with its point, in the order in which their nodes are placed. -/
def sittings (ir : Ir) : List (ValueId × Point) :=
  (ir.defined.flatMap fun f => f.params.map (·, .entry f.id) ++
    ((ir.body f).flatMap Block.instructions).map fun v => (v, .start v)) ++
  (ir.values.filter (ir.isGlobal ·.id)).map fun v => (v.id, .globals)

theorem placesOf_eq (g : ControlFlow) (ir : Ir) (flow : ValueFlow) : g.placesOf ir flow =
    (sittings ir).flatMap fun s => place flow s.1 (g.locate? s.2) := by
  simp only [sittings, List.flatMap_append, List.flatMap_assoc, List.flatMap_map]
  rfl

section

variable {ir : Ir} (hs : ir.tables.Sound) (hh : ir.tables.Housed)
include hs hh

theorem mem_sittings {v : ValueId} {p : Point} : (v, p) ∈ sittings ir ↔ Sits ir v p := by
  simp only [sittings, List.mem_append, List.mem_flatMap, List.mem_map, List.mem_filter,
    Prod.mk.injEq]
  constructor
  · intro hor
    rcases hor with ⟨f, hf, ⟨_, hv, rfl, rfl⟩ | ⟨_, ⟨b, hb, hv⟩, rfl, rfl⟩⟩ | ⟨_, ⟨_, hv⟩, rfl, rfl⟩
    · exact .param hf hv
    · exact .instruction (Ir.instruction_of_mem hs hh ((Ir.mem_body hs).mp hb).1 hv).1
    · exact .global hv
  · intro hsits
    cases hsits with
    | @param f _ hf hp => exact .inl ⟨f, hf, .inl ⟨v, hp, rfl, rfl⟩⟩
    | instruction hv =>
      obtain ⟨b, hb, hv⟩ := Ir.block_of_instruction hs hh hv
      obtain ⟨f, hf, hbody⟩ := (Ir.mem_blocks_iff hs hh).mp hb
      exact .inl ⟨f, hf, .inr ⟨v, ⟨b, hbody, hv⟩, rfl, rfl⟩⟩
    | global hv =>
      obtain ⟨value, _, _, hvalue, _⟩ := Ir.isGlobal_iff.mp hv
      have hid := hs.id_of_value? hvalue
      exact .inr ⟨value, ⟨Ir.mem_values hvalue, hid ▸ hv⟩, hid, rfl⟩

theorem mem_placesOf {g : ControlFlow} {flow : ValueFlow} {n : NodeId} {c : LocationId} :
    (n, c) ∈ g.placesOf ir flow ↔
      ∃ v p, Sits ir v p ∧ flow.def? v = some n ∧ g.locate? p = some c := by
  simp only [placesOf_eq, List.mem_flatMap, Prod.exists, mem_place, mem_sittings hs hh]

/-- The kind of a value tells where it sits. -/
theorem Sits.iff {value : Value} (hv : value ∈ ir.values) {p : Point} :
    Sits ir value.id p ↔
      match value.kind with
      | .argument f _ => ir.HasBody f ∧ p = .entry f
      | .instruction .. => p = .start value.id
      | .global .. => p = .globals
      | .constant _ => False := by
  have hvalue := hs.value?_of_mem hv
  constructor
  · intro hsits
    generalize hid : value.id = v at hsits
    cases hsits with
    | @param f _ hf hp =>
      obtain ⟨i, hi⟩ := List.mem_iff_getElem?.mp hp
      obtain ⟨value', hvalue', hk⟩ := hh.param f (Ir.mem_defined.mp hf).1 i v hi
      cases (hid ▸ hvalue).symm.trans hvalue'
      simp only [hk, and_true]
      exact (Ir.hasBody_iff hs).mpr ⟨f, hf, rfl⟩
    | instruction hinstruction =>
      obtain ⟨opcode, ho⟩ := hinstruction
      rw [← hid, hs.opcode?_of_mem hv] at ho
      obtain ⟨block, hk⟩ := opcode_kind ho
      simp [hk]
    | global hv =>
      obtain ⟨value', _, _, hvalue', hk⟩ := Ir.isGlobal_iff.mp hv
      cases (hid ▸ hvalue).symm.trans hvalue'
      simp [hk]
  · intro hkind
    cases hk : value.kind with
    | argument f i =>
      simp only [hk] at hkind
      obtain ⟨⟨function, hfun, hbody⟩, rfl⟩ := hkind
      obtain ⟨function', hfun', hparam⟩ := hh.argument value (Array.mem_toList_iff.mp hv) f i hk
      cases hfun.symm.trans hfun'
      have hid : function.id = f := hs.function f function hfun
      rw [← hid]
      exact .param (Ir.mem_defined.mpr ⟨Array.mem_of_getElem? hfun, hbody⟩)
        (List.mem_of_getElem? hparam)
    | instruction opcode block =>
      simp only [hk] at hkind
      subst hkind
      exact .instruction ⟨opcode, by rw [hs.opcode?_of_mem hv, Value.opcode?, hk]⟩
    | global shape constant =>
      simp only [hk] at hkind
      subst hkind
      exact .global (Ir.isGlobal_iff.mpr ⟨value, shape, constant, hvalue, hk⟩)
    | constant c => simp [hk] at hkind

theorem Sits.unique {v : ValueId} {p q : Point} (hp : Sits ir v p) (hq : Sits ir v q) : p = q := by
  have hvalue : ∃ value ∈ ir.values, value.id = v := by
    cases hp with
    | @param f _ hf hp =>
      obtain ⟨i, hi⟩ := List.mem_iff_getElem?.mp hp
      obtain ⟨value, hvalue, _⟩ := hh.param f (Ir.mem_defined.mp hf).1 i v hi
      exact ⟨value, Ir.mem_values hvalue, hs.id_of_value? hvalue⟩
    | instruction hv =>
      obtain ⟨_, ho⟩ := hv
      obtain ⟨value, hvalue, _⟩ := Option.bind_eq_some_iff.mp ho
      exact ⟨value, Ir.mem_values hvalue, hs.id_of_value? hvalue⟩
    | global hv =>
      obtain ⟨value, _, _, hvalue, _⟩ := Ir.isGlobal_iff.mp hv
      exact ⟨value, Ir.mem_values hvalue, hs.id_of_value? hvalue⟩
  obtain ⟨value, hv, rfl⟩ := hvalue
  rw [Sits.iff hs hh hv] at hp hq
  cases hk : value.kind <;> simp_all

end

section

variable {ir : Ir} (hs : ir.tables.Sound) (hh : ir.tables.Housed) {calls : CallGraph}
  {flow : ValueFlow} {g : ControlFlow} (h : ofIr ir calls flow = .ok g)
include hs hh h

theorem mem_places {n : NodeId} {c : LocationId} :
    (n, c) ∈ g.places ↔ ∃ v p, Sits ir v p ∧ flow.def? v = some n ∧ g.locate? p = some c := by
  have hlocate : ∀ p, g.locate? p = (unlinked ir).locate? p := locate?_congr (nodes_of_ofIr h)
  simp only [hlocate]
  obtain ⟨_, rfl⟩ := ofIr_ok h
  exact mem_placesOf hs hh

/-- A node sits at one location. -/
theorem places_unique {n : NodeId} {c c' : LocationId} (hc : (n, c) ∈ g.places)
    (hc' : (n, c') ∈ g.places) : c = c' := by
  obtain ⟨v, p, hp, hv, hl⟩ := (mem_places hs hh h).mp hc
  obtain ⟨w, q, hq, hw, hl'⟩ := (mem_places hs hh h).mp hc'
  cases ValueFlow.eq_of_def? hv hw
  cases hp.unique hs hh hq
  exact Option.some.inj (hl.symm.trans hl')

theorem location?_eq_some_iff {n : NodeId} {c : LocationId} :
    g.location? n = some c ↔ (n, c) ∈ g.places := by
  have hfound : ∀ place, g.places.find? (·.1 == n) = some place →
      place.1 = n ∧ place ∈ g.places := by
    intro place hfind
    exact ⟨by simpa using List.find?_some hfind, List.mem_of_find?_eq_some hfind⟩
  unfold location?
  constructor
  · intro hmap
    obtain ⟨⟨n', c'⟩, hfind, rfl⟩ := Option.map_eq_some_iff.mp hmap
    obtain ⟨rfl, hm⟩ := hfound _ hfind
    exact hm
  · intro hm
    cases hfind : g.places.find? (·.1 == n) with
    | none => simpa using List.find?_eq_none.mp hfind (n, c) hm
    | some place =>
      obtain ⟨n', c'⟩ := place
      obtain ⟨rfl, hm'⟩ := hfound _ hfind
      rw [places_unique hs hh h hm hm', Option.map_some]

/-- The node of a value that sits somewhere has that location. -/
theorem location?_of_sits {v : ValueId} {p : Point} (hp : Sits ir v p) {n : NodeId}
    (hn : flow.def? v = some n) :
    ∃ c, g.locate? p = some c ∧ g.location? n = some c := by
  have hg := nodes_of_ofIr h
  have hlocate : ∃ c, g.locate? p = some c := by
    cases hp with
    | param hf _ =>
      obtain ⟨⟨c, hc, _⟩, _⟩ := doors_of_defined hs hh hg hf
      exact ⟨c, hc⟩
    | instruction hv =>
      obtain ⟨_, _, ⟨c, hc, _⟩, _⟩ := sides_of_instruction hs hh hg hv
      exact ⟨c, hc⟩
    | global => exact ⟨globalBlock, rfl⟩
  obtain ⟨c, hc⟩ := hlocate
  exact ⟨c, hc, (location?_eq_some_iff hs hh h).mpr ((mem_places hs hh h).mpr ⟨v, p, hp, hn, hc⟩)⟩

end

end ControlFlow

theorem ValueFlow.kindOf?_eq_none_iff (ir : Ir) (allocators : List String) {v : Value} :
    kindOf? ir allocators v = none ↔
      (∃ c, v.kind = .constant c) ∨ v.opcode? = some .branch := by
  unfold kindOf? Value.opcode?
  cases v.kind with
  | instruction opcode block => cases opcode <;> simp
  | _ => simp

namespace Built

section

variable {b : Built} {t : Tables} {host : HostFacts} (h : b.Parts t host)
include h

/-- Nodes are those of values that define something. -/
theorem Parts.value_of_node {n : NodeId} {v : ValueId} (hn : b.program.flow.value? n = some v) :
    ∃ value kind, b.program.ir.value? v = some value ∧
      ValueFlow.kindOf? b.program.ir host.allocators value = some kind := by
  obtain ⟨node, hnode, rfl⟩ := Option.map_eq_some_iff.mp hn
  rw [h.flow, ValueFlow.node?_ofIr] at hnode
  obtain ⟨value, hv, hk, hid⟩ := ValueFlow.mem_nodesOf.mp (List.mem_of_getElem? hnode)
  exact ⟨value, node.kind, hid ▸ h.sound.value?_of_mem hv, hk⟩

theorem Parts.def?_iff_value? {v : ValueId} {n : NodeId} :
    b.program.flow.def? v = some n ↔ b.program.flow.value? n = some v := by
  constructor
  · exact ValueFlow.value?_of_def?
  · intro hn
    obtain ⟨node, hnode, rfl⟩ := Option.map_eq_some_iff.mp hn
    exact h.distinct.def?_of_node hnode

theorem Parts.def?_eq_none_iff {v : ValueId} :
    b.program.flow.def? v = none ↔ ∀ value, b.program.ir.value? v = some value →
      (∃ c, value.kind = .constant c) ∨ value.opcode? = some .branch := by
  simp only [← ValueFlow.kindOf?_eq_none_iff b.program.ir host.allocators]
  constructor
  · intro hnone value hvalue
    cases hk : ValueFlow.kindOf? b.program.ir host.allocators value with
    | none => rfl
    | some kind =>
      obtain ⟨n, hn, _⟩ := h.def_of_kind hvalue hk
      cases hnone.symm.trans hn
  · intro hkind
    cases hn : b.program.flow.def? v with
    | none => rfl
    | some n =>
      obtain ⟨value, kind, hvalue, hk⟩ := h.value_of_node (ValueFlow.value?_of_def? hn)
      cases (hkind value hvalue).symm.trans hk

end

/-- The graphs of the program agree on the nodes of values and on where these sit. -/
structure CrossLinked (b : Built) : Prop where
  inverse : ∀ v n, b.program.flow.def? v = some n ↔ b.program.flow.value? n = some v
  undefined : ∀ v, b.program.flow.def? v = none ↔ ∀ value, b.program.ir.value? v = some value →
    (∃ c, value.kind = .constant c) ∨ value.opcode? = some .branch
  paired : ∀ n c, n ∈ b.program.control.flowNodes c ↔ b.program.control.location? n = some c
  instruction : ∀ v n, b.program.ir.IsInstruction v → b.program.flow.def? v = some n →
    ∃ c f, b.program.control.startOf? v = some c ∧ b.program.control.location? n = some c ∧
      b.program.control.node? c =
        some ⟨if b.program.ir.isCall v then .call else .intraBlock, some f, some v⟩
  param : ∀ value ∈ b.program.ir.values, ∀ f i, value.kind = .argument f i →
    b.program.ir.HasBody f → ∃ n c, b.program.flow.def? value.id = some n ∧
      b.program.control.entry? f = some c ∧ b.program.control.location? n = some c ∧
      b.program.control.node? c = some ⟨.funEntry, some f, none⟩
  global : ∀ v, b.program.ir.isGlobal v = true → ∃ n, b.program.flow.def? v = some n ∧
    b.program.control.location? n = some ControlFlow.globalBlock ∧
    b.program.control.node? ControlFlow.globalBlock = some ControlFlow.globalNode
  /-- Only parameters of functions without a body have a node that sits nowhere. -/
  unplaced : ∀ n v, b.program.flow.value? n = some v → (b.program.control.location? n = none ↔
    ∃ value f i, b.program.ir.value? v = some value ∧ value.kind = .argument f i ∧
      ¬ b.program.ir.HasBody f)

/-- The graphs of a program from a snapshot are linked to one another. -/
theorem crossLinked_of_build {s : Snapshot} {b : Built} (h : s.build = .ok b) : b.CrossLinked := by
  obtain ⟨_, host, _, _, hparts, hs, hh⟩ := Snapshot.layout_of_build h
  have hg := ControlFlow.nodes_of_ofIr hparts.control
  constructor
  case inverse => exact fun v n => hparts.def?_iff_value?
  case undefined => exact fun v => hparts.def?_eq_none_iff
  case paired =>
    intro n c
    rw [ControlFlow.location?_eq_some_iff hs hh hparts.control]
    simp [ControlFlow.flowNodes]
  case instruction =>
    intro v n hv hn
    obtain ⟨f, _, ⟨c, hc, hnode⟩, _⟩ := ControlFlow.sides_of_instruction hs hh hg hv
    obtain ⟨c', hc', hlocation⟩ :=
      ControlFlow.location?_of_sits hs hh hparts.control (.instruction hv) hn
    cases hc.symm.trans hc'
    exact ⟨c, f, hc, hlocation, hnode⟩
  case param =>
    intro value hv f i hk hbody
    have hkind : ValueFlow.kindOf? b.program.ir host.allocators value = some .formalParam := by
      simp [ValueFlow.kindOf?, hk]
    obtain ⟨n, hn, _⟩ := hparts.def_of_kind (hs.value?_of_mem hv) hkind
    have hsits := (ControlFlow.Sits.iff hs hh hv).mpr (by rw [hk]; exact ⟨hbody, rfl⟩)
    obtain ⟨c, hc, hlocation⟩ := ControlFlow.location?_of_sits hs hh hparts.control hsits hn
    obtain ⟨node, hnode, hnode'⟩ := (ControlFlow.locate?_eq_some_iff hs hh hg).mp hc
    cases hnode
    exact ⟨n, c, hn, hc, hlocation, hnode'⟩
  case global =>
    intro v hv
    obtain ⟨value, shape, constant, hvalue, hk⟩ := Ir.isGlobal_iff.mp hv
    have hkind : ValueFlow.kindOf? b.program.ir host.allocators value = some .addr := by
      simp [ValueFlow.kindOf?, hk]
    obtain ⟨n, hn, _⟩ := hparts.def_of_kind hvalue hkind
    obtain ⟨c, hc, hlocation⟩ := ControlFlow.location?_of_sits hs hh hparts.control (.global hv) hn
    cases hc
    refine ⟨n, hn, hlocation, ?_⟩
    simp [ControlFlow.node?, hg, ControlFlow.nodesOf, ControlFlow.globalBlock]
  case unplaced =>
    intro n v hn
    obtain ⟨value, kind, hvalue, hkind⟩ := hparts.value_of_node hn
    have hid := hs.id_of_value? hvalue
    subst hid
    have hdef := hparts.def?_iff_value?.mpr hn
    have hsits : (∃ p, ControlFlow.Sits b.program.ir value.id p) ↔
        ¬∃ f i, value.kind = .argument f i ∧ ¬ b.program.ir.HasBody f := by
      simp only [ControlFlow.Sits.iff hs hh (Ir.mem_values hvalue)]
      cases hk : value.kind with
      | constant c => simp [ValueFlow.kindOf?, hk] at hkind
      | _ => simp
    have hlocation : (∃ c, b.program.control.location? n = some c) ↔
        ∃ p, ControlFlow.Sits b.program.ir value.id p := by
      constructor
      · intro hex
        obtain ⟨c, hc⟩ := hex
        rw [ControlFlow.location?_eq_some_iff hs hh hparts.control,
          ControlFlow.mem_places hs hh hparts.control] at hc
        obtain ⟨w, p, hp, hw, _⟩ := hc
        exact ⟨p, ValueFlow.eq_of_def? hdef hw ▸ hp⟩
      · intro hex
        obtain ⟨p, hp⟩ := hex
        obtain ⟨c, _, hc⟩ := ControlFlow.location?_of_sits hs hh hparts.control hp hdef
        exact ⟨c, hc⟩
    rw [Option.eq_none_iff_forall_ne_some, ← not_exists, hlocation, hsits, not_not]
    simp [hvalue]

/-- In `dispatch` the node 10 of the call 11 sits at the call node 14 and at no other location, the
branch 9 has no node, and the node of the parameter 1 of a function without a body sits nowhere. -/
theorem crossLinked_dispatch :
    ∃ b, dispatch.build = .ok b ∧ b.CrossLinked ∧ b.program.flow.def? 9 = none ∧
      b.program.flow.def? 11 = some 10 ∧
      (∀ c, 10 ∈ b.program.control.flowNodes c ↔ c = 14) ∧
      ∃ n, b.program.flow.def? 1 = some n ∧ ∀ c, n ∉ b.program.control.flowNodes c := by
  obtain ⟨b, hb⟩ := exists_ok_of_isOk (x := dispatch.build) (by decide +kernel)
  have hlinked := crossLinked_of_build hb
  have hdefs : (dispatch.build.toOption.map fun b => (b.program.flow.def? 9,
      b.program.flow.def? 11, b.program.flow.def? 1)) = some (none, some 10, some 1) := by
    decide +kernel
  have hplaces : (dispatch.build.toOption.map fun b => (b.program.control.startOf? 11,
      b.program.control.location? 1)) = some (some 14, none) := by decide +kernel
  have hcall : (dispatch.build.toOption.map fun b => b.program.ir.isCall 11) = some true := by
    decide +kernel
  rw [hb] at hdefs hplaces hcall
  simp only [Except.toOption, Option.map_some, Option.some.injEq, Prod.mk.injEq] at hdefs hplaces hcall
  obtain ⟨hbranch, hcallNode, hparam⟩ := hdefs
  obtain ⟨hstart, hnowhere⟩ := hplaces
  obtain ⟨c, _, hc, hlocation, _⟩ :=
    hlinked.instruction 11 10 (Ir.isInstruction_of_isCall hcall) hcallNode
  cases hstart.symm.trans hc
  refine ⟨b, hb, hlinked, hbranch, hcallNode, ?_, 1, hparam, ?_⟩
  · intro c
    rw [hlinked.paired, hlocation, Option.some.injEq, eq_comm]
  · intro c hm
    cases hnowhere.symm.trans ((hlinked.paired 1 c).mp hm)

end Built

end PointerTriage
