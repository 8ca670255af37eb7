import PointerTriage.Proofs.Snapshot.Soundness

namespace PointerTriage

namespace ControlFlow

theorem emptyBlock_of_emptyBlock? {ir : Ir} {fault : GraphFault} (h : emptyBlock? ir = some fault) :
    ∃ block function, fault = .emptyBlock block function := by
  obtain ⟨f, _, hf⟩ := List.exists_of_findSome?_eq_some h
  obtain ⟨b, _, rfl⟩ := Option.map_eq_some_iff.mp hf
  exact ⟨b.id, f.name, rfl⟩

theorem emptyBlock?_eq_none_iff {ir : Ir} (hs : ir.tables.Sound) (hh : ir.tables.Housed) :
    emptyBlock? ir = none ↔ ∀ b ∈ ir.blocks, b.instructions ≠ [] := by
  simp only [emptyBlock?, List.findSome?_eq_none_iff, Option.map_eq_none_iff, List.find?_eq_none,
    List.isEmpty_iff, ir.mem_blocks_iff hs hh]
  constructor
  · rintro h b ⟨f, hf, hb⟩
    exact h f hf b hb
  · intro h f hf b hb
    exact h b ⟨f, hf, hb⟩

end ControlFlow

/-- Sound tables with recorded targets on calls make a program, unless a block is empty. -/
theorem Built.ofTables_of_sound {t : Tables} {host : HostFacts} (hs : t.Sound)
    (htargets : ∀ ir : Ir, ir.tables = t → host.checkTargets ir = .ok ()) :
    ∃ ir : Ir, ir.tables = t ∧
      (ControlFlow.emptyBlock? ir = none → ∃ b, ofTables t host = .ok b) ∧
      ∀ fault, ControlFlow.emptyBlock? ir = some fault → ofTables t host = .error fault := by
  obtain ⟨ir, hir, htables⟩ : ∃ ir, Ir.ofTables t = .ok ir ∧ ir.tables = t := by
    rw [Ir.ofTables, Tables.check_ok_iff.mpr hs]
    exact ⟨_, rfl, rfl⟩
  have htargets := htargets ir htables
  refine ⟨ir, htables, ?_, ?_⟩
  · intro hempty
    let calls : CallGraph :=
      host.targets.foldl (fun g target => g.addTarget target.1 target.2) (.ofIr ir)
    let pointsTo := (PointsTo.solve ir host).1
    let flow := ValueFlow.ofIr ir host pointsTo calls
    obtain ⟨control, hcontrol⟩ := ControlFlow.ofIr_of_emptyBlock? hempty calls flow
    exact ⟨⟨⟨ir, flow, control⟩, pointsTo, calls⟩,
      ofTables_ok_iff.mpr ⟨hir, htargets, rfl, rfl, rfl, hcontrol⟩⟩
  · intro fault hempty
    simp only [ofTables, hir, htargets, ControlFlow.ofIr, hempty, bind, Except.bind]

namespace Snapshot

/-- Every block has an instruction. -/
def Filled (s : Snapshot) : Prop := ∀ f ∈ s.functions, ∀ b ∈ f.blocks, b.instructions ≠ []

/-- The recorded targets are functions, and what they are recorded on is a call. -/
def Linked.TargetsOnCalls (l : Linked) (s : Snapshot) : Prop :=
  ∀ target ∈ l.targets, target.2 < s.functions.length ∧
    ∃ value ∈ l.values, value.id = target.1 ∧ ∃ callee, value.opcode? = some (.call callee)

theorem targetsOnCalls_of_linkEach {α : Type} {link : ValueId → α → Except NameFault Linked}
    {s : Snapshot}
    (hitem : ∀ next a one, link next a = .ok one → one.TargetsOnCalls s) {next : ValueId}
    {as : List α} {linked : Linked} (h : linkEach link next as = .ok linked) :
    linked.TargetsOnCalls s := by
  induction as generalizing next linked with
  | nil =>
    cases h
    nofun
  | cons a as ih =>
    simp only [linkEach, except_bind_ok_iff] at h
    obtain ⟨one, hone, rest, hrest, he⟩ := h
    cases he
    intro target htarget
    rcases List.mem_append.mp htarget with htarget | htarget
    · obtain ⟨hlt, value, hvalue, hcall⟩ := hitem _ _ _ hone target htarget
      exact ⟨hlt, value, List.mem_append_left _ hvalue, hcall⟩
    · obtain ⟨hlt, value, hvalue, hcall⟩ := ih hrest target htarget
      exact ⟨hlt, value, List.mem_append_right _ hvalue, hcall⟩

theorem targetsOnCalls_of_linkInstruction {s : Snapshot} {f : NumberedFunction}
    {block next v : Nat} {i : Instruction} {one : Linked}
    (h : s.linkInstruction f block next i v = .ok one) : one.TargetsOnCalls s := by
  obtain ⟨opcode, vs, cs, targets, hopcode, _, htargets, rfl⟩ := linkInstruction_ok h
  intro target htarget
  obtain ⟨function, hfunction, rfl⟩ := List.mem_map.mp htarget
  obtain ⟨name, hname, hid⟩ := origin_of_mapM htargets hfunction
  obtain ⟨hlt, _⟩ := List.findIdx?_eq_some_iff_getElem.mp (functionId_ok_iff.mp hid)
  refine ⟨hlt, _, List.mem_singleton_self _, rfl, ?_⟩
  -- Only calls record targets.
  obtain ⟨_, operation, _, _⟩ := i
  cases operation with
  | call callee names =>
    rcases call_of_opcode hopcode with ⟨_, rfl⟩ | ⟨_, callee, _, rfl, _⟩
    · exact ⟨none, rfl⟩
    · exact ⟨some callee, rfl⟩
  | _ => cases hname

section

variable {s : Snapshot} {code : Linked} {bodies : List (List PointerTriage.Block)} {t : Tables}
  {host : HostFacts} (h : s.Linking code bodies t host)
include h

theorem Linking.targetsOnCalls : code.TargetsOnCalls s := by
  refine targetsOnCalls_of_linkEach ?_ h.functions
  intro next f one hone
  obtain ⟨body, hbody, rfl⟩ := linkFunction_ok hone
  have hcalls : body.TargetsOnCalls s :=
    targetsOnCalls_of_linkEach
      (fun _ _ _ hblock => targetsOnCalls_of_linkEach
        (fun _ _ _ hone => targetsOnCalls_of_linkInstruction hone) hblock) hbody
  intro target htarget
  obtain ⟨hlt, value, hvalue, hcall⟩ := hcalls target htarget
  exact ⟨hlt, value, List.mem_append_right _ hvalue, hcall⟩

theorem Linking.checkTargets {ir : Ir} (hir : ir.tables = t) : host.checkTargets ir = .ok () := by
  subst hir
  rw [HostFacts.checkTargets_ok_iff, h.targets]
  intro target htarget
  obtain ⟨hlt, value, hvalue, hid, callee, hcall⟩ := h.targetsOnCalls target htarget
  have hm : value ∈ ir.tables.values := by simp [h.valueTable, hvalue]
  have hfound : ir.value? target.1 = some value := hid ▸ getElem?_id_of_mem h.sound.value hm
  have hisCall : ir.isCall target.1 = true :=
    Ir.isCall_iff.mpr ⟨callee, by simp [Ir.opcode?, hfound, hcall]⟩
  have hfunction : (ir.function? target.2).isNone = false := by
    simpa [Ir.function?, h.size_functions] using hlt
  simp [HostFacts.checkTarget, hisCall, hfunction]

theorem Linking.filled_iff : (∀ b ∈ t.blocks, b.instructions ≠ []) ↔ s.Filled := by
  have hsame : ∀ nf ∈ s.numbered, ∀ nb ∈ nf.blocks, ∀ b, linkSuccessors nf nb = .ok b →
      (b.instructions ≠ [] ↔ nb.source.instructions ≠ []) := by
    intro nf hnf nb hnb b hlink
    rw [(linkSuccessors_ok hlink).2.2, ← Snapshot.block_of_numbered hnf hnb, ne_eq, ne_eq,
      List.map_eq_nil_iff, List.map_eq_nil_iff]
  rw [Filled, ← forall_numbered_iff]
  constructor
  · intro hblocks nf hnf b hb
    rw [← blocks_of_numbered hnf] at hb
    obtain ⟨nb, hnb, rfl⟩ := List.mem_map.mp hb
    obtain ⟨block, hblock, hlink⟩ := h.block_of_numbered hnf hnb
    exact (hsame nf hnf nb hnb block hlink).mp (hblocks block hblock)
  · intro hfilled b hb
    obtain ⟨nf, hnf, nb, hnb, hlink⟩ := h.block_origin hb
    refine (hsame nf hnf nb hnb b hlink).mpr (hfilled nf hnf nb.source ?_)
    rw [← blocks_of_numbered hnf]
    exact List.mem_map.mpr ⟨nb, hnb, rfl⟩

end

/-- What links is a program, unless one of its blocks is empty. -/
theorem build_of_link {s : Snapshot} {t : Tables} {host : HostFacts} (h : s.link = .ok (t, host)) :
    (s.Filled → ∃ b, s.build = .ok b) ∧
      (¬s.Filled → ∃ block function, s.build = .error (.graph (.emptyBlock block function))) := by
  obtain ⟨code, bodies, hlink⟩ := link_ok_iff.mp h
  obtain ⟨ir, rfl, hok, herror⟩ :=
    Built.ofTables_of_sound hlink.sound fun ir hir => hlink.checkTargets hir
  have hempty : ControlFlow.emptyBlock? ir = none ↔ s.Filled := by
    rw [ControlFlow.emptyBlock?_eq_none_iff hlink.sound (housed_of_link h hlink.sound),
      ← hlink.filled_iff]
    exact forall_congr' fun b => by rw [Ir.mem_blocks]
  unfold build
  rw [h]
  constructor
  · intro hfilled
    obtain ⟨b, hb⟩ := hok (hempty.mpr hfilled)
    exact ⟨b, by simp only [hb]⟩
  · intro hfilled
    obtain ⟨fault, hfault⟩ := Option.ne_none_iff_exists'.mp fun he => hfilled (hempty.mp he)
    obtain ⟨block, function, rfl⟩ := ControlFlow.emptyBlock_of_emptyBlock? hfault
    exact ⟨block, function, by simp only [herror _ hfault]⟩

theorem build_of_link_error {s : Snapshot} {fault : NameFault} (h : s.link = .error fault) :
    s.build = .error (.name fault) := by
  unfold build
  rw [h]

/-- A snapshot is a program exactly if its names are sound and no block is empty. The graph is at fault
exactly if the names are sound, and then for an empty block; in all other cases a name is. -/
theorem builds_iff_wellNamed_and_filled (s : Snapshot) :
    ((∃ b, s.build = .ok b) ↔ s.WellNamed ∧ s.Filled) ∧
      ((∃ fault, s.build = .error (.graph fault)) ↔ s.WellNamed ∧ ¬s.Filled) ∧
      ((∃ fault, s.build = .error (.name fault)) ↔ ¬s.WellNamed) ∧
      ∀ fault, s.build = .error (.graph fault) →
        ∃ block function, fault = .emptyBlock block function := by
  cases hl : s.link with
  | error fault =>
    have hnames : ¬s.WellNamed := by
      rw [← exists_link_iff, hl]
      rintro ⟨_, he⟩
      cases he
    rw [build_of_link_error hl]
    simp [hnames]
  | ok linked =>
    have hnames : s.WellNamed := exists_link_iff.mp ⟨linked, hl⟩
    obtain ⟨hok, hempty⟩ := build_of_link hl
    by_cases hfilled : s.Filled
    · obtain ⟨b, hb⟩ := hok hfilled
      rw [hb]
      simp [hnames, hfilled]
    · obtain ⟨block, function, hb⟩ := hempty hfilled
      rw [hb]
      simp [hnames, hfilled]

end Snapshot

end PointerTriage
