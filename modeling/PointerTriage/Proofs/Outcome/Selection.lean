import PointerTriage.Proofs.Outcome.Enabling

namespace PointerTriage

/-- The second settings are the first ones with another share to select. -/
def Settings.Reshares (s s' : Settings) : Prop :=
  s'.toStages = { s.toStages with
    ranking := { s.ranking with percentile := s'.ranking.percentile } }

section

variable {b : Built} {s s' : Settings} (h : s.Reshares s')
include h

theorem Settings.Reshares.eq : ∃ percentile valid,
    s' = ⟨{ s.toStages with ranking := { s.ranking with percentile } }, valid⟩ := by
  refine ⟨s'.ranking.percentile, h ▸ s'.valid, ?_⟩
  obtain ⟨stages, valid⟩ := s'
  congr

theorem Taint.run_of_reshares : Taint.run (b.context s') = Taint.run (b.context s) := by
  have htaint : s'.taint = s.taint := by rw [h]
  exact Taint.run_of_same_stage (b.context s) htaint

/-- No check looks at the share. -/
theorem Rules.run_of_reshares (r : Rule) (taint : Taint) :
    (Check.ofRule r).run (b.context s') taint = (Check.ofRule r).run (b.context s) taint := by
  obtain ⟨_, _, rfl⟩ := h.eq
  cases r <;> rfl

theorem Outcome.findings_of_reshares :
    (run (b.context s') (Rules.checks s')).findings =
      (run (b.context s) (Rules.checks s)).findings := by
  have hchecks : Rules.checks s' = Rules.checks s := by
    obtain ⟨_, _, rfl⟩ := h.eq
    rfl
  change (Rules.checks s').map (·.run (b.context s') (Taint.run (b.context s')).1) =
    (Rules.checks s).map (·.run (b.context s) (Taint.run (b.context s)).1)
  rw [hchecks, Taint.run_of_reshares h, Rules.checks, List.map_map, List.map_map]
  exact List.map_congr_left fun r _ => Rules.run_of_reshares h r _

/-- The share decides how many are selected, not how they are ranked. -/
theorem Outcome.ranked_of_reshares :
    (run (b.context s') (Rules.checks s')).ranking.ranked =
      (run (b.context s) (Rules.checks s)).ranking.ranked := by
  change (Ranking.rank (b.context s') (run (b.context s') (Rules.checks s')).findings).ranked =
    (Ranking.rank (b.context s) (run (b.context s) (Rules.checks s)).findings).ranked
  rw [findings_of_reshares h]
  obtain ⟨_, _, rfl⟩ := h.eq
  rfl

end

namespace Ranking

variable {c : Context} {findings : List Findings} {u : ValueId} {a : Access}

theorem accessesOf_subset {l l' : List RankedObject} (h : l ⊆ l') : accessesOf l ⊆ accessesOf l' := by
  rintro ⟨u, a⟩ hmem
  obtain ⟨o, ho, hu⟩ := mem_accessesOf.mp hmem
  exact mem_accessesOf.mpr ⟨o, h ho, hu⟩

/-- In the prioritized mode the accesses of the selected candidates are protected. -/
theorem mem_prioritized {ir : Ir} :
    (u, a) ∈ (rank c findings).accessesToProtect ir .prioritized ↔
      ∃ o ∈ (rank c findings).selected, u ∈ o.accessedBy a := by
  have hsub := accessesOf_subset (List.take_subset (rank c findings).topK (rank c findings).ranked)
  have hfunctional : IdMap.Functional (accessesOf (rank c findings).selected) :=
    fun k x y hx hy => accesses_functional k x y (hsub hx) (hsub hy)
  exact (IdMap.mem_entries_ofList hfunctional).trans mem_accessesOf

end Ranking

theorem Access.opcode_of_ofDataPointer? {ir : Ir} {v : Value} {a : Access}
    (h : ofDataPointer? ir v = some a) : v.opcode? = some a.opcode := by
  unfold ofDataPointer? at h
  split at h
  · rename_i hop
    split at h
    · cases h
      exact hop
    · cases h
  · rename_i hop
    split at h
    · cases h
      exact hop
    · cases h
  · cases h

namespace Outcome

variable {t : Tables} {host : HostFacts} {b : Built}

theorem ascending_accesses (r : Ranking) (ir : Ir) (mode : Settings.Protection) :
    (r.accessesToProtect ir mode).Pairwise (·.1 < ·.1) := by
  cases mode with
  | none => exact List.Pairwise.nil
  | full => exact IdMap.ascending _
  | prioritized => exact IdMap.ascending _

/-- An access is listed under the kind of its instruction, in every mode. -/
theorem opcode_of_mem_accesses (h : b.Parts t host) (settings : Settings) (checks : List Rules.Check)
    {u : ValueId} {a : Access} (hu : (u, a) ∈ (run (b.context settings) checks).accesses) :
    b.program.ir.opcode? u = some a.opcode := by
  change (u, a) ∈ (Ranking.rank (b.context settings) _).accessesToProtect b.program.ir
    settings.ranking.protection at hu
  cases hmode : settings.ranking.protection with
  | none =>
    rw [hmode] at hu
    exact absurd hu List.not_mem_nil
  | full =>
    rw [hmode] at hu
    obtain ⟨v, hv, hfound⟩ := List.mem_filterMap.mp (IdMap.mem_of_mem_ofList hu)
    obtain ⟨_, hkind, he⟩ := Option.map_eq_some_iff.mp hfound
    cases he
    rw [Ir.opcode?, h.sound.value?_of_mem hv]
    exact Access.opcode_of_ofDataPointer? hkind
  | prioritized =>
    rw [hmode] at hu
    obtain ⟨o, ho, huses⟩ := Ranking.mem_prioritized.mp hu
    exact Ranking.opcode_of_mem_accessesOf
      (Ranking.mem_accessesOf.mpr ⟨o, List.mem_of_mem_take ho, huses⟩)

/-- The share alone does not change the ranking, and with a larger selection no protection is lost.
Under any settings the protected accesses ascend, and each is a load or a store of its kind. -/
theorem larger_selection_protects_more (hb : Built.ofTables t host = .ok b) :
    (∀ s s' : Settings, s.Reshares s' →
      let o := run (b.context s) (Rules.checks s)
      let o' := run (b.context s') (Rules.checks s')
      o'.ranking.ranked = o.ranking.ranked ∧
      (s.ranking.protection = .prioritized → o.ranking.topK ≤ o'.ranking.topK →
        ∀ access ∈ o.accesses, access ∈ o'.accesses)) ∧
    ∀ (settings : Settings) (checks : List Rules.Check),
      let o := run (b.context settings) checks
      o.accesses.Pairwise (·.1 < ·.1) ∧
      ∀ u a, (u, a) ∈ o.accesses → b.program.ir.opcode? u = some a.opcode := by
  constructor
  · intro s s' h o o'
    have hranked : o'.ranking.ranked = o.ranking.ranked := ranked_of_reshares h
    refine ⟨hranked, ?_⟩
    rintro hmode htop ⟨u, a⟩ hu
    have hmode' : s'.ranking.protection = .prioritized := by rw [h]; exact hmode
    change (u, a) ∈ o.ranking.accessesToProtect _ s.ranking.protection at hu
    change (u, a) ∈ o'.ranking.accessesToProtect _ s'.ranking.protection
    rw [hmode] at hu
    rw [hmode']
    obtain ⟨r, hr, huses⟩ := Ranking.mem_prioritized.mp hu
    refine Ranking.mem_prioritized.mpr ⟨r, ?_, huses⟩
    -- Both selections are taken from the front of one list.
    have hr : r ∈ o.ranking.ranked.take o.ranking.topK := hr
    have hwider := (List.take_sublist_take_left htop).subset hr
    rw [← hranked] at hwider
    exact hwider
  · intro settings checks
    refine ⟨ascending_accesses _ _ _, ?_⟩
    intro u a hu
    exact opcode_of_mem_accesses (Built.ofTables_ok_iff.mp hb) settings checks hu

end Outcome

/-- `main` keeps its parameter in two slots and reads one of them again. -/
def twoSlots : Snapshot where
  globals := []
  functions := [⟨"main", .void, [⟨"input", .untyped⟩], [⟨"entry", [
    ⟨some "spare", .alloca .untyped, none, []⟩,
    ⟨some "slot", .alloca .untyped, none, []⟩,
    ⟨none, .store, none, [.name "input", .name "spare"]⟩,
    ⟨none, .store, none, [.name "input", .name "slot"]⟩,
    ⟨some "again", .load, none, [.name "slot"]⟩,
    ⟨none, .ret, none, []⟩], []⟩]⟩]
  loops := []
  pointsTo := []
  flows := []
  allocators := none

def Settings.half : Settings :=
  ⟨(Settings.Draft.onRanking {} ({ · with percentile := .ofNat 50 })).stages,
    Settings.Stages.check_of_isOk (by decide +kernel)⟩

theorem Ranking.topK_rank (c : Context) (findings : List Findings) :
    (rank c findings).topK =
      share ((votes c findings).map Vote.candidate).eraseDups.length
        c.settings.ranking.percentile := by
  simp [rank, sort]

/-- Half of the share selects one slot, all of it both. -/
theorem Outcome.twoSlots_protects_more : Settings.half.Reshares .unchanged ∧
    ∃ b, twoSlots.build = .ok b ∧
      let o := run (b.context .half) (Rules.checks .half)
      let o' := run (b.context .unchanged) (Rules.checks .unchanged)
      o.ranking.topK = 1 ∧ o'.ranking.topK = 2 ∧ o'.ranking.ranked = o.ranking.ranked ∧
      (∀ access ∈ o.accesses, access ∈ o'.accesses) ∧ o'.accesses.Pairwise (·.1 < ·.1) ∧
      ∀ u a, (u, a) ∈ o'.accesses → b.program.ir.opcode? u = some a.opcode := by
  have hshare : Settings.half.Reshares .unchanged := rfl
  obtain ⟨b, hb, htop⟩ := exists_ok_of_map (x := twoSlots.build)
    (f := fun b => (
      Ranking.share ((Ranking.votes (b.context .half)
        (run (b.context .half) (Rules.checks .half)).findings).map
          Ranking.Vote.candidate).eraseDups.length (.ofNat 50),
      Ranking.share ((Ranking.votes (b.context .unchanged)
        (run (b.context .unchanged) (Rules.checks .unchanged)).findings).map
          Ranking.Vote.candidate).eraseDups.length Settings.Ranking.hundred))
    (y := (1, 2)) (by decide +kernel)
  obtain ⟨hone, htwo⟩ := Prod.mk.inj htop
  have hone := (Ranking.topK_rank (b.context .half) _).trans hone
  have htwo := (Ranking.topK_rank (b.context .unchanged) _).trans htwo
  obtain ⟨_, _, _, htables⟩ := Snapshot.build_ok_iff.mp hb
  obtain ⟨hreshared, hkinds⟩ := larger_selection_protects_more htables
  obtain ⟨hranked, hmore⟩ := hreshared _ _ hshare
  refine ⟨hshare, b, hb, hone, htwo, hranked, hmore rfl ?_, hkinds .unchanged _⟩
  exact (Nat.le_of_eq hone).trans (Nat.le_of_lt (Nat.lt_of_lt_of_eq Nat.one_lt_two htwo.symm))

end PointerTriage
