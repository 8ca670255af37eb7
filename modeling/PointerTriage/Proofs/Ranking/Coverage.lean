import PointerTriage.Outcome.Basic
import PointerTriage.Proofs.Snapshot.Linking
import PointerTriage.Proofs.Users

namespace PointerTriage

/-- The instruction that makes an access. -/
def Access.opcode : Access → Opcode
  | .load => .load
  | .store => .store

theorem Access.opcode_injective {a b : Access} (h : a.opcode = b.opcode) : a = b := by
  cases a with
  | load =>
    cases b with
    | load => rfl
    | store => cases h
  | store =>
    cases b with
    | load => cases h
    | store => rfl

/-- The users of a candidate that access it in one way. -/
def RankedObject.accessedBy (o : RankedObject) : Access → IdSet
  | .load => o.loads
  | .store => o.stores

namespace Ranking

variable {c : Context} {findings : List Findings}

theorem mem_votes {vote : Vote} :
    vote ∈ votes c findings ↔ ∃ f ∈ findings, f.rule = vote.rule ∧ vote.value ∈ f.values ∧
      vote.candidate ∈ Candidate.resolve c vote.value := by
  obtain ⟨k, v, r⟩ := vote
  simp only [votes, List.mem_flatMap, List.mem_map, Vote.mk.injEq]
  constructor
  · intro hex
    obtain ⟨f, hf, _, hv, _, hk, rfl, rfl, hr⟩ := hex
    exact ⟨f, hf, hr, hv, hk⟩
  · intro hex
    obtain ⟨f, hf, hr, hv, hk⟩ := hex
    exact ⟨f, hf, v, hv, k, hk, rfl, rfl, hr⟩

/-- Exactly the candidates that flagged values stand for are ranked. -/
theorem mem_ranked {o : RankedObject} :
    o ∈ (rank c findings).ranked ↔ ∃ f ∈ findings, ∃ v ∈ f.values, ∃ k ∈ Candidate.resolve c v,
      rankedObject c (votes c findings) k = o := by
  simp only [rank, sort, List.mem_mergeSort, List.mem_map, List.mem_eraseDups]
  constructor
  · intro hex
    obtain ⟨_, ⟨vote, hvote, rfl⟩, ho⟩ := hex
    obtain ⟨f, hf, _, hv, hk⟩ := mem_votes.mp hvote
    exact ⟨f, hf, vote.value, hv, vote.candidate, hk, ho⟩
  · intro hex
    obtain ⟨f, hf, v, hv, k, hk, ho⟩ := hex
    exact ⟨k, ⟨⟨k, v, f.rule⟩, mem_votes.mpr ⟨f, hf, rfl, hv, hk⟩, rfl⟩, ho⟩

theorem mem_accessedBy {votes : List Vote} {k : Candidate} {u : ValueId} {a : Access} :
    u ∈ (rankedObject c votes k).accessedBy a ↔
      c.ir.opcode? u = some a.opcode ∧ u ∈ k.users c := by
  cases a with
  | load =>
    change u ∈ k.loads c ↔ _
    rw [Candidate.loads, IdSet.mem_filter, and_comm]
    refine and_congr_left fun _ => ?_
    split <;> simp_all [Access.opcode]
  | store =>
    change u ∈ k.stores c ↔ _
    rw [Candidate.stores, IdSet.mem_filter, and_comm]
    refine and_congr_left fun _ => ?_
    split <;> simp_all [Access.opcode]

/-- The accesses of a list of candidates, those of one after those of the other. -/
def accessesOf (objects : List RankedObject) : List (ValueId × Access) :=
  objects.flatMap fun o => o.loads.toList.map (·, .load) ++ o.stores.toList.map (·, .store)

theorem mem_accessesOf {objects : List RankedObject} {u : ValueId} {a : Access} :
    (u, a) ∈ accessesOf objects ↔ ∃ o ∈ objects, u ∈ o.accessedBy a := by
  simp only [accessesOf, List.mem_flatMap, List.mem_append, List.mem_map, Prod.mk.injEq]
  refine exists_congr fun o => and_congr_right fun _ => ?_
  cases a <;> simp [RankedObject.accessedBy, IdSet.mem_def]

/-- An access of a ranked candidate is made by its instruction. -/
theorem opcode_of_mem_accessesOf {u : ValueId} {a : Access}
    (h : (u, a) ∈ accessesOf (rank c findings).ranked) :
    c.ir.opcode? u = some a.opcode := by
  obtain ⟨o, ho, hu⟩ := mem_accessesOf.mp h
  obtain ⟨_, _, _, _, _, _, rfl⟩ := mem_ranked.mp ho
  exact (mem_accessedBy.mp hu).1

/-- An access of a ranked candidate is made in one way only. -/
theorem accesses_functional :
    IdMap.Functional (accessesOf (rank c findings).ranked) := by
  intro u a b ha hb
  have heq := (opcode_of_mem_accessesOf ha).symm.trans (opcode_of_mem_accessesOf hb)
  exact Access.opcode_injective (Option.some.inj heq)

/-- With all candidates selected, an access is protected exactly if it uses a flagged value. -/
theorem mem_accessesToProtect (hc : c.pointsTo.Coherent) {ir : Ir}
    (hall : (rank c findings).topK = (rank c findings).ranked.length) {u : ValueId} {a : Access} :
    (u, a) ∈ (rank c findings).accessesToProtect ir .prioritized ↔
      c.ir.opcode? u = some a.opcode ∧ ∃ f ∈ findings, ∃ v ∈ f.values, u ∈ c.users v := by
  have hselected : (rank c findings).selected = (rank c findings).ranked :=
    List.take_of_length_le (Nat.le_of_eq hall.symm)
  have hlist : (rank c findings).accessesToProtect ir .prioritized =
      (IdMap.ofList (accessesOf (rank c findings).ranked)).entries := by
    rw [← hselected]
    rfl
  rw [hlist, IdMap.mem_entries_ofList accesses_functional, mem_accessesOf]
  constructor
  · intro hex
    obtain ⟨o, ho, hu⟩ := hex
    obtain ⟨f, hf, v, hv, k, hk, rfl⟩ := mem_ranked.mp ho
    obtain ⟨hop, hu⟩ := mem_accessedBy.mp hu
    exact ⟨hop, f, hf, v, hv, (Candidate.mem_users_iff_resolve hc).mpr ⟨k, hk, hu⟩⟩
  · intro hex
    obtain ⟨hop, f, hf, v, hv, hu⟩ := hex
    obtain ⟨k, hk, hu⟩ := (Candidate.mem_users_iff_resolve hc).mp hu
    exact ⟨_, mem_ranked.mpr ⟨f, hf, v, hv, k, hk, rfl⟩, mem_accessedBy.mpr ⟨hop, hu⟩⟩

end Ranking

/-- A run that selects everything it ranks protects exactly the loads and stores among the complete
users of flagged values, whatever the rules are that flag. -/
theorem Outcome.mem_accesses_iff_uses_flagged {t : Tables} {host : HostFacts} {b : Built}
    (h : Built.ofTables t host = .ok b) (settings : Settings) (checks : List Rules.Check)
    (hmode : settings.ranking.protection = .prioritized)
    (hall : (run (b.context settings) checks).ranking.topK =
      (run (b.context settings) checks).ranking.ranked.length) (u : ValueId) (a : Access) :
    (u, a) ∈ (run (b.context settings) checks).accesses ↔
      b.program.ir.opcode? u = some a.opcode ∧
      ∃ f ∈ (run (b.context settings) checks).findings, ∃ v ∈ f.values,
        u ∈ (b.context settings).users v := by
  have hc := (Built.ofTables_ok_iff.mp h).coherent
  change (u, a) ∈ (run (b.context settings) checks).ranking.accessesToProtect _
    settings.ranking.protection ↔ _
  rw [hmode]
  exact Ranking.mem_accessesToProtect hc hall

/-- Two rules flag the slot of `keep`, and the store to it and the load from it are protected. -/
theorem Outcome.relay_accesses : ∃ b, relay.build = .ok b ∧
    ∀ u a, (u, a) ∈ [(5, Access.store), (6, Access.load)] ↔
      b.program.ir.opcode? u = some a.opcode ∧
      ∃ f ∈ (run (b.context .unchanged) (Rules.checks .unchanged)).findings, ∃ v ∈ f.values,
        u ∈ (b.context .unchanged).users v := by
  obtain ⟨b, hb⟩ := exists_ok_of_isOk (x := relay.build) (by decide +kernel)
  have hrun : (relay.build.toOption.map fun b =>
      let outcome := run (b.context .unchanged) (Rules.checks .unchanged)
      (outcome.ranking.topK, outcome.ranking.ranked.length, outcome.accesses)) =
      some (1, 1, [(5, .store), (6, .load)]) := by decide +kernel
  rw [hb] at hrun
  obtain ⟨htop, hrest⟩ := Prod.mk.inj (Option.some.inj hrun)
  obtain ⟨hranked, haccesses⟩ := Prod.mk.inj hrest
  obtain ⟨t, host, _, ht⟩ := Snapshot.build_ok_iff.mp hb
  refine ⟨b, hb, ?_⟩
  intro u a
  rw [← haccesses]
  exact mem_accesses_iff_uses_flagged ht .unchanged _ rfl (htop.trans hranked.symm) u a

end PointerTriage
