import PointerTriage.Proofs.Graph.Reachability
import PointerTriage.Proofs.PointsTo.Derivation
import PointerTriage.Ranking.Rank

namespace PointerTriage

/-- Answers about pointers that agree with one another: pointers are found from their objects, and the
site of an object points to it. -/
structure PointsToAnswers.Coherent (p : PointsToAnswers) : Prop where
  inverse : ∀ v o, v ∈ p.pointers o ↔ o ∈ p.objects v
  own : ∀ v, ∀ o ∈ p.objects v, ∀ site, p.site? o = some site → o ∈ p.objects site

section

variable {b : Built} {t : Tables} {host : HostFacts} (h : b.Parts t host)
include h

/-- The site of an object points to it. -/
theorem Built.Parts.own {o : ObjectId} {site : ValueId} (hsite : b.pointsTo.site? o = some site) :
    o ∈ b.pointsTo.objects site := by
  rw [h.pointsTo] at hsite ⊢
  rw [PointsTo.site?_solve h.sound] at hsite
  exact (PointsTo.mem_solve_iff h.sound).mpr (.own hsite)

theorem Built.Parts.coherent : b.pointsTo.answers.Coherent where
  inverse := h.paired.inverse
  own _ _ _ _ hsite := h.own hsite

end

namespace Context

variable {c : Context}

/-- The definition of a root flows to a definition of the user. -/
def FlowsTo (c : Context) (root user : ValueId) : Prop :=
  ∃ n, c.def? root = some n ∧ ∃ m ∈ c.flow.forwardClosure [n], c.flow.value? m = some user

theorem mem_usersFrom {roots : IdSet} {u : ValueId} :
    u ∈ c.usersFrom roots ↔ ∃ root ∈ roots, c.FlowsTo root u := by
  simp only [usersFrom, IdSet.mem_ofList, List.mem_filterMap, ValueFlow.forwardClosure]
  constructor
  · intro hex
    obtain ⟨m, hm, hu⟩ := hex
    obtain ⟨n, hn, hm⟩ := Graph.mem_reach_iff_seed.mp hm
    obtain ⟨root, hroot, hn⟩ := List.mem_filterMap.mp hn
    exact ⟨root, hroot, n, hn, m, hm, hu⟩
  · intro hex
    obtain ⟨root, hroot, n, hn, m, hm, hu⟩ := hex
    have hseed : n ∈ roots.toList.filterMap c.def? := List.mem_filterMap.mpr ⟨root, hroot, hn⟩
    exact ⟨m, Graph.mem_reach_iff_seed.mpr ⟨n, hseed, hm⟩, hu⟩

theorem mem_aliases {v w : ValueId} :
    w ∈ c.aliases v ↔ ∃ o ∈ c.pointsTo.objects v, w ∈ c.pointsTo.pointers o := by
  rw [aliases, IdSet.mem_ofList, List.mem_flatMap]
  rfl

theorem mem_users {v u : ValueId} :
    u ∈ c.users v ↔ c.FlowsTo v u ∨
      ∃ o ∈ c.pointsTo.objects v, ∃ w ∈ c.pointsTo.pointers o, c.FlowsTo w u := by
  rw [users, mem_usersFrom]
  constructor
  · intro hex
    obtain ⟨w, hw, hflow⟩ := hex
    rcases IdSet.mem_insert.mp hw with rfl | hw
    · exact .inl hflow
    · obtain ⟨o, ho, hw⟩ := mem_aliases.mp hw
      exact .inr ⟨o, ho, w, hw, hflow⟩
  · intro hor
    rcases hor with hflow | ⟨o, ho, w, hw, hflow⟩
    · exact ⟨v, IdSet.mem_insert.mpr (.inl rfl), hflow⟩
    · exact ⟨w, IdSet.mem_insert.mpr (.inr (mem_aliases.mpr ⟨o, ho, hw⟩)), hflow⟩

/-- The site of an object that something points to is one of its pointers, so that it adds no users. -/
theorem mem_usersOfObject (hc : c.pointsTo.Coherent) {v u : ValueId} {o : ObjectId}
    (ho : o ∈ c.pointsTo.objects v) :
    u ∈ c.usersOfObject o ↔ ∃ w ∈ c.pointsTo.pointers o, c.FlowsTo w u := by
  rw [usersOfObject, mem_usersFrom]
  constructor
  · intro hex
    obtain ⟨w, hw, hflow⟩ := hex
    refine ⟨w, ?_, hflow⟩
    rcases IdSet.mem_union.mp hw with hw | hw
    · exact hw
    · rw [IdSet.mem_ofList, Option.mem_toList] at hw
      exact (hc.inverse w o).mpr (hc.own v o ho w hw)
  · intro hex
    obtain ⟨w, hw, hflow⟩ := hex
    exact ⟨w, IdSet.mem_union.mpr (.inl hw), hflow⟩

end Context

namespace Candidate

variable {c : Context}

theorem mem_resolve {v : ValueId} {k : Candidate} :
    k ∈ resolve c v ↔
      (k = .value v ∧ c.pointsTo.objects v = ∅) ∨ ∃ o ∈ c.pointsTo.objects v, k = .object o := by
  unfold resolve
  cases hlist : (c.pointsTo.objects v).toList with
  | nil =>
    have hempty : c.pointsTo.objects v = ∅ :=
      IdSet.ext fun o => iff_of_false (by simp [IdSet.mem_def, hlist]) (IdSet.not_mem_empty o)
    simp [hempty]
  | cons o os =>
    have hsome : o ∈ c.pointsTo.objects v := by simp [IdSet.mem_def, hlist]
    have hne : c.pointsTo.objects v ≠ ∅ := by
      intro he
      rw [he] at hsome
      exact IdSet.not_mem_empty o hsome
    simp only [← hlist, List.mem_map, hne, and_false, false_or, IdSet.mem_def, eq_comm]

/-- The users of a value are the users of what it stands for. -/
theorem mem_users_iff_resolve (hc : c.pointsTo.Coherent) {v u : ValueId} :
    u ∈ c.users v ↔ ∃ k ∈ resolve c v, u ∈ k.users c := by
  constructor
  · intro hu
    by_cases hnone : c.pointsTo.objects v = ∅
    · exact ⟨.value v, mem_resolve.mpr (.inl ⟨rfl, hnone⟩), hu⟩
    · rcases Context.mem_users.mp hu with hflow | ⟨o, ho, w, hw, hflow⟩
      · -- The value is itself a pointer to any of its objects.
        obtain ⟨o, ho⟩ : ∃ o, o ∈ c.pointsTo.objects v := by
          refine Classical.not_forall_not.mp fun hall => hnone (IdSet.ext fun o => ?_)
          exact iff_of_false (hall o) (IdSet.not_mem_empty o)
        refine ⟨.object o, mem_resolve.mpr (.inr ⟨o, ho, rfl⟩), ?_⟩
        exact (Context.mem_usersOfObject hc ho).mpr ⟨v, (hc.inverse v o).mpr ho, hflow⟩
      · refine ⟨.object o, mem_resolve.mpr (.inr ⟨o, ho, rfl⟩), ?_⟩
        exact (Context.mem_usersOfObject hc ho).mpr ⟨w, hw, hflow⟩
  · intro hex
    obtain ⟨k, hk, hu⟩ := hex
    rcases mem_resolve.mp hk with ⟨rfl, _⟩ | ⟨o, ho, rfl⟩
    · exact hu
    · obtain ⟨w, hw, hflow⟩ := (Context.mem_usersOfObject hc ho).mp hu
      exact Context.mem_users.mpr (.inr ⟨o, ho, w, hw, hflow⟩)

end Candidate

/-- The users of a value that points to objects are the users of its objects. -/
theorem Context.mem_users_iff_objects {c : Context} (hc : c.pointsTo.Coherent) {v u : ValueId}
    (hv : c.pointsTo.objects v ≠ ∅) :
    u ∈ c.users v ↔ ∃ o ∈ c.pointsTo.objects v, u ∈ c.usersOfObject o := by
  rw [Candidate.mem_users_iff_resolve hc]
  constructor
  · intro hex
    obtain ⟨k, hk, hu⟩ := hex
    obtain ⟨o, ho, rfl⟩ := (Candidate.mem_resolve.mp hk).resolve_left fun hnone => hv hnone.2
    exact ⟨o, ho, hu⟩
  · intro hex
    obtain ⟨o, ho, hu⟩ := hex
    exact ⟨.object o, Candidate.mem_resolve.mpr (.inr ⟨o, ho, rfl⟩), hu⟩

/-- What observes a value that points to objects is what observes one of them. An object is observed by
what its pointers flow to, and so by the users of its site, if the site points to nothing else. -/
theorem Built.users_eq_unions {b : Built} {t : Tables} {host : HostFacts}
    (hb : Built.ofTables t host = .ok b) (settings : Settings) :
    let c := b.context settings
    (∀ v, c.pointsTo.objects v ≠ ∅ →
      c.users v = .unions ((c.pointsTo.objects v).toList.map c.usersOfObject)) ∧
    ∀ o site, c.pointsTo.site? o = some site →
      (∀ u, u ∈ c.usersOfObject o ↔ ∃ w, o ∈ c.pointsTo.objects w ∧ c.FlowsTo w u) ∧
      ((∀ o' ∈ c.pointsTo.objects site, o' = o) → c.usersOfObject o = c.users site) := by
  intro c
  have h := Built.ofTables_ok_iff.mp hb
  have hc : c.pointsTo.Coherent := h.coherent
  constructor
  · intro v hv
    apply IdSet.ext
    intro u
    rw [Context.mem_users_iff_objects hc hv, IdSet.mem_unions]
    simp only [List.mem_map, exists_exists_and_eq_and, IdSet.mem_def]
  · intro o site hsite
    have hown : o ∈ c.pointsTo.objects site := h.own hsite
    constructor
    · intro u
      rw [Context.mem_usersOfObject hc hown]
      exact exists_congr fun w => and_congr_left fun _ => hc.inverse w o
    · intro honly
      have hsome : c.pointsTo.objects site ≠ ∅ := by
        intro hnone
        rw [hnone] at hown
        exact IdSet.not_mem_empty o hown
      apply IdSet.ext
      intro u
      rw [Context.mem_users_iff_objects hc hsome]
      constructor
      · intro hu
        exact ⟨o, hown, hu⟩
      · intro hex
        obtain ⟨o', ho', hu⟩ := hex
        rwa [honly o' ho'] at hu

/-- `main` writes to one of two slots, and reads the first. -/
def eitherSlot : Tables where
  values := #[
    ⟨0, some "n", .int 64, .argument 0 0, []⟩,
    ⟨1, some "left", .pointerTo (.int 64), .instruction (.alloca (.int 64)) 0, []⟩,
    ⟨2, some "right", .pointerTo (.int 64), .instruction (.alloca (.int 64)) 0, []⟩,
    ⟨3, none, .void, .instruction .branch 0, [0]⟩,
    ⟨4, some "slot", .pointerTo (.int 64), .instruction .phi 1, [1, 2]⟩,
    ⟨5, none, .void, .instruction .store 1, [0, 4]⟩,
    ⟨6, some "x", .int 64, .instruction .load 1, [1]⟩,
    ⟨7, none, .void, .instruction .ret 1, [6]⟩]
  functions := #[⟨0, "main", [0], [0, 1], .void⟩]
  blocks := #[⟨0, 0, [1, 2, 3], [1]⟩, ⟨1, 0, [4, 5, 6, 7], []⟩]
  loops := []

/-- The slot that is written points to both objects, and `left` only to its own. -/
theorem Built.eitherSlot_users : ∃ b, Built.ofTables eitherSlot plainHost = .ok b ∧
    let c := b.context .unchanged
    (c.pointsTo.objects 4).toList = [0, 1] ∧ (c.usersOfObject 1).toList = [2, 4, 5, 6, 7] ∧
    c.users 4 = .unions ([0, 1].map c.usersOfObject) ∧
    c.pointsTo.site? 0 = some 1 ∧ (∀ o ∈ c.pointsTo.objects 1, o = 0) ∧
    c.usersOfObject 0 = c.users 1 := by
  obtain ⟨b, hb, hvalues⟩ := exists_ok_of_map (x := Built.ofTables eitherSlot plainHost)
    (f := fun b => ((b.pointsTo.objects 4).toList,
      ((b.context .unchanged).usersOfObject 1).toList, b.pointsTo.site? 0,
      (b.pointsTo.objects 1).toList)) (y := ([0, 1], [2, 4, 5, 6, 7], some 1, [0])) (by decide +kernel)
  simp only [Prod.mk.injEq] at hvalues
  obtain ⟨hboth, husers, hsite, hleft⟩ := hvalues
  obtain ⟨hunion, hobjects⟩ := users_eq_unions hb .unchanged
  have hsome : b.pointsTo.objects 4 ≠ ∅ := by
    intro hnone
    rw [hnone] at hboth
    cases hboth
  have honly : ∀ o ∈ b.pointsTo.objects 1, o = 0 := by
    intro o ho
    rw [IdSet.mem_def, hleft] at ho
    exact List.mem_singleton.mp ho
  have hslot := hunion 4 hsome
  change _ = IdSet.unions ((b.pointsTo.objects 4).toList.map _) at hslot
  rw [hboth] at hslot
  exact ⟨b, hb, hboth, husers, hslot, hsite, honly, (hobjects 0 1 hsite).2 honly⟩

end PointerTriage
