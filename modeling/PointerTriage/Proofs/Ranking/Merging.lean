import PointerTriage.Proofs.Ranking.Entries

namespace PointerTriage

theorem Candidate.order_self (a : Candidate) : a.order a = .eq := by
  cases a <;> simp [order]

theorem Candidate.order_trans {a b c : Candidate} (hab : a.order b = .lt) (hbc : b.order c = .lt) :
    a.order c = .lt := by
  cases a <;> cases b <;> cases c <;> simp_all only [order, Nat.compare_eq_lt, reduceCtorEq] <;>
    omega

theorem Candidate.order_of_gt {a b : Candidate} (h : a.order b = .gt) : b.order a = .lt := by
  cases a <;> cases b <;> simp_all [order, Nat.compare_eq_gt, Nat.compare_eq_lt]

theorem Candidate.ne_of_order {a b : Candidate} (h : a.order b = .lt) : a ≠ b := by
  rintro rfl
  cases (order_self a).symm.trans h

namespace Ranking

/-- What is known of a candidate while the findings are read. -/
structure Accumulator where
  rules : List Rule
  values : IdSet

namespace Accumulator

def empty : Accumulator := ⟨[], .empty⟩

/-- A rule that votes is entered in the order of the rules. -/
def take (a : Accumulator) (v : ValueId) (r : Rule) : Accumulator where
  rules := if r.votes then Rule.all.filter fun s => s == r || s ∈ a.rules else a.rules
  values := a.values.insert v

end Accumulator

abbrev Merged := List (Candidate × Accumulator)

namespace Merged

/-- The entry of a candidate is changed, or made where it belongs. -/
def update (k : Candidate) (f : Accumulator → Accumulator) : Merged → Merged
  | [] => [(k, f .empty)]
  | (k', a) :: m =>
    match k.order k' with
    | .lt => (k, f .empty) :: (k', a) :: m
    | .eq => (k', f a) :: m
    | .gt => (k', a) :: update k f m

def ofFindings (c : Context) (findings : List Findings) : Merged :=
  findings.foldl (fun m f =>
    f.values.foldl (fun m v =>
      (Candidate.resolve c v).foldl (fun m k => update k (·.take v f.rule) m) m) m) []

end Merged

def describe (c : Context) (entry : Candidate × Accumulator) : RankedObject :=
  let loads := entry.1.loads c
  let stores := entry.1.stores c
  { candidate := entry.1
    ruleCount := entry.2.rules.length
    usageCount := loads.size + stores.size
    rules := entry.2.rules
    values := entry.2.values
    loads
    stores }

namespace Merged

def Sorted (m : Merged) : Prop := m.Pairwise fun a b => a.1.order b.1 = .lt

/-- What is known of a candidate, nothing if it has no entry. -/
def known (m : Merged) (k : Candidate) : Accumulator :=
  ((m.find? (·.1 == k)).map (·.2)).getD .empty

variable {k k' : Candidate} {a : Accumulator} {f : Accumulator → Accumulator} {m : Merged}

theorem known_of_absent (h : ∀ e ∈ m, e.1 ≠ k) : m.known k = .empty := by
  have hnone : m.find? (·.1 == k) = none := by simpa using h
  simp [known, hnone]

theorem mem_update (hm : m.Sorted) : (k', a) ∈ m.update k f ↔
    if k' = k then a = f (m.known k) else (k', a) ∈ m := by
  induction m with
  | nil => by_cases hk : k' = k <;> simp [update, known, hk]
  | cons entry m ih =>
    obtain ⟨k₁, a₁⟩ := entry
    obtain ⟨hfirst, hm⟩ := List.pairwise_cons.mp hm
    unfold update
    cases hk : k.order k₁ with
    | lt =>
      -- The candidate comes before all entries, so it has none.
      have habsent : ∀ e ∈ (k₁, a₁) :: m, e.1 ≠ k := by
        intro e he
        rcases List.mem_cons.mp he with rfl | he
        · exact (Candidate.ne_of_order hk).symm
        · exact (Candidate.ne_of_order (Candidate.order_trans hk (hfirst e he))).symm
      rw [known_of_absent habsent]
      by_cases heq : k' = k
      · have hout : (k', a) ∉ (k₁, a₁) :: m := fun he => habsent _ he heq
        rw [List.mem_cons, if_pos heq, or_iff_left hout]
        simp [heq]
      · simp [heq]
    | eq =>
      cases Candidate.eq_of_order hk
      have habsent : ∀ e ∈ m, e.1 ≠ k := fun e he => (Candidate.ne_of_order (hfirst e he)).symm
      by_cases heq : k' = k
      · have hout : (k', a) ∉ m := fun he => habsent _ he heq
        rw [List.mem_cons, if_pos heq, or_iff_left hout]
        simp [heq, known]
      · simp [heq]
    | gt =>
      have hne := Candidate.ne_of_order (Candidate.order_of_gt hk)
      have hknown : known ((k₁, a₁) :: m) k = known m k := by simp [known, hne]
      rw [List.mem_cons, ih hm, hknown]
      by_cases heq : k' = k
      · simp [heq, hne.symm]
      · simp [heq]

theorem Sorted.update (hm : m.Sorted) : (m.update k f).Sorted := by
  induction m with
  | nil => exact List.pairwise_singleton _ _
  | cons entry m ih =>
    obtain ⟨k₁, a₁⟩ := entry
    obtain ⟨hfirst, hrest⟩ := List.pairwise_cons.mp hm
    unfold Merged.update
    cases hk : k.order k₁ with
    | lt =>
      refine List.pairwise_cons.mpr ⟨?_, hm⟩
      intro e he
      rcases List.mem_cons.mp he with rfl | he
      · exact hk
      · exact Candidate.order_trans hk (hfirst e he)
    | eq => exact List.pairwise_cons.mpr ⟨hfirst, hrest⟩
    | gt =>
      refine List.pairwise_cons.mpr ⟨?_, ih hrest⟩
      rintro ⟨k', a⟩ he
      rw [mem_update hrest] at he
      split at he
      · rename_i heq
        subst heq
        exact Candidate.order_of_gt hk
      · exact hfirst _ he

end Merged

/-- What the votes say of a candidate. -/
def tally (votes : List Vote) (k : Candidate) : Accumulator where
  rules := Rule.all.filter fun r => r.votes && (votes.filter (·.candidate == k)).any (·.rule == r)
  values := .ofList ((votes.filter (·.candidate == k)).map Vote.value)

theorem tally_of_absent {votes : List Vote} {k : Candidate} (h : k ∉ votes.map Vote.candidate) :
    tally votes k = .empty := by
  have hown : votes.filter (·.candidate == k) = [] := by simpa using h
  simp [tally, hown, Accumulator.empty]
  rfl

theorem tally_concat_own (votes : List Vote) (vote : Vote) :
    tally (votes ++ [vote]) vote.candidate =
      (tally votes vote.candidate).take vote.value vote.rule := by
  have hown : (votes ++ [vote]).filter (·.candidate == vote.candidate) =
      votes.filter (·.candidate == vote.candidate) ++ [vote] := by simp
  unfold tally Accumulator.take
  rw [hown]
  generalize votes.filter (·.candidate == vote.candidate) = own
  congr 1 <;> dsimp only
  · cases hv : vote.rule.votes with
    | false =>
      rw [if_neg Bool.false_ne_true]
      refine List.filter_congr ?_
      intro r _
      have hr : r.votes = true → (vote.rule == r) = false := by
        intro hvotes
        refine beq_false_of_ne ?_
        rintro rfl
        cases hv.symm.trans hvotes
      cases hvotes : r.votes <;> simp [hr, hvotes]
    | true =>
      rw [if_pos rfl]
      refine List.filter_congr ?_
      intro r hall
      rw [Bool.eq_iff_iff]
      by_cases hr : r = vote.rule
      · simp [hr, hv]
      · simp [hr, Ne.symm hr, hall]
  · apply IdSet.ext
    intro v
    simp [IdSet.mem_ofList, or_comm]

theorem tally_concat_other (votes : List Vote) {vote : Vote} {k : Candidate}
    (hk : k ≠ vote.candidate) : tally (votes ++ [vote]) k = tally votes k := by
  simp [tally, hk.symm]

/-- An entry for each candidate of the votes, with what these say of it. -/
structure Merges (votes : List Vote) (m : Merged) : Prop where
  sorted : m.Sorted
  entries : ∀ k a, (k, a) ∈ m ↔ k ∈ votes.map Vote.candidate ∧ a = tally votes k

theorem Merges.known {votes : List Vote} {m : Merged} (h : Merges votes m) (k : Candidate) :
    m.known k = tally votes k := by
  cases hfind : m.find? (·.1 == k) with
  | none =>
    have habsent : k ∉ votes.map Vote.candidate := by
      intro hk
      have he := (h.entries k _).mpr ⟨hk, rfl⟩
      simpa using List.find?_eq_none.mp hfind _ he
    simp [Merged.known, hfind, tally_of_absent habsent]
  | some entry =>
    obtain ⟨k', a⟩ := entry
    obtain rfl : k' = k := by simpa using List.find?_some hfind
    obtain ⟨_, rfl⟩ := (h.entries k' a).mp (List.mem_of_find?_eq_some hfind)
    simp [Merged.known, hfind]

theorem Merges.update {votes : List Vote} {m : Merged} (h : Merges votes m) (vote : Vote) :
    Merges (votes ++ [vote]) (m.update vote.candidate (·.take vote.value vote.rule)) := by
  refine ⟨h.sorted.update, ?_⟩
  intro k a
  rw [Merged.mem_update h.sorted, h.known]
  by_cases hk : k = vote.candidate
  · simp [hk, tally_concat_own]
  · simp [hk, h.entries, tally_concat_other votes hk]

theorem merges_ofFindings (c : Context) (findings : List Findings) :
    Merges (votes c findings) (.ofFindings c findings) := by
  have hfold : Merged.ofFindings c findings = (votes c findings).foldl
      (fun m vote => Merged.update vote.candidate (·.take vote.value vote.rule) m) [] := by
    simp only [Merged.ofFindings, votes, List.foldl_flatMap, List.foldl_map]
  rw [hfold]
  induction votes c findings using List.reverseRecOn with
  | nil => exact ⟨List.Pairwise.nil, by simp⟩
  | append_singleton votes vote ih =>
    rw [List.foldl_concat]
    exact ih.update vote

/-- Reading the findings one after another into one entry for each candidate gives the ranking. -/
theorem rank_eq_merged (c : Context) (findings : List Findings) :
    rank c findings =
      let ranked := sort ((Merged.ofFindings c findings).map (describe c))
      ⟨ranked, share ranked.length c.settings.ranking.percentile⟩ := by
  have h := merges_ofFindings c findings
  generalize Merged.ofFindings c findings = m at h
  have hdescribe : m.map (describe c) =
      (m.map (·.1)).map (rankedObject c (votes c findings)) := by
    rw [List.map_map]
    refine List.map_congr_left ?_
    rintro ⟨k, a⟩ he
    obtain ⟨_, rfl⟩ := (h.entries k a).mp he
    rfl
  have hnodup : (m.map (·.1)).Nodup :=
    List.pairwise_map.mpr (h.sorted.imp Candidate.ne_of_order)
  have hperm : ((votes c findings).map Vote.candidate).eraseDups.Perm (m.map (·.1)) := by
    refine (List.perm_ext_iff_of_nodup (nodup_eraseDups _) hnodup).mpr ?_
    intro k
    rw [List.mem_eraseDups]
    constructor
    · intro hk
      exact List.mem_map.mpr ⟨_, (h.entries k _).mpr ⟨hk, rfl⟩, rfl⟩
    · intro hk
      obtain ⟨⟨k, a⟩, he, rfl⟩ := List.mem_map.mp hk
      exact ((h.entries k a).mp he).1
  have hsort := sort_eq_of_perm (hperm.map (rankedObject c (votes c findings)))
    (nodup_candidates _ (fun _ => rfl) _)
  simp only [rank, hsort, hdescribe]

end Ranking

end PointerTriage
