import PointerTriage.Proofs.Ranking.Invariance

namespace PointerTriage

namespace Candidate

/-- A value stands for each object that it may point to, and for itself if there is none. -/
def StandsFor (c : Context) (v : ValueId) : Candidate → Prop
  | .object o => o ∈ c.pointsTo.objects v
  | .value w => w = v ∧ c.pointsTo.objects v = ∅

theorem mem_resolve_iff_standsFor {c : Context} {v : ValueId} {k : Candidate} :
    k ∈ resolve c v ↔ k.StandsFor c v := by
  rw [mem_resolve]
  cases k with
  | object o => simp [StandsFor]
  | value w => simp [StandsFor]

theorem eq_of_order {a b : Candidate} (h : a.order b = .eq) : a = b := by
  cases a <;> cases b <;> simp_all [order]

end Candidate

theorem RankedObject.Precedes.order_eq_lt {a b : RankedObject} (h : a.Precedes b)
    (hne : a.candidate ≠ b.candidate) : a.order b = .lt := by
  have hle := isLE_order.mpr h
  have hneq : a.order b ≠ .eq := by
    intro heq
    simp only [order, Ordering.then_eq_eq] at heq
    exact hne (Candidate.eq_of_order heq.2.2)
  cases hord : a.order b with
  | lt => rfl
  | eq => exact absurd hord hneq
  | gt => simp [hord] at hle

namespace Ranking

variable {c : Context} {findings : List Findings}

/-- Some rule flags the value. -/
def Flagged (findings : List Findings) (v : ValueId) : Prop := ∃ r, Flags findings r v

/-- An entry says of its candidate what the findings and the program say. -/
structure Describes (c : Context) (findings : List Findings) (o : RankedObject) : Prop where
  values : ∀ v, v ∈ o.values ↔ Flagged findings v ∧ o.candidate.StandsFor c v
  rules : ∀ r, r ∈ o.rules ↔ r ≠ .baseline ∧ ∃ v, Flags findings r v ∧ o.candidate.StandsFor c v
  distinct : o.rules.Nodup
  ruleCount : o.ruleCount = o.rules.length
  accesses : ∀ a u, u ∈ o.accessedBy a ↔
    c.ir.opcode? u = some a.opcode ∧ u ∈ o.candidate.users c
  usageCount : o.usageCount = o.loads.size + o.stores.size

theorem mem_votes_iff_flags {vote : Vote} :
    vote ∈ votes c findings ↔
      Flags findings vote.rule vote.value ∧ vote.candidate.StandsFor c vote.value := by
  rw [mem_votes, Flags, ← Candidate.mem_resolve_iff_standsFor]
  grind

theorem describes_rankedObject (k : Candidate) :
    Describes c findings (rankedObject c (votes c findings) k) where
  values := by
    intro v
    change v ∈ IdSet.ofList (((votes c findings).filter (·.candidate == k)).map Vote.value) ↔
      Flagged findings v ∧ k.StandsFor c v
    simp only [IdSet.mem_ofList, List.mem_map, List.mem_filter, beq_iff_eq, mem_votes_iff_flags]
    constructor
    · rintro ⟨vote, ⟨⟨hflags, hfor⟩, rfl⟩, rfl⟩
      exact ⟨⟨_, hflags⟩, hfor⟩
    · rintro ⟨⟨r, hflags⟩, hfor⟩
      exact ⟨⟨k, v, r⟩, ⟨⟨hflags, hfor⟩, rfl⟩, rfl⟩
  rules := by
    intro r
    change r ∈ Rule.all.filter (fun r => r.votes &&
      ((votes c findings).filter (·.candidate == k)).any (·.rule == r)) ↔
        r ≠ .baseline ∧ ∃ v, Flags findings r v ∧ k.StandsFor c v
    have hall : r ∈ Rule.all := by cases r <;> decide
    simp only [List.mem_filter, hall, true_and, Bool.and_eq_true, List.any_eq_true, beq_iff_eq,
      mem_votes_iff_flags, Rule.votes, bne_iff_ne]
    refine and_congr_right fun _ => ?_
    constructor
    · rintro ⟨vote, ⟨⟨hflags, hfor⟩, rfl⟩, rfl⟩
      exact ⟨_, hflags, hfor⟩
    · rintro ⟨v, hflags, hfor⟩
      exact ⟨⟨k, v, r⟩, ⟨⟨hflags, hfor⟩, rfl⟩, rfl⟩
  distinct := List.Nodup.filter _ (by decide)
  ruleCount := rfl
  accesses := fun _ _ => mem_accessedBy
  usageCount := rfl

theorem nodup_ranked : ((rank c findings).ranked.map RankedObject.candidate).Nodup :=
  ((sort_perm _).map _).nodup_iff.mpr (nodup_candidates _ (fun _ => rfl) _)

/-- Entries for distinct candidates do not tie. -/
theorem pairwise_ranked : (rank c findings).ranked.Pairwise fun a b => a.order b = .lt := by
  have hdistinct : (rank c findings).ranked.Pairwise fun a b => a.candidate ≠ b.candidate :=
    List.pairwise_map.mp nodup_ranked
  exact (pairwise_sort _).imp₂ (fun _ _ hle hne => hle.order_eq_lt hne) hdistinct

theorem share_pos {n : Nat} (hn : n ≠ 0) (p : Decimal.Binary64) : 0 < share n p := by
  unfold share
  rw [if_neg hn]
  exact Nat.lt_of_lt_of_le Nat.one_pos (Nat.le_max_left 1 _)

theorem selected_eq_nil_iff :
    (rank c findings).selected = [] ↔ (rank c findings).ranked = [] := by
  unfold selected
  rw [List.take_eq_nil_iff]
  refine or_iff_right_of_imp fun htop => ?_
  by_contra hne
  have hpos := share_pos (mt List.length_eq_zero_iff.mp hne) c.settings.ranking.percentile
  exact Nat.ne_of_gt hpos htop

/-- The ranking lists each candidate once, with what is known of it, in strict order, and selects the
first entries. -/
structure Answers (r : Ranking) (c : Context) (findings : List Findings) : Prop where
  candidates : ∀ k, (∃ o ∈ r.ranked, o.candidate = k) ↔
    ∃ v, Flagged findings v ∧ k.StandsFor c v
  single : (r.ranked.map RankedObject.candidate).Nodup
  entries : ∀ o ∈ r.ranked, Describes c findings o
  order : r.ranked.Pairwise fun a b => a.order b = .lt
  selected : r.selected <+: r.ranked
  unselected : ∀ a ∈ r.selected, ∀ b ∈ r.ranked, b ∉ r.selected → a.order b = .lt
  empty : r.selected = [] ↔ r.ranked = []

/-- Whatever is flagged, the ranking answers for it. -/
theorem answers_rank (c : Context) (findings : List Findings) :
    (rank c findings).Answers c findings where
  candidates := by
    intro k
    constructor
    · rintro ⟨o, ho, rfl⟩
      obtain ⟨f, hf, v, hv, k, hk, rfl⟩ := mem_ranked.mp ho
      exact ⟨v, ⟨f.rule, f, hf, rfl, hv⟩, Candidate.mem_resolve_iff_standsFor.mp hk⟩
    · rintro ⟨v, ⟨_, f, hf, _, hv⟩, hk⟩
      have hk := Candidate.mem_resolve_iff_standsFor.mpr hk
      exact ⟨_, mem_ranked.mpr ⟨f, hf, v, hv, k, hk, rfl⟩, rfl⟩
  single := nodup_ranked
  entries := by
    intro o ho
    obtain ⟨_, _, _, _, k, _, rfl⟩ := mem_ranked.mp ho
    exact describes_rankedObject k
  order := pairwise_ranked
  selected := List.take_prefix _ _
  unselected := fun _ ha _ hb hout => before_of_take pairwise_ranked ha hb hout
  empty := selected_eq_nil_iff

end Ranking

end PointerTriage
