import PointerTriage.Proofs.Ranking.Coverage

namespace PointerTriage

namespace Candidate

/-- Objects come before values, and smaller ids first. -/
def Precedes : Candidate → Candidate → Prop
  | .object a, .object b => a ≤ b
  | .object _, .value _ => True
  | .value _, .object _ => False
  | .value a, .value b => a ≤ b

theorem isLE_order {a b : Candidate} : (a.order b).isLE = true ↔ a.Precedes b := by
  cases a <;> cases b <;> simp [order, Precedes, Nat.isLE_compare]

theorem Precedes.trans {a b c : Candidate} (hab : a.Precedes b) (hbc : b.Precedes c) :
    a.Precedes c := by
  cases a <;> cases b <;> cases c <;> simp only [Precedes] at * <;> omega

theorem Precedes.total (a b : Candidate) : a.Precedes b ∨ b.Precedes a := by
  cases a <;> cases b <;> simp only [Precedes, or_true, true_or] <;> omega

theorem Precedes.antisymm {a b : Candidate} (hab : a.Precedes b) (hba : b.Precedes a) : a = b := by
  cases a <;> cases b <;> simp only [Precedes] at hab hba
  · rw [Nat.le_antisymm hab hba]
  · rw [Nat.le_antisymm hab hba]

end Candidate

namespace RankedObject

/-- More rules come first, then more accesses, then the candidate that precedes. -/
def Precedes (a b : RankedObject) : Prop :=
  b.ruleCount < a.ruleCount ∨ b.ruleCount = a.ruleCount ∧
    (b.usageCount < a.usageCount ∨ b.usageCount = a.usageCount ∧ a.candidate.Precedes b.candidate)

theorem isLE_order {a b : RankedObject} : (a.order b).isLE = true ↔ a.Precedes b := by
  simp only [order, Precedes, Ordering.isLE_then_iff_or, Nat.compare_eq_lt, Nat.compare_eq_eq,
    Candidate.isLE_order]

theorem Precedes.trans {a b c : RankedObject} (hab : a.Precedes b) (hbc : b.Precedes c) :
    a.Precedes c := by
  rcases hab with hrule | ⟨hrule, hab⟩
  · rcases hbc with hrule' | ⟨hrule', _⟩
    · exact .inl (by omega)
    · exact .inl (by omega)
  · rcases hbc with hrule' | ⟨hrule', hbc⟩
    · exact .inl (by omega)
    refine .inr ⟨by omega, ?_⟩
    rcases hab with huse | ⟨huse, hab⟩
    · rcases hbc with huse' | ⟨huse', _⟩
      · exact .inl (by omega)
      · exact .inl (by omega)
    · rcases hbc with huse' | ⟨huse', hbc⟩
      · exact .inl (by omega)
      · exact .inr ⟨by omega, hab.trans hbc⟩

theorem Precedes.total (a b : RankedObject) : a.Precedes b ∨ b.Precedes a := by
  unfold Precedes
  rcases Candidate.Precedes.total a.candidate b.candidate with hab | hba
  · simp only [hab, and_true]
    omega
  · simp only [hba, and_true]
    omega

theorem Precedes.candidate_eq {a b : RankedObject} (hab : a.Precedes b) (hba : b.Precedes a) :
    a.candidate = b.candidate := by
  -- With both counts equal, the candidates precede each other.
  rcases hab with hrule | ⟨hrule, hab⟩
  · rcases hba with hrule' | ⟨hrule', _⟩ <;> omega
  rcases hba with hrule' | ⟨_, hba⟩
  · omega
  rcases hab with huse | ⟨huse, hab⟩
  · rcases hba with huse' | ⟨huse', _⟩ <;> omega
  rcases hba with huse' | ⟨_, hba⟩
  · omega
  exact hab.antisymm hba

end RankedObject

namespace Ranking

theorem sort_perm (objects : List RankedObject) : (sort objects).Perm objects :=
  List.mergeSort_perm objects _

theorem pairwise_sort (objects : List RankedObject) :
    (sort objects).Pairwise RankedObject.Precedes := by
  have hsorted : (sort objects).Pairwise fun a b => (a.order b).isLE = true := by
    apply List.pairwise_mergeSort
    · intro a b c hab hbc
      rw [RankedObject.isLE_order] at *
      exact hab.trans hbc
    · intro a b
      rw [Bool.or_eq_true, RankedObject.isLE_order, RankedObject.isLE_order]
      exact RankedObject.Precedes.total a b
  exact hsorted.imp RankedObject.isLE_order.mp

/-- With one entry for each candidate, the order leaves no choice. -/
theorem sort_eq_of_perm {l l' : List RankedObject} (hp : l.Perm l')
    (hd : (l.map RankedObject.candidate).Nodup) : sort l = sort l' := by
  have hperm : (sort l).Perm (sort l') := ((sort_perm l).trans hp).trans (sort_perm l').symm
  refine hperm.eq_of_pairwise ?_ (pairwise_sort l) (pairwise_sort l')
  intro a b ha hb hab hba
  have ha : a ∈ l := (sort_perm l).mem_iff.mp ha
  have hb : b ∈ l := hp.mem_iff.mpr ((sort_perm l').mem_iff.mp hb)
  exact List.inj_on_of_nodup_map hd ha hb (hab.candidate_eq hba)

variable {c : Context}

/-- What is said of a candidate depends on the votes, not on how they are listed. -/
theorem rankedObject_congr {vs ws : List Vote} (h : ∀ vote, vote ∈ vs ↔ vote ∈ ws) :
    rankedObject c vs = rankedObject c ws := by
  funext k
  have hany : ∀ r : Rule, (vs.filter (·.candidate == k)).any (·.rule == r) =
      (ws.filter (·.candidate == k)).any (·.rule == r) := by
    intro r
    rw [Bool.eq_iff_iff]
    simp [h]
  have hvalues : IdSet.ofList ((vs.filter (·.candidate == k)).map Vote.value) =
      .ofList ((ws.filter (·.candidate == k)).map Vote.value) := by
    apply IdSet.ext
    intro v
    simp [IdSet.mem_ofList, h]
  simp only [rankedObject, hany, hvalues]

theorem nodup_candidates (f : Candidate → RankedObject) (hf : ∀ k, (f k).candidate = k)
    (ks : List Candidate) : ((ks.eraseDups.map f).map RankedObject.candidate).Nodup := by
  have hmap : (ks.eraseDups.map f).map RankedObject.candidate = ks.eraseDups := by
    rw [List.map_map]
    exact (List.map_congr_left fun k _ => hf k).trans (List.map_id _)
  rw [hmap]
  exact nodup_eraseDups ks

/-- A rule flags a value in one of the findings. -/
def Flags (findings : List Findings) (r : Rule) (v : ValueId) : Prop :=
  ∃ f ∈ findings, f.rule = r ∧ v ∈ f.values

theorem flags_append {fs gs : List Findings} {r : Rule} {v : ValueId} :
    Flags (fs ++ gs) r v ↔ Flags fs r v ∨ Flags gs r v := by
  simp only [Flags, List.mem_append, or_and_right, exists_or]

theorem flags_cons {f : Findings} {fs : List Findings} {r : Rule} {v : ValueId} :
    Flags (f :: fs) r v ↔ (f.rule = r ∧ v ∈ f.values) ∨ Flags fs r v := by
  simp only [Flags, List.mem_cons, or_and_right, exists_or, exists_eq_left]

/-- The ranking follows from which rule flags which value. -/
theorem rank_congr {findings findings' : List Findings}
    (h : ∀ r v, Flags findings r v ↔ Flags findings' r v) :
    rank c findings = rank c findings' := by
  have hvotes : ∀ vote, vote ∈ votes c findings ↔ vote ∈ votes c findings' := by
    intro vote
    have := h vote.rule vote.value
    unfold Flags at this
    rw [mem_votes, mem_votes]
    grind
  have hobjects : rankedObject c (votes c findings) = rankedObject c (votes c findings') :=
    rankedObject_congr hvotes
  have hcandidates : ((votes c findings).map Vote.candidate).eraseDups.Perm
      ((votes c findings').map Vote.candidate).eraseDups := by
    refine (List.perm_ext_iff_of_nodup (nodup_eraseDups _) (nodup_eraseDups _)).mpr ?_
    intro k
    simp [hvotes]
  have hsort := sort_eq_of_perm (hcandidates.map (rankedObject c (votes c findings)))
    (nodup_candidates _ (fun _ => rfl) _)
  rw [hobjects] at hsort
  simp only [rank, hobjects, hsort]

/-- Findings may be listed in any order, and those of a rule may be split into parts that flag the same
values between them. -/
theorem rank_eq_of_regrouped (c : Context) :
    (∀ findings findings' : List Findings, findings.Perm findings' →
      rank c findings = rank c findings') ∧
    ∀ (before after parts : List Findings) (whole : Findings),
      (∀ part ∈ parts, part.rule = whole.rule) →
      (∀ v, v ∈ whole.values ↔ ∃ part ∈ parts, v ∈ part.values) →
      rank c (before ++ whole :: after) = rank c (before ++ parts ++ after) := by
  constructor
  · intro findings findings' hp
    apply rank_congr
    intro r v
    exact exists_congr fun f => and_congr_left fun _ => hp.mem_iff
  · intro before after parts whole hrule hvalues
    apply rank_congr
    intro r v
    rw [List.append_assoc, flags_append, flags_append, flags_cons, flags_append]
    have hwhole : whole.rule = r ∧ v ∈ whole.values ↔ Flags parts r v := by
      constructor
      · rintro ⟨rfl, hv⟩
        obtain ⟨part, hpart, hv⟩ := (hvalues v).mp hv
        exact ⟨part, hpart, hrule part hpart, hv⟩
      · rintro ⟨part, hpart, rfl, hv⟩
        exact ⟨(hrule part hpart).symm, (hvalues v).mpr ⟨part, hpart, hv⟩⟩
    rw [hwhole]

/-- The findings on two slots and a parameter, with one rule's split in two and listed around the
other's. -/
theorem relay_rank_regrouped : ∃ b, relay.build = .ok b ∧
    let c := b.context .unchanged
    let loop := Findings.ofFlags .loopUsage
    let shape := Findings.ofFlags .typeShape [(4, none), (8, none)]
    (votes c [loop [(4, none), (9, none)], shape]).map Vote.candidate =
      [.object 0, .object 1, .object 0, .value 8] ∧
    rank c [loop [(4, none), (9, none)], shape] =
      rank c [loop [(9, some "buffer")], shape, loop [(4, none)]] := by
  obtain ⟨b, hb⟩ := exists_ok_of_isOk (x := relay.build) (by decide +kernel)
  have hvotes : (relay.build.toOption.map fun b => (votes (b.context .unchanged)
      [.ofFlags .loopUsage [(4, none), (9, none)],
        .ofFlags .typeShape [(4, none), (8, none)]]).map Vote.candidate) =
      some [.object 0, .object 1, .object 0, .value 8] := by decide +kernel
  rw [hb] at hvotes
  refine ⟨b, hb, Option.some.inj hvotes, ?_⟩
  obtain ⟨hperm, hsplit⟩ := rank_eq_of_regrouped (b.context .unchanged)
  refine (hsplit [] _ [.ofFlags .loopUsage [(9, some "buffer")], .ofFlags .loopUsage [(4, none)]] _
    (by decide) ?_).trans (hperm _ _ (.cons _ (.swap _ _ _)))
  have hwhole : (Findings.ofFlags .loopUsage [(4, none), (9, none)]).values = [4, 9] := rfl
  have hfirst : (Findings.ofFlags .loopUsage [(9, some "buffer")]).values = [9] := rfl
  have hsecond : (Findings.ofFlags .loopUsage [(4, none)]).values = [4] := rfl
  simp [hwhole, hfirst, hsecond, or_comm]

end Ranking

end PointerTriage
