import PointerTriage.Proofs.BoundCheck.Guards
import PointerTriage.Proofs.Outcome.Statistics
import PointerTriage.Proofs.Program.Allocations
import PointerTriage.Proofs.Ranking.Invariance

namespace PointerTriage

namespace Findings

theorem rule_foldl (flags : List (ValueId × Option String)) (f : Findings) :
    (flags.foldl (fun f (v, note) => f.flag v note) f).rule = f.rule := by
  induction flags generalizing f with
  | nil => rfl
  | cons flag flags ih =>
    rw [List.foldl_cons, ih]
    rfl

theorem rule_ofFlags (r : Rule) (flags : List (ValueId × Option String)) :
    (ofFlags r flags).rule = r := rule_foldl flags (empty r)

end Findings

namespace Rules

variable {c : Context} {taint : Taint} {v : ValueId}

theorem mem_baseline :
    v ∈ ((Check.ofRule .baseline).run c taint).values ↔ v ∈ taint.flagged c.program := by
  rw [Check.run, Findings.mem_values_ofFlags]
  change (∃ note, (v, note) ∈ baseline c taint) ↔ _
  simp [baseline]

theorem flagged_of_byUser {isWitness : ValueId → Bool} {note : Option String}
    (h : (v, note) ∈ byUser c taint isWitness) : v ∈ taint.flagged c.program := by
  obtain ⟨w, hw, hfound⟩ := List.mem_filterMap.mp h
  obtain ⟨_, _, hflag⟩ := Option.map_eq_some_iff.mp hfound
  cases hflag
  exact hw

/-- All rules but two choose among the tainted data pointers. -/
theorem flagged_of_mem_values {r : Rule} (hshape : r ≠ .typeShape) (hrequest : r ≠ .unboundedAlloc)
    (h : v ∈ ((Check.ofRule r).run c taint).values) : v ∈ taint.flagged c.program := by
  cases r with
  | baseline => exact mem_baseline.mp h
  | boundCheck => exact (mem_unguarded.mp h).1
  | typeShape => exact absurd rfl hshape
  | unboundedAlloc => exact absurd rfl hrequest
  | cmpExistence | loopUsage | vulnerableArg | resizingCast =>
    obtain ⟨note, hnote⟩ := Findings.mem_values_ofFlags.mp h
    exact flagged_of_byUser hnote

theorem kind_of_holdsPointer {value : Value} (h : holdsPointer value = true) (ir : Ir)
    (allocators : List String) : ValueFlow.kindOf? ir allocators value = some .addr := by
  unfold holdsPointer at h
  unfold ValueFlow.kindOf?
  split at h
  · rename_i hk
    rw [hk]
  · rename_i hk
    rw [hk]
  · cases h

theorem mem_pointerAfterBuffer {note : Option String} (h : (v, note) ∈ pointerAfterBuffer c) :
    ∃ value ∈ c.ir.values, value.id = v ∧ holdsPointer value = true := by
  obtain ⟨value, hvalue, hflag⟩ := List.mem_filterMap.mp h
  obtain ⟨hmem, hholds⟩ := List.mem_filter.mp hvalue
  refine ⟨value, hmem, ?_, hholds⟩
  split at hflag
  · split at hflag
    · cases hflag
      rfl
    · cases hflag
  · cases hflag

end Rules

section

variable {b : Built} {t : Tables} {host : HostFacts} (h : b.Parts t host) {settings : Settings}
  {taint : Taint} {v : ValueId}
include h

theorem Built.Parts.allocates_of_typeShape
    (hv : v ∈ ((Rules.Check.ofRule .typeShape).run (b.context settings) taint).values) :
    b.program.ir.allocates host.allocators v = true := by
  obtain ⟨note, hnote⟩ := Findings.mem_values_ofFlags.mp hv
  obtain ⟨value, hmem, rfl, hholds⟩ := Rules.mem_pointerAfterBuffer hnote
  exact allocates_of_kind (h.sound.value?_of_mem hmem) (Rules.kind_of_holdsPointer hholds _ _)

/-- What a rule flags has an object and points to it, unless it is a request for memory. -/
theorem Built.Parts.object_of_mem_values {r : Rule} (hr : r ≠ .unboundedAlloc)
    (hv : v ∈ ((Rules.Check.ofRule r).run (b.context settings) taint).values) :
    ∃ o, b.pointsTo.site? o = some v ∧ o ∈ b.pointsTo.objects v := by
  by_cases hshape : r = .typeShape
  · subst hshape
    obtain ⟨n, hn⟩ := h.node_iff_allocates.mpr (h.allocates_of_typeShape hv)
    exact h.object_of_node hn
  · obtain ⟨n, _, hn, _⟩ := Taint.mem_flagged.mp (Rules.flagged_of_mem_values hshape hr hv)
    exact h.object_of_node hn

end

namespace Ranking

variable {c : Context} {findings : List Findings} {v : ValueId}

theorem exists_ranked_object {r : Rule} (hf : Flags findings r v) {o : ObjectId}
    (ho : o ∈ c.pointsTo.objects v) :
    ∃ entry ∈ (rank c findings).ranked, entry.candidate = .object o := by
  obtain ⟨f, hf, _, hv⟩ := hf
  have hk : .object o ∈ Candidate.resolve c v := Candidate.mem_resolve.mpr (.inr ⟨o, ho, rfl⟩)
  exact ⟨_, mem_ranked.mpr ⟨f, hf, v, hv, .object o, hk, rfl⟩, rfl⟩

/-- A value is a candidate only if it is flagged and has no objects. -/
theorem flags_of_ranked_value {entry : RankedObject} (he : entry ∈ (rank c findings).ranked)
    (hk : entry.candidate = .value v) :
    (∃ r, Flags findings r v) ∧ c.pointsTo.objects v = ∅ := by
  obtain ⟨f, hf, w, hw, k, hresolve, rfl⟩ := mem_ranked.mp he
  have hk : k = .value v := hk
  subst hk
  rcases Candidate.mem_resolve.mp hresolve with ⟨hself, hnone⟩ | ⟨o, _, hobject⟩
  · cases hself
    exact ⟨⟨f.rule, f, hf, rfl, hw⟩, hnone⟩
  · cases hobject

end Ranking

namespace Outcome

/-- A rule flags a value in a run if it is enabled and its check flags the value. -/
theorem flags_run {c : Context} {settings : Settings} {r : Rule} {v : ValueId} :
    Ranking.Flags (run c (Rules.checks settings)).findings r v ↔
      settings.rules.isEnabled r = true ∧
        v ∈ ((Rules.Check.ofRule r).run c (Taint.run c).1).values := by
  have hfindings : (run c (Rules.checks settings)).findings =
      settings.enabled.map fun r => (Rules.Check.ofRule r).run c (Taint.run c).1 :=
    List.map_map
  have hrule : ∀ r, ((Rules.Check.ofRule r).run c (Taint.run c).1).rule = r :=
    fun r => Findings.rule_ofFlags r _
  have hall : r ∈ Rule.all := by cases r <;> decide
  rw [Ranking.Flags, hfindings]
  simp only [List.mem_map, exists_exists_and_eq_and, hrule, Settings.enabled, List.mem_filter]
  constructor
  · intro hex
    obtain ⟨_, ⟨_, henabled⟩, rfl, hv⟩ := hex
    exact ⟨henabled, hv⟩
  · intro hflags
    exact ⟨r, ⟨hall, hflags.1⟩, rfl, hflags.2⟩

/-- Five rules flag only what the baseline does. Flagged allocations are ranked with their own object.
A value is ranked only as a request that no other rule flags and that points to nothing. -/
structure Traced (o : Outcome) (pointsTo : PointsTo) : Prop where
  baseline : ∀ r ∈ [Rule.boundCheck, .cmpExistence, .loopUsage, .vulnerableArg, .resizingCast],
    ∀ v, Ranking.Flags o.findings r v → Ranking.Flags o.findings .baseline v
  object : ∀ r v, r ≠ .unboundedAlloc → Ranking.Flags o.findings r v →
    ∃ object, pointsTo.site? object = some v ∧
      ∃ entry ∈ o.ranking.ranked, entry.candidate = .object object
  value : ∀ entry ∈ o.ranking.ranked, ∀ v, entry.candidate = .value v →
    (∀ r, Ranking.Flags o.findings r v ↔ r = .unboundedAlloc) ∧ pointsTo.objects v = ∅

/-- Whatever the settings are, findings and candidates can be traced. -/
theorem traced_run {t : Tables} {host : HostFacts} {b : Built} (hb : Built.ofTables t host = .ok b)
    (settings : Settings) : (run (b.context settings) (Rules.checks settings)).Traced b.pointsTo := by
  have h := Built.ofTables_ok_iff.mp hb
  constructor
  case baseline =>
    intro r hr v hflags
    have hv := (flags_run.mp hflags).2
    refine flags_run.mpr ⟨rfl, Rules.mem_baseline.mpr (Rules.flagged_of_mem_values ?_ ?_ hv)⟩
    · rintro rfl
      simp at hr
    · rintro rfl
      simp at hr
  case object =>
    intro r v hr hflags
    obtain ⟨object, hsite, howns⟩ := h.object_of_mem_values hr (flags_run.mp hflags).2
    exact ⟨object, hsite, Ranking.exists_ranked_object hflags howns⟩
  case value =>
    intro entry he v hk
    obtain ⟨⟨r, hflags⟩, hnone⟩ := Ranking.flags_of_ranked_value he hk
    have hnone : b.pointsTo.objects v = ∅ := hnone
    -- Any other rule would have flagged an allocation, which points to its own object.
    have hrequest : ∀ r, Ranking.Flags (run (b.context settings) (Rules.checks settings)).findings r v →
        r = .unboundedAlloc := by
      intro r hflags
      by_contra hr
      obtain ⟨object, _, howns⟩ := h.object_of_mem_values hr (flags_run.mp hflags).2
      rw [hnone] at howns
      exact IdSet.not_mem_empty object howns
    refine ⟨fun r' => ⟨hrequest r', ?_⟩, hnone⟩
    rintro rfl
    exact hrequest r hflags ▸ hflags

/-- In `relay` the slot 4 is unguarded, so the baseline flags it and its object is ranked. The request 6
for memory that the program does not take for an allocation is ranked as a value. -/
theorem traced_relay_and_request :
    (∃ b, relay.build = .ok b ∧
      let o := run (b.context .unchanged) (Rules.checks .unchanged)
      o.Traced b.pointsTo ∧ Ranking.Flags o.findings .boundCheck 4 ∧
      Ranking.Flags o.findings .baseline 4 ∧ ∃ object, b.pointsTo.site? object = some 4 ∧
        ∃ entry ∈ o.ranking.ranked, entry.candidate = .object object) ∧
    ∃ b, (request (.call (some "reserve") [])).build = .ok b ∧
      let o := run (b.context Rules.reserving) (Rules.checks Rules.reserving)
      o.Traced b.pointsTo ∧ (∃ entry ∈ o.ranking.ranked, entry.candidate = .value 6) ∧
      (∀ r, Ranking.Flags o.findings r 6 ↔ r = .unboundedAlloc) ∧ b.pointsTo.objects 6 = ∅ := by
  constructor
  · obtain ⟨b, hb, hvalues⟩ := exists_ok_of_map (x := relay.build)
      (f := fun b => ((Rules.Check.ofRule .boundCheck).run (b.context .unchanged)
        (Taint.run (b.context .unchanged)).1).values) (y := [4]) (by decide +kernel)
    obtain ⟨_, _, _, htables⟩ := Snapshot.build_ok_iff.mp hb
    have htraced := traced_run htables .unchanged
    have hflags : Ranking.Flags (run (b.context .unchanged) (Rules.checks .unchanged)).findings
        .boundCheck 4 := by
      refine flags_run.mpr ⟨by decide +kernel, ?_⟩
      simp [hvalues]
    exact ⟨b, hb, htraced, hflags, htraced.baseline _ (by simp) 4 hflags,
      htraced.object _ 4 (by simp) hflags⟩
  · obtain ⟨b, hb, hranked⟩ := exists_ok_of_map (x := (request (.call (some "reserve") [])).build)
      (f := fun b => (run (b.context Rules.reserving)
        (Rules.checks Rules.reserving)).ranking.ranked.map RankedObject.candidate)
      (y := [.value 6]) (by decide +kernel)
    obtain ⟨_, _, _, htables⟩ := Snapshot.build_ok_iff.mp hb
    have htraced := traced_run htables Rules.reserving
    have hmem : Candidate.value 6 ∈ (run (b.context Rules.reserving)
        (Rules.checks Rules.reserving)).ranking.ranked.map RankedObject.candidate := by
      simp [hranked]
    obtain ⟨entry, he, hk⟩ := List.mem_map.mp hmem
    exact ⟨b, hb, htraced, ⟨entry, he, hk⟩, htraced.value entry he 6 hk⟩

end Outcome

end PointerTriage
