import PointerTriage.Proofs.Outcome.Provenance

namespace PointerTriage

/-- The second settings are the first ones with more rules, in any order. -/
structure Settings.Enables (s s' : Settings) : Prop where
  rules : s.rules.rules ⊆ s'.rules.rules
  same : s'.toStages = { s.toStages with rules := { s.rules with rules := s'.rules.rules } }

/-- The entries have one candidate with its accesses, and the second has every rule and value of the
first. -/
structure RankedObject.Gains (o o' : RankedObject) : Prop where
  candidate : o'.candidate = o.candidate
  loads : o'.loads = o.loads
  stores : o'.stores = o.stores
  usageCount : o'.usageCount = o.usageCount
  rules : o.rules ⊆ o'.rules
  values : ∀ v ∈ o.values, v ∈ o'.values
  ruleCount : o.ruleCount ≤ o'.ruleCount

namespace Ranking

variable {c : Context}

/-- With more votes a candidate has the same accesses, and more rules and values. -/
theorem rankedObject_gains {vs ws : List Vote} (h : vs ⊆ ws) (k : Candidate) :
    (rankedObject c vs k).Gains (rankedObject c ws k) := by
  have hown : vs.filter (·.candidate == k) ⊆ ws.filter (·.candidate == k) :=
    List.filter_subset _ h
  have hrules : (rankedObject c vs k).rules.Sublist (rankedObject c ws k).rules := by
    simp only [rankedObject]
    apply List.monotone_filter_right
    intro r hr
    simp only [Bool.and_eq_true, List.any_eq_true] at hr ⊢
    obtain ⟨hvotes, vote, hvote, hrule⟩ := hr
    exact ⟨hvotes, vote, hown hvote, hrule⟩
  constructor
  case candidate | loads | stores | usageCount => rfl
  case rules => exact hrules.subset
  case values =>
    intro v hv
    obtain ⟨vote, hvote, hvalue⟩ := List.mem_map.mp (IdSet.mem_ofList.mp hv)
    exact IdSet.mem_ofList.mpr (List.mem_map.mpr ⟨vote, hown hvote, hvalue⟩)
  case ruleCount => exact hrules.length_le

/-- If more is flagged, every ranked candidate stays ranked. -/
theorem exists_gains_of_flags {findings findings' : List Findings}
    (h : ∀ r v, Flags findings r v → Flags findings' r v) {o : RankedObject}
    (ho : o ∈ (rank c findings).ranked) : ∃ o' ∈ (rank c findings').ranked, o.Gains o' := by
  have hvotes : votes c findings ⊆ votes c findings' := by
    intro vote hvote
    obtain ⟨f, hf, hrule, hv, hk⟩ := mem_votes.mp hvote
    obtain ⟨f', hf', hrule', hv'⟩ := h vote.rule vote.value ⟨f, hf, hrule, hv⟩
    exact mem_votes.mpr ⟨f', hf', hrule', hv', hk⟩
  obtain ⟨f, hf, v, hv, k, hk, rfl⟩ := mem_ranked.mp ho
  obtain ⟨f', hf', _, hv'⟩ := h f.rule v ⟨f, hf, rfl, hv⟩
  exact ⟨_, mem_ranked.mpr ⟨f', hf', v, hv', k, hk, rfl⟩, rankedObject_gains hvotes k⟩

end Ranking

section

variable {b : Built} {s s' : Settings} (h : s.Enables s')
include h

theorem Settings.Enables.isEnabled {r : Rule} (hr : s.rules.isEnabled r = true) :
    s'.rules.isEnabled r = true := by
  simp only [Settings.Rules.isEnabled, Bool.or_eq_true, List.contains_iff_mem] at hr ⊢
  exact hr.imp_right fun hr => h.rules hr

omit h in
/-- The rules that run are the same if the lists have the same rules. -/
theorem Settings.enabled_congr (hsame : ∀ r, r ∈ s.rules.rules ↔ r ∈ s'.rules.rules) :
    s'.enabled = s.enabled := by
  have hiff : ∀ r, s'.rules.isEnabled r = s.rules.isEnabled r := by
    intro r
    rw [Bool.eq_iff_iff]
    simp only [Settings.Rules.isEnabled, Bool.or_eq_true, List.contains_iff_mem, hsame]
  exact List.filter_congr fun r _ => hiff r

theorem Settings.Enables.eq :
    ∃ rules valid, s' = ⟨{ s.toStages with rules := { s.rules with rules } }, valid⟩ := by
  refine ⟨s'.rules.rules, h.same ▸ s'.valid, ?_⟩
  obtain ⟨stages, valid⟩ := s'
  congr
  exact h.same

theorem Taint.run_of_enables : Taint.run (b.context s') = Taint.run (b.context s) := by
  have htaint : s'.taint = s.taint := by rw [h.same]
  exact Taint.run_of_same_stage (b.context s) htaint

/-- No check looks at the list of rules. -/
theorem Rules.flags_of_enables (r : Rule) (taint : Taint) :
    (Check.ofRule r).flags (b.context s') taint = (Check.ofRule r).flags (b.context s) taint := by
  obtain ⟨_, _, rfl⟩ := h.eq
  cases r <;> rfl

theorem Rules.run_of_enables (r : Rule) (taint : Taint) :
    (Check.ofRule r).run (b.context s') taint = (Check.ofRule r).run (b.context s) taint := by
  unfold Check.run
  rw [flags_of_enables h]

theorem Ranking.rank_of_enables (findings : List Findings) :
    rank (b.context s') findings = rank (b.context s) findings := by
  obtain ⟨_, _, rfl⟩ := h.eq
  rfl

theorem Report.build_of_enables (ranking : Ranking) (findings : List Findings) :
    build (b.context s') ranking findings = build (b.context s) ranking findings := by
  obtain ⟨_, _, rfl⟩ := h.eq
  rfl

/-- The same checks have the same outcome under both settings. -/
theorem Outcome.run_of_enables (rules : List Rule) :
    run (b.context s') (rules.map Rules.Check.ofRule) =
      run (b.context s) (rules.map Rules.Check.ofRule) := by
  have hranking : s'.ranking = s.ranking := by rw [h.same]
  have hfindings : ∀ taint, (rules.map Rules.Check.ofRule).map (·.run (b.context s') taint) =
      (rules.map Rules.Check.ofRule).map (·.run (b.context s) taint) := by
    intro taint
    simp only [List.map_map, Function.comp_def, Rules.run_of_enables h]
  have hmode : (b.context s').settings.ranking = (b.context s).settings.ranking := hranking
  unfold run
  simp only [Taint.run_of_enables h, hfindings, Ranking.rank_of_enables h,
    Report.build_of_enables h, hmode]
  rfl

end

/-- With more rules enabled every ranked candidate stays ranked, with the same accesses and at least its
rules and values. Settings that list the same rules have the same outcome. -/
theorem Outcome.enabling_rules_only_adds (b : Built) {s s' : Settings} (h : s.Enables s') :
    (∀ o ∈ (run (b.context s) (Rules.checks s)).ranking.ranked,
      ∃ o' ∈ (run (b.context s') (Rules.checks s')).ranking.ranked, o.Gains o') ∧
    ((∀ r, r ∈ s.rules.rules ↔ r ∈ s'.rules.rules) →
      run (b.context s') (Rules.checks s') = run (b.context s) (Rules.checks s)) := by
  have hsettings : run (b.context s') (Rules.checks s') = run (b.context s) (Rules.checks s') :=
    run_of_enables h s'.enabled
  rw [hsettings]
  constructor
  · intro o ho
    refine Ranking.exists_gains_of_flags ?_ ho
    intro r v hflags
    obtain ⟨henabled, hv⟩ := flags_run.mp hflags
    exact flags_run.mpr ⟨h.isEnabled henabled, hv⟩
  · intro hsame
    unfold Rules.checks
    rw [Settings.enabled_congr hsame]

/-- The settings that nobody changed, but with the given rules. -/
def Settings.ofRules (rules : List Rule)
    (h : (Settings.Draft.onRules {} ({ · with rules })).stages.check.isOk = true) : Settings :=
  ⟨_, Settings.Stages.check_of_isOk h⟩

def Settings.boundsOnly : Settings := .ofRules [.boundCheck] (by decide +kernel)

def Settings.boundsAndArguments : Settings :=
  .ofRules [.boundCheck, .vulnerableArg] (by decide +kernel)

/-- The same rules, one of them listed twice. -/
def Settings.argumentsAndBounds : Settings :=
  .ofRules [.vulnerableArg, .boundCheck, .vulnerableArg] (by decide +kernel)

/-- The slot of `keep` gets a second vote from the rule on arguments, whichever way that is listed. -/
theorem Outcome.relay_gains : Settings.boundsOnly.Enables .boundsAndArguments ∧
    Settings.boundsAndArguments.Enables .argumentsAndBounds ∧ ∃ b, relay.build = .ok b ∧
      (∃ o ∈ (run (b.context .boundsOnly) (Rules.checks .boundsOnly)).ranking.ranked,
        ∃ o' ∈ (run (b.context .boundsAndArguments)
          (Rules.checks .boundsAndArguments)).ranking.ranked,
        o.rules = [.boundCheck] ∧ o'.rules = [.boundCheck, .vulnerableArg] ∧ o.Gains o') ∧
      run (b.context .argumentsAndBounds) (Rules.checks .argumentsAndBounds) =
        run (b.context .boundsAndArguments) (Rules.checks .boundsAndArguments) := by
  have hmore : Settings.boundsOnly.Enables .boundsAndArguments := ⟨by decide, rfl⟩
  have hsame : Settings.boundsAndArguments.Enables .argumentsAndBounds := ⟨by decide, rfl⟩
  obtain ⟨b, hb, hrules⟩ := exists_ok_of_map (x := relay.build)
    (f := fun b => ((run (b.context .boundsOnly)
        (Rules.checks .boundsOnly)).ranking.ranked.map RankedObject.rules,
      (run (b.context .boundsAndArguments)
        (Rules.checks .boundsAndArguments)).ranking.ranked.map RankedObject.rules))
    (y := ([[.boundCheck]], [[.boundCheck, .vulnerableArg]])) (by decide +kernel)
  obtain ⟨hfew, hmany⟩ := Prod.mk.inj hrules
  obtain ⟨o, ho, hone⟩ := List.mem_map.mp (hfew ▸ List.mem_singleton_self [Rule.boundCheck])
  obtain ⟨o', ho', hgains⟩ := (enabling_rules_only_adds b hmore).1 o ho
  have htwo : o'.rules ∈ [[Rule.boundCheck, .vulnerableArg]] :=
    hmany ▸ List.mem_map_of_mem ho'
  refine ⟨hmore, hsame, b, hb, ⟨o, ho, o', ho', hone, List.mem_singleton.mp htwo, hgains⟩, ?_⟩
  apply (enabling_rules_only_adds b hsame).2
  intro r
  cases r <;> decide

end PointerTriage
