import PointerTriage.Proofs.Decimal.Order
import PointerTriage.Proofs.Settings.Limits
import PointerTriage.Proofs.Text.Pieces
import PointerTriage.Settings.Yaml

namespace PointerTriage.Settings
open Text (IsGap)

/-- What is documented of checked settings. -/
structure Stages.Bounded (s : Stages) : Prop where
  entry : ¬IsGap s.taint.entry.toList
  inputs : s.taint.inputs ≠ []
  named : ∀ f ∈ s.taint.inputs, ¬IsGap f.name.toList
  copies : ∀ f ∈ s.taint.copies, f.dstArg ≠ f.srcArg
  backwardCmps : 1 ≤ s.bound.maxBackwardCmps ∧ s.bound.maxBackwardCmps ≤ 1000
  pathLength : 1 ≤ s.bound.maxPathLength ∧ s.bound.maxPathLength ≤ 10000
  pathsWithCmps : 1 ≤ s.bound.maxPathsWithCmps ∧ s.bound.maxPathsWithCmps ≤ 1000
  exploredPaths : 1 ≤ s.bound.maxExploredPaths ∧ s.bound.maxExploredPaths ≤ 1000000
  scale : 1 ≤ s.bound.weights.scale ∧ s.bound.weights.scale ≤ 1000
  rules : s.rules.rules ≠ []
  percentile : ∃ p, s.ranking.percentile.value? = some p ∧ 0 < p ∧ p ≤ 100

theorem Taint.isNameless_iff {name : String} : isNameless name = true ↔ IsGap name.toList := by
  rw [isNameless, List.isEmpty_iff, Text.stripBlank_eq_nil_iff_isGap]

theorem Taint.check_ok_iff {t : Taint} :
    t.check = .ok () ↔ ¬IsGap t.entry.toList ∧ t.inputs ≠ [] ∧
      (∀ f ∈ t.inputs, ¬IsGap f.name.toList) ∧ ∀ f ∈ t.copies, f.dstArg ≠ f.srcArg := by
  unfold Taint.check
  split
  · rename_i hentry
    exact iff_of_false nofun fun h => h.1 (isNameless_iff.mp hentry)
  · rename_i hentry
    split
    · rename_i hinputs
      exact iff_of_false nofun fun h => h.2.1 (List.isEmpty_iff.mp hinputs)
    · rename_i hinputs
      split
      · rename_i f hf
        have hnameless : isNameless f.name = true := by simpa using List.find?_some hf
        exact iff_of_false nofun fun h =>
          h.2.2.1 f (List.mem_of_find?_eq_some hf) (isNameless_iff.mp hnameless)
      · rename_i hnamed
        have hnames : ∀ f ∈ t.inputs, ¬IsGap f.name.toList := fun f hf hgap =>
          List.find?_eq_none.mp hnamed f hf (isNameless_iff.mpr hgap)
        split
        · rename_i f hf
          have hself : f.dstArg = f.srcArg := by simpa using List.find?_some hf
          exact iff_of_false nofun fun h => h.2.2.2 f (List.mem_of_find?_eq_some hf) hself
        · rename_i hcopies
          refine iff_of_true rfl ⟨fun hgap => hentry (isNameless_iff.mpr hgap), ?_, hnames, ?_⟩
          · simpa using hinputs
          · intro f hf hself
            exact List.find?_eq_none.mp hcopies f hf (by simpa using hself)

theorem Rules.check_ok_iff {r : Rules} : r.check = .ok () ↔ r.rules ≠ [] := by
  simp [Rules.check, require_ok_iff]

theorem Ranking.zero_value : (Decimal.Binary64.zero false).value? = some 0 := by
  simp [Decimal.Binary64.zero, Decimal.Binary64.value?]

theorem Ranking.hundred_value : hundred.value? = some 100 := by
  have hhundred : hundred = .finite false 7036874417766400 (-46) (by decide) := by decide +kernel
  rw [hhundred, Decimal.Binary64.value?]
  norm_num [Decimal.Binary64.sign]

theorem Ranking.check_ok_iff {r : Ranking} :
    r.check = .ok () ↔ ∃ p, r.percentile.value? = some p ∧ 0 < p ∧ p ≤ 100 := by
  obtain ⟨percentile, protection⟩ := r
  rw [Ranking.check, require_ok_iff, Bool.and_eq_true, Bool.not_eq_true']
  cases percentile with
  | nan =>
    exact iff_of_false (fun h => Bool.false_ne_true h.1)
      (fun h => by simp [Decimal.Binary64.value?] at h)
  | infinite negative =>
    refine iff_of_false ?_ (fun h => by simp [Decimal.Binary64.value?] at h)
    cases negative with
    | true => exact fun h => Bool.false_ne_true h.1
    | false => exact fun h => Bool.false_ne_true h.2.symm
  | finite negative mantissa exponent canonical =>
    -- The two comparisons are those of the number with 0 and 100.
    have hvalue : (Decimal.Binary64.finite negative mantissa exponent canonical).value? =
      some (Decimal.Binary64.sign negative * (mantissa * 2 ^ exponent)) := rfl
    rw [Decimal.Binary64.lt_iff_value zero_value hvalue, ← Bool.not_eq_true,
      Decimal.Binary64.lt_iff_value hundred_value hvalue, not_lt]
    simp [hvalue]

theorem Stages.bounded_iff_check {s : Stages} : s.Bounded ↔ s.check = .ok () := by
  rw [check_ok_iff, Taint.check_ok_iff, Bound.check_ok_iff, Rules.check_ok_iff, Ranking.check_ok_iff]
  constructor
  · intro h
    exact ⟨⟨h.entry, h.inputs, h.named, h.copies⟩, ⟨h.backwardCmps, h.pathLength, h.pathsWithCmps,
      h.exploredPaths, h.scale⟩, h.rules, h.percentile⟩
  · intro h
    obtain ⟨⟨hentry, hinputs, hnamed, hcopies⟩, ⟨hcmps, hlength, hpaths, hexplored, hscale⟩, hrules,
      hpercentile⟩ := h
    exact ⟨hentry, hinputs, hnamed, hcopies, hcmps, hlength, hpaths, hexplored, hscale, hrules,
      hpercentile⟩

/-- What each stage's check says, in the order of the stages. -/
def Stages.verdicts (s : Stages) : List (Except Error Unit) :=
  [s.taint.check, s.bound.check, s.rules.check, s.ranking.check]

/-- The first check that fails gives the error. -/
def FirstFails (verdicts : List (Except Error Unit)) (e : Error) : Prop :=
  ∃ before after, verdicts = before ++ .error e :: after ∧ ∀ v ∈ before, v = .ok ()

theorem forM_error_iff {verdicts : List (Except Error Unit)} {e : Error} :
    verdicts.forM id = .error e ↔ FirstFails verdicts e := by
  induction verdicts with
  | nil =>
    refine iff_of_false nofun ?_
    intro hex
    obtain ⟨before, after, hcut, -⟩ := hex
    simp at hcut
  | cons v vs ih =>
    cases v with
    | error e' =>
      constructor
      · intro h
        cases h
        exact ⟨[], vs, rfl, by simp⟩
      · intro hex
        obtain ⟨before, after, hcut, hbefore⟩ := hex
        cases before with
        | nil =>
          obtain ⟨he, -⟩ := List.cons.inj hcut
          exact he
        | cons b before =>
          obtain ⟨rfl, -⟩ := List.cons.inj hcut
          cases hbefore _ List.mem_cons_self
    | ok u =>
      refine Iff.trans ih ?_
      constructor
      · intro hex
        obtain ⟨before, after, rfl, hbefore⟩ := hex
        exact ⟨.ok u :: before, after, rfl, List.forall_mem_cons.mpr ⟨rfl, hbefore⟩⟩
      · intro hex
        obtain ⟨before, after, hcut, hbefore⟩ := hex
        cases before with
        | nil => simp at hcut
        | cons b before =>
          obtain ⟨-, rfl⟩ := List.cons.inj hcut
          exact ⟨before, after, rfl, (List.forall_mem_cons.mp hbefore).2⟩

theorem Stages.check_eq_forM (s : Stages) : s.check = s.verdicts.forM id := by
  simp [Stages.check, verdicts]

theorem Stages.freeze_ok_iff {stages : Stages} {s : Settings} :
    stages.freeze = .ok s ↔ s.toStages = stages := by
  unfold freeze
  split
  · rename_i hcheck
    constructor
    · intro h
      cases h
      rfl
    · intro h
      obtain ⟨stages, valid⟩ := s
      cases h
      rfl
  · rename_i e hcheck
    refine iff_of_false nofun ?_
    intro h
    have hvalid := s.valid
    rw [h, hcheck] at hvalid
    cases hvalid

theorem Stages.freeze_error_iff {s : Stages} {e : Error} :
    s.freeze = .error e ↔ s.check = .error e := by
  unfold freeze
  split
  · rename_i hcheck
    exact iff_of_false nofun fun h => nomatch hcheck.symm.trans h
  · rename_i e' hcheck
    rw [hcheck]
    exact ⟨fun h => by cases h; rfl, fun h => by cases h; rfl⟩

def Stages.ofPreset (p : Preset) : Stages :=
  ⟨p, .ofPreset p, .ofPreset p, .ofPreset p, .ofPreset p⟩

/-- Presets pass, so that only what was changed can fail. -/
theorem Stages.check_ofPreset (p : Preset) : ∀ v ∈ (ofPreset p).verdicts, v = .ok () := by
  cases p <;> decide +kernel

theorem checkChange_eq {α : Type} {check : α → Except Error Unit} {default : α}
    (h : check default = .ok ()) (change : Option α) :
    checkChange check change = check (change.getD default) := by
  cases change with
  | none => exact h.symm
  | some a => rfl

namespace Draft

theorem checkChanges_eq (d : Draft) : d.checkChanges = d.stages.check := by
  have hpasses := Stages.check_ofPreset d.preset
  simp only [Stages.verdicts, List.forall_mem_cons] at hpasses
  obtain ⟨htaint, hbound, hrules, hranking, -⟩ := hpasses
  rw [checkChanges, checkChange_eq htaint, checkChange_eq hbound, checkChange_eq hrules,
    checkChange_eq hranking]
  rfl

/-- Checking the changed stages first makes no difference. -/
theorem build_eq_freeze (d : Draft) : d.build = d.stages.freeze := by
  rw [build, checkChanges_eq]
  cases hcheck : d.stages.check with
  | ok u => rfl
  | error e => exact (Stages.freeze_error_iff.mpr hcheck).symm

theorem build_ok_iff {d : Draft} {s : Settings} : d.build = .ok s ↔ s.toStages = d.stages := by
  rw [build_eq_freeze, Stages.freeze_ok_iff]

end Draft

/-- One step in which a draft is made. A preset and a file start anew. -/
inductive Step where
  | preset (p : Preset)
  | load (text : String)
  | taint (f : Taint → Taint)
  | bound (f : Bound → Bound)
  | rules (f : Rules → Rules)
  | ranking (f : Ranking → Ranking)
  | functions (fs : Functions)

def Draft.step (d : Draft) : Step → Except Error Draft
  | .preset p => .ok (.ofPreset p)
  | .load text => parse text
  | .taint f => .ok (d.onTaint f)
  | .bound f => .ok (d.onBound f)
  | .rules f => .ok (d.onRules f)
  | .ranking f => .ok (d.onRanking f)
  | .functions fs => .ok (d.withFunctions fs)

/-- The step on the stages in force, wherever they come from. -/
def Stages.step (s : Stages) : Step → Except Error Stages
  | .preset p => .ok (.ofPreset p)
  | .load text => (Draft.parse text).map Draft.stages
  | .taint f => .ok { s with taint := f s.taint }
  | .bound f => .ok { s with bound := f s.bound }
  | .rules f => .ok { s with rules := f s.rules }
  | .ranking f => .ok { s with ranking := f s.ranking }
  | .functions fs => .ok { s with
      taint.inputs := if fs.inputs = [] then s.taint.inputs else fs.inputs
      rules.vulnerable := if fs.vulnerable = [] then s.rules.vulnerable else fs.vulnerable }

namespace Draft

theorem stages_withFunctions (d : Draft) (fs : Functions) :
    d.stages.step (.functions fs) = .ok (d.withFunctions fs).stages := by
  obtain ⟨inputs, vulnerable⟩ := fs
  cases inputs <;> cases vulnerable <;> rfl

theorem stages_step (d : Draft) (step : Step) :
    d.stages.step step = (d.step step).map Draft.stages := by
  cases step with
  | functions fs => exact d.stages_withFunctions fs
  | _ => rfl

/-- The stages in force follow the steps. -/
theorem stages_run (d : Draft) (steps : List Step) :
    steps.foldlM Stages.step d.stages = (steps.foldlM Draft.step d).map Draft.stages := by
  induction steps generalizing d with
  | nil => rfl
  | cons step steps ih =>
    rw [List.foldlM_cons, List.foldlM_cons, stages_step]
    cases d.step step with
    | error e => rfl
    | ok d' => exact ih d'

theorem exists_build_iff {d : Draft} : (∃ s, d.build = .ok s) ↔ d.stages.check = .ok () := by
  constructor
  · intro hex
    obtain ⟨s, hs⟩ := hex
    exact build_ok_iff.mp hs ▸ s.valid
  · intro hcheck
    exact ⟨⟨d.stages, hcheck⟩, build_ok_iff.mpr rfl⟩

/-- A draft that was made in some steps builds exactly if all stages in force pass, that is if they are
within the bounds, and else fails as the first that does not: the check of the changed stages, which
comes before that of all, has the same outcome. What is built has the stages in force, and builds
again. -/
theorem build_after_steps {steps : List Step} {start d : Draft}
    (h : steps.foldlM Draft.step start = .ok d) :
    steps.foldlM Stages.step start.stages = .ok d.stages ∧
    ((∃ s, d.build = .ok s) ↔ ∀ v ∈ d.stages.verdicts, v = .ok ()) ∧
    ((∃ s, d.build = .ok s) ↔ d.stages.Bounded) ∧
    (∀ e, d.build = .error e ↔ FirstFails d.stages.verdicts e) ∧
    d.checkChanges = d.stages.check ∧
    d.build = d.stages.freeze ∧
    ∀ s, d.build = .ok s → s.toStages = d.stages ∧ s.Bounded ∧ s.reopen.build = .ok s := by
  refine ⟨?_, ?_, ?_, ?_, d.checkChanges_eq, d.build_eq_freeze, ?_⟩
  · rw [stages_run, h]
    rfl
  · rw [exists_build_iff, Stages.check_eq_forM, except_forM_ok_iff]
    rfl
  · rw [exists_build_iff, Stages.bounded_iff_check]
  · intro e
    rw [build_eq_freeze, Stages.freeze_error_iff, Stages.check_eq_forM, forM_error_iff]
  · intro s hs
    exact ⟨build_ok_iff.mp hs, Stages.bounded_iff_check.mpr s.valid, build_ok_iff.mpr rfl⟩

/-- Steps that leave a share of nothing and paths of no nodes. -/
def wrongTwice : List Step :=
  [.preset .fast, .ranking ({ · with percentile := .zero true }),
    .functions ⟨[⟨"recv", 1, false⟩], []⟩, .bound ({ · with maxPathLength := 0 })]

/-- The paths are checked before the share, though they were changed after it. -/
theorem build_wrongTwice :
    ∃ d : Draft, wrongTwice.foldlM Draft.step {} = .ok d ∧ d.taint.isSome = true ∧ d.rules = none ∧
      d.build = .error (.outOfRange Bound.pathLength "0") := by
  obtain ⟨d, hd⟩ : ∃ d : Draft, wrongTwice.foldlM Draft.step {} = .ok d := ⟨_, rfl⟩
  obtain ⟨-, -, -, herror, -⟩ := build_after_steps hd
  cases hd
  refine ⟨_, rfl, rfl, rfl, (herror _).mpr ?_⟩
  exact ⟨[.ok ()], [.ok (), .error (.outOfRange Ranking.share "-0")], by decide +kernel, by simp⟩

end Draft

end PointerTriage.Settings
