import PointerTriage.Proofs.Ir.Sound
import PointerTriage.Proofs.Settings.Fields

namespace PointerTriage.Settings
open Yaml

def InputFunction.Fits (f : InputFunction) : Prop := f.argStart < sizeLimit

structure CopyFunction.Fits (f : CopyFunction) : Prop where
  dst : f.dstArg < sizeLimit
  src : f.srcArg < sizeLimit

structure Taint.Fits (t : Taint) : Prop where
  inputs : ∀ f ∈ t.inputs, f.Fits
  copies : ∀ f ∈ t.copies, f.Fits

def IsWeight (i : Int) : Prop := -2147483648 ≤ i ∧ i ≤ 2147483647

structure Weights.Fits (w : Weights) : Prop where
  scale : IsWeight w.scale
  noCmp : IsWeight w.noCmp
  yesCmp : IsWeight w.yesCmp
  noneBound : IsWeight w.noneBound
  variableBound : IsWeight w.variableBound
  constantBound : IsWeight w.constantBound

structure Bound.Fits (b : Bound) : Prop where
  backwardCmps : b.maxBackwardCmps < sizeLimit
  pathLength : b.maxPathLength < sizeLimit
  pathsWithCmps : b.maxPathsWithCmps < sizeLimit
  exploredPaths : b.maxExploredPaths < sizeLimit
  weights : b.weights.Fits

theorem Taint.fits_ofPreset (p : Preset) : (Taint.ofPreset p).Fits where
  inputs := by simp [Taint.ofPreset, defaultInputs, InputFunction.Fits, sizeLimit]
  copies := by
    intro f hf
    simp only [Taint.ofPreset, defaultCopies, List.mem_map] at hf
    obtain ⟨name, -, rfl⟩ := hf
    exact ⟨show 0 < sizeLimit by decide, show 1 < sizeLimit by decide⟩

theorem fits_defaultWeights : defaultWeights.Fits := by
  constructor <;> simp [defaultWeights, IsWeight]

theorem Bound.fits_ofPreset (p : Preset) : (Bound.ofPreset p).Fits := by
  cases p <;> exact ⟨by decide, by decide, by decide, by decide, fits_defaultWeights⟩

theorem InputFunction.Fits.written {f : InputFunction} (h : f.Fits) :
    Written InputFunction.ofNode f.toNode f := by
  have hname := written_text f.name
  have hstart := written_nat h
  have hreturn := written_bool f.taintReturn
  refine ⟨legible_record (by simp only [List.map_cons, List.map_nil]; decide) ?_, fun d => ?_⟩
  · simp [hname.legible, hstart.legible, hreturn.legible]
  · rw [InputFunction.ofNode, InputFunction.toNode, fields_record]
    · simp [size, hname.reads, hstart.reads,
        hreturn.reads]
    · exact .refl _
    · decide

theorem CopyFunction.Fits.written {f : CopyFunction} (h : f.Fits) :
    Written CopyFunction.ofNode f.toNode f := by
  have hname := written_text f.name
  have hdst := written_nat h.dst
  have hsrc := written_nat h.src
  refine ⟨legible_record (by simp only [List.map_cons, List.map_nil]; decide) ?_, fun d => ?_⟩
  · simp [hname.legible, hdst.legible, hsrc.legible]
  · rw [CopyFunction.ofNode, CopyFunction.toNode, fields_record]
    · simp [size, hname.reads, hdst.reads, hsrc.reads]
    · exact .refl _
    · decide

theorem Taint.Fits.written {t : Taint} (h : t.Fits) : Written Taint.ofNode t.toNode t := by
  have hentry := written_text t.entry
  have hinputs := written_list fun f hf => (h.inputs f hf).written
  have hcopies := written_list fun f hf => (h.copies f hf).written
  refine ⟨legible_record (by simp only [List.map_cons, List.map_nil]; decide) ?_, fun d => ?_⟩
  · simp [hentry.legible, hinputs.legible, hcopies.legible]
  · rw [Taint.ofNode, Taint.toNode, fields_record]
    · simp [hentry.reads, hinputs.reads, hcopies.reads]
    · exact .refl _
    · decide

theorem Weights.Fits.written {w : Weights} (h : w.Fits) : Written Weights.ofNode w.toNode w := by
  have hscale := written_int h.scale
  have hnoCmp := written_int h.noCmp
  have hyesCmp := written_int h.yesCmp
  have hnone := written_int h.noneBound
  have hvariable := written_int h.variableBound
  have hconstant := written_int h.constantBound
  refine ⟨legible_record (by simp only [List.map_cons, List.map_nil]; decide) ?_, fun d => ?_⟩
  · simp [hscale.legible, hnoCmp.legible, hyesCmp.legible, hnone.legible, hvariable.legible,
      hconstant.legible]
  · rw [Weights.ofNode, Weights.toNode, fields_record]
    · simp [hscale.reads, hnoCmp.reads, hyesCmp.reads, hnone.reads,
        hvariable.reads, hconstant.reads]
    · exact .refl _
    · decide

theorem Bound.Fits.written {b : Bound} (h : b.Fits) : Written Bound.ofNode b.toNode b := by
  have hcmps := written_nat h.backwardCmps
  have hlength := written_nat h.pathLength
  have hpaths := written_nat h.pathsWithCmps
  have hexplored := written_nat h.exploredPaths
  have hfollow := written_bool b.followIndirectEdges
  have hweights := h.weights.written
  refine ⟨legible_record (by simp only [List.map_cons, List.map_nil]; decide) ?_, fun d => ?_⟩
  · simp [hcmps.legible, hlength.legible, hpaths.legible, hexplored.legible, hfollow.legible,
      hweights.legible]
  · rw [Bound.ofNode, Bound.toNode, fields_record]
    · simp [size, hcmps.reads, hlength.reads, hpaths.reads,
        hexplored.reads, hfollow.reads, hweights.reads]
    · exact .refl _
    · decide

theorem Rules.written_rule (r : Rule) : Written Rules.rule (.text r.name) r := by
  have hname := written_variant r.name
  refine ⟨hname.legible, fun d => ?_⟩
  rw [Rules.rule, hname.reads, pure_bind]
  cases r <;> rfl

theorem Rules.written (r : Rules) : Written Rules.ofNode r.toNode r := by
  have hrules := written_list fun rule (_ : rule ∈ r.rules) => Rules.written_rule rule
  have hvulnerable := written_list fun s (_ : s ∈ r.vulnerable) => written_text s
  have hallocators := written_list fun s (_ : s ∈ r.allocators) => written_text s
  have hparallel := written_bool r.parallel
  have hlog := written_bool r.logEach
  refine ⟨legible_record (by simp only [List.map_cons, List.map_nil]; decide) ?_, fun d => ?_⟩
  · simp [hrules.legible, hvulnerable.legible, hallocators.legible, hparallel.legible, hlog.legible]
  · rw [Rules.ofNode, Rules.toNode, fields_record]
    · simp [hrules.reads, hvulnerable.reads, hallocators.reads,
        hparallel.reads, hlog.reads]
    · exact .refl _
    · decide

theorem Protection.written (p : Protection) :
    Written (fun d n => do Protection.ofKey? (← d.variant n)) (.text p.key) p := by
  have hkey := written_variant p.key
  refine ⟨hkey.legible, fun d => ?_⟩
  rw [hkey.reads, pure_bind]
  cases p <;> rfl

theorem Ranking.written {r : Ranking} (h : r.percentile ≠ .nan) :
    Written Ranking.ofNode r.toNode r := by
  have hpercentile := written_double h
  have hprotection := Protection.written r.protection
  refine ⟨legible_record (by simp only [List.map_cons, List.map_nil]; decide) ?_, fun d => ?_⟩
  · simp [hpercentile.legible, hprotection.legible]
  · rw [Ranking.ofNode, Ranking.toNode, fields_record]
    · simp [hpercentile.reads, hprotection.reads]
    · exact .refl _
    · decide

section Ensures

variable (d : Document) (n : Node)

theorem InputFunction.ensures_ofNode : Ensures (InputFunction.ofNode d n) InputFunction.Fits :=
  ensures_bind fun fields => ensures_bind fun _ =>
    (Ensures.withDefault (ensures_natBelow d sizeLimit) (by decide) fields _).bind fun _ hstart =>
      ensures_bind fun _ => ensures_pure hstart

theorem CopyFunction.ensures_ofNode : Ensures (CopyFunction.ofNode d n) CopyFunction.Fits :=
  ensures_bind fun fields => ensures_bind fun _ =>
    (Ensures.required (ensures_natBelow d sizeLimit) fields _).bind fun _ hdst =>
      (Ensures.required (ensures_natBelow d sizeLimit) fields _).bind fun _ hsrc =>
        ensures_pure ⟨hdst, hsrc⟩

theorem Taint.ensures_ofNode : Ensures (Taint.ofNode d n) Taint.Fits := by
  have hdefault := Taint.fits_ofPreset .balanced
  refine ensures_bind fun fields => ensures_bind fun _ => ?_
  refine (Ensures.withDefault (Ensures.listOf (InputFunction.ensures_ofNode d) d) hdefault.inputs
    fields _).bind fun _ hinputs => ?_
  refine (Ensures.withDefault (Ensures.listOf (CopyFunction.ensures_ofNode d) d) hdefault.copies
    fields _).bind fun _ hcopies => ?_
  exact ensures_pure ⟨hinputs, hcopies⟩

theorem Weights.ensures_ofNode : Ensures (Weights.ofNode d n) Weights.Fits := by
  have hweight : ∀ {default : Int} (fields key), IsWeight default →
      Ensures (Record.withDefault fields key default (d.intBetween (-2 ^ 31) (2 ^ 31 - 1))) IsWeight :=
    fun fields key hdefault => Ensures.withDefault (ensures_intBetween d _ _) hdefault fields key
  have hdefault := fits_defaultWeights
  refine ensures_bind fun fields => ?_
  refine (hweight fields _ hdefault.scale).bind fun _ hscale => ?_
  refine (hweight fields _ hdefault.noCmp).bind fun _ hnoCmp => ?_
  refine (hweight fields _ hdefault.yesCmp).bind fun _ hyesCmp => ?_
  refine (hweight fields _ hdefault.noneBound).bind fun _ hnone => ?_
  refine (hweight fields _ hdefault.variableBound).bind fun _ hvariable => ?_
  refine (hweight fields _ hdefault.constantBound).bind fun _ hconstant => ?_
  exact ensures_pure ⟨hscale, hnoCmp, hyesCmp, hnone, hvariable, hconstant⟩

theorem Bound.ensures_ofNode : Ensures (Bound.ofNode d n) Bound.Fits := by
  have hsize : ∀ {default : Nat} (fields key), default < sizeLimit →
      Ensures (Record.withDefault fields key default (size d)) (· < sizeLimit) :=
    fun fields key hdefault => Ensures.withDefault (ensures_natBelow d _) hdefault fields key
  have hdefault := Bound.fits_ofPreset .balanced
  refine ensures_bind fun fields => ?_
  refine (hsize fields _ hdefault.backwardCmps).bind fun _ hcmps => ?_
  refine (hsize fields _ hdefault.pathLength).bind fun _ hlength => ?_
  refine (hsize fields _ hdefault.pathsWithCmps).bind fun _ hpaths => ?_
  refine (hsize fields _ hdefault.exploredPaths).bind fun _ hexplored => ?_
  refine ensures_bind fun _ => ?_
  refine (Ensures.withDefault (Weights.ensures_ofNode d) hdefault.weights fields _).bind
    fun _ hweights => ?_
  exact ensures_pure ⟨hcmps, hlength, hpaths, hexplored, hweights⟩

theorem File.ensures_ofNode :
    Ensures (File.ofNode d n) fun f => (∀ t ∈ f.taint, t.Fits) ∧ ∀ b ∈ f.bound, b.Fits := by
  refine ensures_bind fun fields => ensures_bind fun _ => ensures_bind fun _ => ensures_bind fun _ => ?_
  refine (Ensures.withDefault (Ensures.option (Taint.ensures_ofNode d) d) (by simp) _ _).bind
    fun _ htaint => ?_
  refine (Ensures.withDefault (Ensures.option (Bound.ensures_ofNode d) d) (by simp) _ _).bind
    fun _ hbound => ?_
  exact ensures_bind fun _ => ensures_bind fun _ => ensures_pure ⟨htaint, hbound⟩

end Ensures

namespace Functions

theorem fits_finish {fs gs : Functions} {rest : List (List Char)} (h : finish fs rest = .ok gs)
    (hfs : ∀ f ∈ fs.inputs, f.Fits) : ∀ f ∈ gs.inputs, f.Fits := by
  cases rest with
  | nil =>
    cases h
    exact hfs
  | cons extra rest => cases h

theorem fits_entry {tag name : String} {rest : List (List Char)} {fs : Functions}
    (h : entry tag name rest = .ok fs) : ∀ f ∈ fs.inputs, f.Fits := by
  unfold entry at h
  split at h
  · split at h
    · cases h
      simp [InputFunction.Fits, sizeLimit]
    · split at h
      · cases h
      · rename_i n hn
        have hlimit : n < sizeLimit :=
          of_decide_eq_true (Option.filter_eq_some_iff.mp hn).2
        exact fits_finish h (by simpa [InputFunction.Fits] using hlimit)
  · exact fits_finish h nofun
  · cases h

theorem fits_readFrom {line : Nat} {ls : List (List Char)} {fs : Functions}
    (h : readFrom line ls = .ok fs) : ∀ f ∈ fs.inputs, f.Fits := by
  induction ls generalizing line fs with
  | nil =>
    cases h
    nofun
  | cons l ls ih =>
    rw [readFrom] at h
    split at h
    · cases h
    · rename_i gs hgs
      obtain ⟨hs, hrest, h⟩ := except_bind_ok_iff.mp h
      cases h
      have hline : ∀ f ∈ gs.inputs, f.Fits := by
        unfold readLine at hgs
        split at hgs
        · cases hgs
          nofun
        · cases hgs
        · exact fits_entry hgs
      intro f hf
      exact (List.mem_append.mp hf).elim (hline f) (ih hrest f)

end Functions

structure Draft.Fits (d : Draft) : Prop where
  taint : ∀ t ∈ d.taint, t.Fits
  bound : ∀ b ∈ d.bound, b.Fits

theorem Preset.ofName_name (p : Preset) : Preset.ofName p.name = .ok p := by
  have hfind : all.find? (·.name.toList == p.name.toList.map Char.toLower) = some p := by
    cases p <;> decide
  rw [ofName, hfind]

/-- The file of a draft. -/
def Draft.file (d : Draft) : File :=
  ⟨some File.version1, d.preset.name, d.taint, d.bound, d.rules, d.ranking⟩

theorem Draft.draft_file (d : Draft) : d.file.draft = .ok d := by
  simp only [Draft.file, File.draft, Preset.ofName_name]
  rfl

theorem File.draft_stages {f : File} {d : Draft} (h : f.draft = .ok d) :
    d.taint = f.taint ∧ d.bound = f.bound := by
  unfold File.draft at h
  split at h
  · cases h
  · obtain ⟨_, -, h⟩ := except_bind_ok_iff.mp h
    obtain ⟨preset, -, h⟩ := except_bind_ok_iff.mp h
    cases h
    exact ⟨rfl, rfl⟩

section Optional

variable {α : Type} {write : α → Node} {o : Option α}

/-- A field that may be absent. -/
def optional (key : String) (write : α → Node) (o : Option α) : List (String × Node) :=
  (o.map fun a => (key, write a)).toList

theorem sublist_optional (key : String) : ((optional key write o).map (·.1)).Sublist [key] := by
  cases o <;> simp [optional]

theorem get?_append (xs ys : List (String × Node)) (key : String) :
    Record.get? (xs ++ ys) key = (Record.get? xs key).or (Record.get? ys key) := by
  simp [Record.get?, List.find?_append, Option.map_or]

theorem get?_optional (name key : String) :
    Record.get? (optional name write o) key = if name = key then o.map write else none := by
  cases o <;> by_cases h : name = key <;> simp [optional, Record.get?, h]

theorem withDefault_optional (write : α → Node) {read : Document → Node → Reading α}
    {fields : List (String × Node)} {key : String} (hget : Record.get? fields key = o.map write)
    (hrecord : ∀ a, ∃ fields, write a = record fields) (h : ∀ a ∈ o, Written read (write a) a)
    (d : Document) : Record.withDefault fields key none (d.option (read d)) = pure o := by
  cases o with
  | none => rw [Record.withDefault, hget]; rfl
  | some a =>
    obtain ⟨fs, hfs⟩ := hrecord a
    have hread := (h a rfl).reads d
    rw [Record.withDefault, hget, Option.map_some]
    rw [hfs] at hread ⊢
    have hoption : d.option (read d) (record fs) = some <$> read d (record fs) := rfl
    simp only [hoption, hread, map_pure]

end Optional

namespace Draft

theorem changes_eq (d : Draft) :
    d.changes = optional "taint" Taint.toNode d.taint ++ optional "bound_check" Bound.toNode d.bound ++
      optional "heuristics" Rules.toNode d.rules ++ optional "ranking" Ranking.toNode d.ranking :=
  rfl

theorem sublist_changes (d : Draft) : (d.changes.map (·.1)).Sublist File.stages := by
  simp only [changes_eq, List.map_append]
  exact (((sublist_optional _).append (sublist_optional _)).append (sublist_optional _)).append
    (sublist_optional _)

theorem get?_changes (d : Draft) (key : String) :
    Record.get? d.changes key =
      (((if "taint" = key then d.taint.map Taint.toNode else none).or
        (if "bound_check" = key then d.bound.map Bound.toNode else none)).or
        (if "heuristics" = key then d.rules.map Rules.toNode else none)).or
        (if "ranking" = key then d.ranking.map Ranking.toNode else none) := by
  simp only [changes_eq, get?_append, get?_optional]

/-- The changed stages are read from their record. -/
theorem reads_changes {d : Draft} (h : d.Fits) (hnan : ∀ r ∈ d.ranking, r.percentile ≠ .nan)
    (doc : Document) :
    Record.withDefault d.changes "taint" none (doc.option (Taint.ofNode doc)) = pure d.taint ∧
    Record.withDefault d.changes "bound_check" none (doc.option (Bound.ofNode doc)) = pure d.bound ∧
    Record.withDefault d.changes "heuristics" none (doc.option (Rules.ofNode doc)) = pure d.rules ∧
    Record.withDefault d.changes "ranking" none (doc.option (Ranking.ofNode doc)) = pure d.ranking := by
  have htaint := fun t ht => (h.taint t ht).written
  have hbound := fun b hb => (h.bound b hb).written
  have hranking := fun r hr => Ranking.written (hnan r hr)
  refine ⟨withDefault_optional Taint.toNode ?_ (fun t => ⟨_, rfl⟩) htaint doc,
    withDefault_optional Bound.toNode ?_ (fun b => ⟨_, rfl⟩) hbound doc,
    withDefault_optional Rules.toNode ?_ (fun r => ⟨_, rfl⟩) (fun r _ => r.written) doc,
    withDefault_optional Ranking.toNode ?_ (fun r => ⟨_, rfl⟩) hranking doc⟩
  all_goals simp [get?_changes]

theorem legible_changes {d : Draft} (h : d.Fits) (hnan : ∀ r ∈ d.ranking, r.percentile ≠ .nan) :
    (record d.changes).Legible := by
  refine legible_record ?_ ?_
  · have hstages : ∀ name ∈ File.stages, isFieldName name = true := by decide
    exact List.all_eq_true.mpr fun name hname => hstages name (d.sublist_changes.subset hname)
  · intro f hf
    simp only [changes_eq, optional, List.mem_append, Option.mem_toList, Option.map_eq_some_iff] at hf
    rcases hf with ((⟨t, ht, rfl⟩ | ⟨b, hb, rfl⟩) | ⟨r, -, rfl⟩) | ⟨r, hr, rfl⟩
    · exact (h.taint t ht).written.legible
    · exact (h.bound b hb).written.legible
    · exact r.written.legible
    · exact (Ranking.written (hnan r hr)).legible

theorem written {d : Draft} (h : d.Fits) (hnan : ∀ r ∈ d.ranking, r.percentile ≠ .nan) :
    Written File.ofNode d.toNode d.file := by
  have hversion := written_nat (show File.version1 < 4294967296 by decide)
  have hpreset := written_text d.preset.name
  have hchanges := legible_changes h hnan
  refine ⟨legible_record (by simp only [List.map_cons, List.map_nil]; decide) ?_, fun doc => ?_⟩
  · simp [hversion.legible, hpreset.legible, hchanges]
  · obtain ⟨htaint, hbound, hrules, hranking⟩ := reads_changes h hnan doc
    have hoverrides : doc.option (doc.fields true File.stages) (record d.changes) =
        pure (some d.changes) := by
      have hoption : doc.option (doc.fields true File.stages) (record d.changes) =
          some <$> doc.fields true File.stages (record d.changes) := rfl
      rw [hoption, fields_record d.sublist_changes (by decide), map_pure]
    have hversion : doc.option (doc.natBelow 4294967296) (natNode File.version1) =
        pure (some File.version1) := by
      have hoption : doc.option (doc.natBelow 4294967296) (natNode File.version1) =
          some <$> doc.natBelow 4294967296 (natNode File.version1) := rfl
      rw [hoption, hversion.reads, map_pure]
    rw [File.ofNode, Draft.toNode, fields_record]
    · simp [hversion, hpreset.reads, hoverrides, htaint, hbound, hrules, hranking, Draft.file]
    · exact .refl _
    · decide

/-- Drafts as they are made. Stages are changed to whatever their numbers can hold. -/
inductive Reached : Draft → Prop where
  | preset (p : Preset) : Reached (.ofPreset p)
  | onTaint {d : Draft} {f : Taint → Taint} (h : Reached d) (hf : (f d.stages.taint).Fits) :
    Reached (d.onTaint f)
  | onBound {d : Draft} {f : Bound → Bound} (h : Reached d) (hf : (f d.stages.bound).Fits) :
    Reached (d.onBound f)
  | onRules {d : Draft} {f : Rules → Rules} (h : Reached d) : Reached (d.onRules f)
  | onRanking {d : Draft} {f : Ranking → Ranking} (h : Reached d) : Reached (d.onRanking f)
  | withFunctions {d : Draft} {fs : Functions} (h : Reached d) (hfs : ∀ f ∈ fs.inputs, f.Fits) :
    Reached (d.withFunctions fs)
  | load {s : String} {d : Draft} (h : parse s = .ok d) : Reached d

theorem Fits.stages {d : Draft} (h : d.Fits) : d.stages.taint.Fits ∧ d.stages.bound.Fits := by
  obtain ⟨preset, taint, bound, rules, ranking⟩ := d
  constructor
  · cases taint with
    | none => exact Taint.fits_ofPreset preset
    | some t => exact h.taint t rfl
  · cases bound with
    | none => exact Bound.fits_ofPreset preset
    | some b => exact h.bound b rfl

theorem Fits.onTaint {d : Draft} (h : d.Fits) {f : Taint → Taint} (hf : (f d.stages.taint).Fits) :
    (d.onTaint f).Fits := by
  refine ⟨?_, h.bound⟩
  rintro t ⟨⟩
  exact hf

theorem Fits.onBound {d : Draft} (h : d.Fits) {f : Bound → Bound} (hf : (f d.stages.bound).Fits) :
    (d.onBound f).Fits := by
  refine ⟨h.taint, ?_⟩
  rintro b ⟨⟩
  exact hf

theorem Fits.withFunctions {d : Draft} (h : d.Fits) {fs : Functions} (hfs : ∀ f ∈ fs.inputs, f.Fits) :
    (d.withFunctions fs).Fits := by
  have hinputs : (if fs.inputs.isEmpty then d else d.onTaint ({ · with inputs := fs.inputs })).Fits := by
    split
    · exact h
    · exact h.onTaint ⟨hfs, h.stages.1.copies⟩
  unfold Draft.withFunctions
  simp only
  split
  · exact hinputs
  · exact ⟨hinputs.taint, hinputs.bound⟩

theorem fits_of_parse {s : String} {d : Draft} (h : parse s = .ok d) : d.Fits := by
  unfold parse at h
  split at h
  · rename_i doc hdoc
    unfold ofDocument at h
    split at h
    · rename_i f hf
      obtain ⟨⟨f', patience⟩, hrun, rfl⟩ := Option.map_eq_some_iff.mp hf
      obtain ⟨htaint, hbound⟩ := File.ensures_ofNode doc doc.root _ _ _ hrun
      obtain ⟨hsame, hsame'⟩ := File.draft_stages h
      exact ⟨hsame ▸ htaint, hsame' ▸ hbound⟩
    · cases h
  · cases h

theorem Reached.fits {d : Draft} (h : d.Reached) : d.Fits := by
  induction h with
  | preset p => exact ⟨nofun, nofun⟩
  | onTaint h hf ih => exact ih.onTaint hf
  | onBound h hf ih => exact ih.onBound hf
  | onRules h ih => exact ⟨ih.taint, ih.bound⟩
  | onRanking h ih => exact ⟨ih.taint, ih.bound⟩
  | withFunctions h hfs ih => exact ih.withFunctions hfs
  | load h => exact fits_of_parse h

/-- A draft reads back from its file, with the same stages changed, and builds the same. -/
theorem parse_write {d : Draft} (h : d.Reached) (hnan : d.stages.ranking.percentile ≠ .nan) :
    parse d.write = .ok d ∧ (parse d.write >>= build) = d.build := by
  have hranking : ∀ r ∈ d.ranking, r.percentile ≠ .nan := by
    intro r hr
    have hstage : d.stages.ranking = r := by simp [Draft.stages, Option.mem_def.mp hr]
    rwa [hstage] at hnan
  have hwritten := written h.fits hranking
  have hdoc : Document.parse? d.write = some (.ofNode d.toNode) := Yaml.parse?_write hwritten.legible
  have hfile : (Document.ofNode d.toNode).read? (File.ofNode (.ofNode d.toNode)) = some d.file := by
    rw [Document.read?]
    simp only [Document.ofNode, hwritten.reads]
    rfl
  have hparse : parse d.write = .ok d := by
    rw [parse, hdoc]
    simp only [ofDocument, hfile, d.draft_file]
  refine ⟨hparse, ?_⟩
  rw [hparse]
  rfl

/-- Names that are no plain text, functions from a file, and a share that no check lets pass. -/
def unlikely : Draft :=
  (((ofPreset .thorough).withFunctions ⟨[⟨"null", 3, false⟩], ["gets"]⟩).onTaint
    ({ · with entry := "- on: 'x' #1\n\n 2" })).onRanking ({ · with percentile := .infinite true })

theorem parse_write_unlikely :
    (unlikely.Reached ∧ unlikely.stages.ranking.percentile ≠ .nan) ∧
      parse unlikely.write = .ok unlikely ∧ (parse unlikely.write >>= build) = unlikely.build := by
  have hfunctions : Functions.parse "IF null 3\nVULN gets # always\n" =
      .ok ⟨[⟨"null", 3, false⟩], ["gets"]⟩ := by decide
  have hstart := (Reached.preset .thorough).withFunctions (Functions.fits_readFrom hfunctions)
  have htaint := hstart.fits.stages.1
  have hreached : unlikely.Reached := (hstart.onTaint ⟨htaint.inputs, htaint.copies⟩).onRanking
  have hnan : unlikely.stages.ranking.percentile ≠ .nan := nofun
  exact ⟨⟨hreached, hnan⟩, parse_write hreached hnan⟩

end Draft

end PointerTriage.Settings
