import PointerTriage.Settings.Functions

namespace PointerTriage

namespace Settings

structure Stages where
  preset : Preset
  taint : Taint
  bound : Bound
  rules : Rules
  ranking : Ranking
  deriving DecidableEq

def Stages.check (s : Stages) : Except Error Unit := do
  s.taint.check
  s.bound.check
  s.rules.check
  s.ranking.check

/-- The check of a stage that may have been changed. -/
def checkChange {α : Type} (check : α → Except Error Unit) (change : Option α) : Except Error Unit :=
  change.elim (.ok ()) check

/-- A stage that is absent has the preset's settings. -/
structure Draft where
  preset : Preset := .balanced
  taint : Option Taint := none
  bound : Option Bound := none
  rules : Option Rules := none
  ranking : Option Ranking := none
  deriving DecidableEq

end Settings

/-- Settings that passed every check. -/
structure Settings extends Settings.Stages where
  valid : toStages.check = .ok ()

namespace Settings

def Stages.freeze (s : Stages) : Except Error Settings :=
  match h : s.check with
  | .ok () => .ok ⟨s, h⟩
  | .error e => .error e

namespace Draft

def ofPreset (p : Preset) : Draft := ⟨p, none, none, none, none⟩

def stages (d : Draft) : Stages where
  preset := d.preset
  taint := d.taint.getD (.ofPreset d.preset)
  bound := d.bound.getD (.ofPreset d.preset)
  rules := d.rules.getD (.ofPreset d.preset)
  ranking := d.ranking.getD (.ofPreset d.preset)

def onTaint (d : Draft) (f : Taint → Taint) : Draft := { d with taint := some (f d.stages.taint) }

def onBound (d : Draft) (f : Bound → Bound) : Draft := { d with bound := some (f d.stages.bound) }

def onRules (d : Draft) (f : Rules → Rules) : Draft := { d with rules := some (f d.stages.rules) }

def onRanking (d : Draft) (f : Ranking → Ranking) : Draft :=
  { d with ranking := some (f d.stages.ranking) }

/-- Each list of a functions file replaces the one in force, unless it is empty. -/
def withFunctions (d : Draft) (fs : Functions) : Draft :=
  let d := if fs.inputs.isEmpty then d else d.onTaint ({ · with inputs := fs.inputs })
  if fs.vulnerable.isEmpty then d else d.onRules ({ · with vulnerable := fs.vulnerable })

/-- Settings that are valid but unlikely to be meant. -/
def warnings (d : Draft) : List String :=
  let s := d.stages
  let vulnerable :=
    if s.rules.rules.contains .vulnerableArg && s.rules.vulnerable.isEmpty then
      ["rule 'vulnerable-arg' is enabled but the vulnerable function list is empty"]
    else []
  let allocators :=
    if s.rules.rules.contains .unboundedAlloc && s.rules.allocators.isEmpty then
      ["rule 'unbounded-alloc' is enabled but no allocator functions are configured"]
    else []
  let share :=
    if s.ranking.protection != .prioritized && s.ranking.percentile.lt Ranking.hundred then
      let percentile := toString s.ranking.percentile
      let mode := s.ranking.protection.name
      [s!"top_k_percentile={percentile} has no effect with protection mode '{mode}'"]
    else []
  vulnerable ++ allocators ++ share

/-- The checks of the stages that were changed, and of no others. -/
def checkChanges (d : Draft) : Except Error Unit := do
  checkChange Taint.check d.taint
  checkChange Bound.check d.bound
  checkChange Rules.check d.rules
  checkChange Ranking.check d.ranking

/-- The changes are checked first, and then all stages, with what the preset gives. -/
def build (d : Draft) : Except Error Settings := do
  d.checkChanges
  d.stages.freeze

end Draft

/-- All stages as explicit changes. -/
def reopen (s : Settings) : Draft :=
  ⟨s.preset, some s.taint, some s.bound, some s.rules, some s.ranking⟩

def describe (s : Settings) : String :=
  let rules := ", ".intercalate (s.rules.rules.map Rule.name)
  let percentile := toString s.ranking.percentile
  let inputs := s.taint.inputs.length
  s!"preset={s.preset.name} entry={s.taint.entry} inputs={inputs} " ++
    s!"bounds=({s.bound.maxBackwardCmps}, {s.bound.maxPathLength}, {s.bound.maxPathsWithCmps}) " ++
    s!"rules=[{rules}] top_k={percentile}% protection={s.ranking.protection.name}"

/-- The rules that run, in the fixed order. -/
def enabled (s : Settings) : List Rule := Rule.all.filter s.rules.isEnabled

end Settings

end PointerTriage
