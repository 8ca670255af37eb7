import PointerTriage.Decimal.Text

namespace PointerTriage.CommandLine
open Decimal (Binary64)

/-- Arguments that have no value. -/
inductive Flag where
  | logRule
  | json
  | verbose
  | help
  | version
  deriving DecidableEq, Repr

/-- Arguments that have a value. -/
inductive Slot where
  | config
  | preset
  | functions
  | rule
  | topk
  | protection
  | output
  deriving DecidableEq, Repr

structure Options where
  snapshot : Option String := none
  config : Option String := none
  preset : Option String := none
  functions : Option String := none
  rules : List String := []
  topk : Option Binary64 := none
  protection : Option String := none
  output : Option String := none
  flags : List Flag := []

/-- Why the arguments do not lead to a run. -/
inductive Stop where
  | misuse
  | help
  | version
  deriving DecidableEq, Repr

/-- What a name stands for. -/
inductive Meaning where
  | flag (f : Flag)
  | slot (s : Slot)

def longName : String → Option Meaning
  | "config" => some (.slot .config)
  | "preset" => some (.slot .preset)
  | "functions" => some (.slot .functions)
  | "rule" => some (.slot .rule)
  | "topk" => some (.slot .topk)
  | "protection" => some (.slot .protection)
  | "output" => some (.slot .output)
  | "log-rule" => some (.flag .logRule)
  | "json" => some (.flag .json)
  | "verbose" => some (.flag .verbose)
  | "help" => some (.flag .help)
  | "version" => some (.flag .version)
  | _ => none

def shortName : Char → Option Meaning
  | 'o' => some (.slot .output)
  | 'v' => some (.flag .verbose)
  | 'h' => some (.flag .help)
  | 'V' => some (.flag .version)
  | _ => none

namespace Options

/-- A value that may be given once. -/
def once (old : Option α) (new : Option α) : Except Stop (Option α) :=
  match old, new with
  | none, some a => .ok (some a)
  | _, _ => .error .misuse

/-- A path is not empty. -/
def path? (s : String) : Option String := if s = "" then none else some s

def positional (o : Options) (s : String) : Except Stop Options := do
  return { o with snapshot := ← once o.snapshot (path? s) }

/-- Rules add up; all else is given once. -/
def set (o : Options) (slot : Slot) (s : String) : Except Stop Options := do
  match slot with
  | .config => return { o with config := ← once o.config (path? s) }
  | .preset => return { o with preset := ← once o.preset (some s) }
  | .functions => return { o with functions := ← once o.functions (path? s) }
  | .rule => return { o with rules := o.rules ++ [s] }
  | .topk => return { o with topk := ← once o.topk (Decimal.double? s) }
  | .protection => return { o with protection := ← once o.protection (some s) }
  | .output => return { o with output := ← once o.output (path? s) }

def raise (o : Options) : Flag → Except Stop Options
  | .help => .error .help
  | .version => .error .version
  | f => if o.flags.contains f then .error .misuse else .ok { o with flags := f :: o.flags }

end Options

/-- Options so far, and what the next argument is taken for. -/
structure State where
  options : Options := {}
  /-- The next argument is the value of this slot. -/
  pending : Option Slot := none
  /-- Names are no longer looked for. -/
  onlyPositional : Bool := false

namespace State

/-- Letters after one dash. A slot takes the rest of them as its value, or the next argument. -/
def letters (st : State) : List Char → Except Stop State
  | [] => .ok st
  | c :: cs => do
    match shortName c with
    | some (.flag f) => letters { st with options := ← st.options.raise f } cs
    | some (.slot slot) =>
      match cs with
      | [] => return { st with pending := some slot }
      | '=' :: cs => return { st with options := ← st.options.set slot (String.ofList cs) }
      | cs => return { st with options := ← st.options.set slot (String.ofList cs) }
    | none => throw .misuse

/-- A name after two dashes, and a value after an equals sign. -/
def name (st : State) (cs : List Char) : Except Stop State := do
  let value := match cs.dropWhile (· ≠ '=') with
    | _ :: value => some (String.ofList value)
    | [] => none
  match longName (String.ofList (cs.takeWhile (· ≠ '='))), value with
  | some (.flag f), none => return { st with options := ← st.options.raise f }
  | some (.slot slot), some value => return { st with options := ← st.options.set slot value }
  | some (.slot slot), none => return { st with pending := some slot }
  | _, _ => throw .misuse

/-- The value of the slot that waits for one, or the positional argument. -/
def plain (st : State) (s : String) : Except Stop State := do
  match st.pending with
  | some slot => return { st with options := ← st.options.set slot s, pending := none }
  | none => return { st with options := ← st.options.positional s }

def step (st : State) (s : String) : Except Stop State :=
  if st.onlyPositional then st.plain s
  else
    match s.toList with
    | '-' :: c :: cs =>
      if st.pending.isSome then .error .misuse
      else if c = '-' then
        if cs.isEmpty then .ok { st with onlyPositional := true } else st.name cs
      else st.letters (c :: cs)
    | _ => st.plain s

def finish (st : State) : Except Stop Options :=
  if st.pending.isSome || st.options.snapshot.isNone then .error .misuse else .ok st.options

end State

/-- Arguments are looked at one by one; the first one that asks for help or for the version, or that
is wrong, decides. -/
def parse (args : List String) : Except Stop Options := do
  (← args.foldlM State.step {}).finish

end PointerTriage.CommandLine
