import PointerTriage.Files
import PointerTriage.Settings.Rule

namespace PointerTriage

namespace Settings

/-- The interval of a numeric setting, and why it is there. -/
structure Range where
  field : String
  least : String
  most : String
  hint : String
  deriving DecidableEq, Repr

/-- What is wrong with a line of a functions file. -/
inductive LineFault where
  | missingName
  | badArgument (token : String)
  | unknownTag (tag : String)
  | trailing (token : String)
  deriving DecidableEq, Repr

def LineFault.message : LineFault → String
  | .missingName => "missing function name"
  | .badArgument token => s!"argument start '{token}' is not a non-negative integer"
  | .unknownTag tag => s!"unknown tag '{tag}', expected IF or VULN"
  | .trailing token => s!"unexpected trailing token '{token}'"

/-- Settings that contradict themselves or name nothing. -/
inductive Conflict where
  | noEntry
  | noInputs
  | namelessInput (argStart : Nat)
  | selfCopy (function : String) (argument : Nat)
  | noRules
  | unknownProtection (text : String)
  deriving DecidableEq, Repr

def Conflict.message : Conflict → String
  | .noEntry => "entry_function must name a function"
  | .noInputs => "input_functions must list at least one untrusted-input function"
  | .namelessInput argStart => s!"input function with arg_start={argStart} has an empty name"
  | .selfCopy function argument =>
    s!"copy function '{function}' uses argument {argument} as both source and destination"
  | .noRules => "at least one prioritization rule must be enabled"
  | .unknownProtection text =>
    s!"unknown protection mode '{text}'. Valid modes: none, full, dpp"

inductive Error where
  | outOfRange (range : Range) (value : String)
  | missingVersion
  | unsupportedVersion (found : Nat)
  | unknownPreset (name : String)
  | unknownRule (name : String)
  | badLine (line : Nat) (fault : LineFault)
  | unreadable (fault : FileFault)
  | malformedYaml
  | conflict (cause : Conflict)
  deriving DecidableEq, Repr

def Error.message : Error → String
  | .outOfRange r value => s!"{r.field} = {value} is outside {r.least}..={r.most}: {r.hint}"
  | .missingVersion => "configuration file has no 'version' key (expected 'version: 1')"
  | .unsupportedVersion found => s!"configuration version {found} is not supported (known: 1)"
  | .unknownPreset name => s!"no preset named '{name}' (fast, balanced, thorough, custom)"
  | .unknownRule name =>
    s!"no prioritization rule named '{name}' (" ++
      ", ".intercalate (Rule.all.map Rule.name) ++ ")"
  | .badLine line fault => s!"functions file, line {line}: " ++ fault.message
  | .unreadable fault => "reading configuration: " ++ fault.message
  | .malformedYaml => "malformed YAML configuration"
  | .conflict cause => "inconsistent configuration: " ++ cause.message

end Settings

end PointerTriage
