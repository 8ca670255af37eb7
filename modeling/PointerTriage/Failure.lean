import PointerTriage.Settings.Yaml
import PointerTriage.Snapshot.Build
import PointerTriage.Snapshot.Json

namespace PointerTriage

inductive Failure where
  | settings (e : Settings.Error)
  | file (fault : FileFault)
  /-- The text is not the JSON of a snapshot. -/
  | malformedSnapshot
  | build (e : BuildError)

namespace Failure

def message : Failure → String
  | .settings e => "Configuration error: " ++ e.message
  | .file fault => "IO error: " ++ fault.message
  | .malformedSnapshot => "Serialization error"
  | .build (.name e) => "Snapshot error: " ++ e.message
  | .build (.graph e) => "Graph error: " ++ e.message

end Failure

namespace Settings

def Functions.load (contents : Contents) : Except Error Functions := do
  parse (← contents.mapError .unreadable)

def load (contents : Contents) : Except Error Settings := do
  (← Draft.parse (← contents.mapError .unreadable)).build

end Settings

namespace Snapshot

def parse (s : String) : Except Failure Snapshot :=
  match parse? s with
  | some s => .ok s
  | none => .error .malformedSnapshot

def load (contents : Contents) : Except Failure Snapshot := do
  parse (← contents.mapError .file)

/-- Reads a snapshot and builds the program in it. -/
def loadProgram (contents : Contents) : Except Failure Built := do
  (← load contents).build.mapError .build

end Snapshot

end PointerTriage
