import PointerTriage.CommandLine.Run

open PointerTriage

namespace PointerTriage.CommandLine

def faultOf : IO.Error → FileFault
  | .noFileOrDirectory .. => .notFound
  | .inappropriateType _ code _ => if code = 21 then .isDirectory else .notDirectory
  | .permissionDenied .. => .denied
  -- The number of a fault may come with a minus sign.
  | .invalidArgument _ code details =>
    if code = 36 || code = -36 then .nameTooLong else .other details
  | e => .other (toString e)

def readFile (path : String) : IO Contents := do
  try
    return .ofBytes (← IO.FS.readBinFile path)
  catch e => return .error (faultOf e)

/-- The files that the arguments name, read once. -/
def readAll (o : Options) : IO Reader := do
  let paths := o.config.toList ++ o.functions.toList ++ o.snapshot.toList
  let files ← paths.mapM fun path => return (path, ← readFile path)
  return fun path => ((files.find? (·.1 == path)).map (·.2)).getD (.error .notFound)

def complain (r : Reply) : IO UInt32 := do
  IO.eprint r.complaint
  return r.code.toUInt32

def perform : Reply → IO UInt32
  | .print text => do
    IO.print text
    return 0
  | .save path text => do
    try
      IO.FS.writeFile path text
      return 0
    catch e => complain (.fail (.file (faultOf e)))
  | r => complain r

end PointerTriage.CommandLine

open PointerTriage.CommandLine in
def main (args : List String) : IO UInt32 := do
  match parse args with
  | .error stop => perform (.ofStop stop)
  | .ok o => perform (o.reply (← readAll o))
