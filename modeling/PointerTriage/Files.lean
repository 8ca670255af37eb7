namespace PointerTriage

inductive FileFault where
  | notFound
  | isDirectory
  | notDirectory
  | denied
  | nameTooLong
  | notUtf8
  | other (text : String)
  deriving DecidableEq, Repr

def FileFault.message : FileFault → String
  | .notFound => "No such file or directory (os error 2)"
  | .isDirectory => "Is a directory (os error 21)"
  | .notDirectory => "Not a directory (os error 20)"
  | .denied => "Permission denied (os error 13)"
  | .nameTooLong => "File name too long (os error 36)"
  | .notUtf8 => "stream did not contain valid UTF-8"
  | .other text => text

/-- What reading a text file gives. -/
abbrev Contents := Except FileFault String

def Contents.ofBytes (bytes : ByteArray) : Contents :=
  match String.fromUTF8? bytes with
  | some s => .ok s
  | none => .error .notUtf8

/-- A tree of files in memory, by the parts of their paths from the root, and the folder where a path
starts that does not say otherwise. -/
structure Directory where
  home : List String
  files : List (List String × String)

/-- Where a path leads. -/
inductive Place where
  | folder (path : List String)
  | file (path : List String) (text : String)

namespace Directory

/-- A part of a path has at most so many bytes. -/
def longestName : Nat := 255

def longestPath : Nat := 4095

def parts (path : String) : List String := (path.splitOn "/").filter (· ≠ "")

/-- A home with files in it. Outside there is only the file that is always empty. -/
def ofFiles (files : List (String × String)) : Directory :=
  let home := ["tmp", "work"]
  ⟨home, (["dev", "null"], "") ::
    files.map fun (path, text) => (home ++ (parts path).filter (· ≠ "."), text)⟩

/-- What is at a path. Folders are there for what they hold. -/
def at? (d : Directory) (path : List String) : Option Place :=
  match d.files.find? (·.1 = path) with
  | some (_, text) => some (.file path text)
  | none =>
    if path.isPrefixOf d.home || d.files.any (path.isPrefixOf ·.1) then some (.folder path) else none

def enter (d : Directory) : Place → String → Except FileFault Place
  | .file .., _ => .error .notDirectory
  | .folder path, name =>
    if name = "." then .ok (.folder path)
    else if name = ".." then .ok (.folder path.dropLast)
    else if longestName < name.utf8ByteSize then .error .nameTooLong
    else
      match d.at? (path ++ [name]) with
      | some place => .ok place
      | none => .error .notFound

/-- From where a path starts through the parts of it. -/
def walk (d : Directory) (path : String) (names : List String) : Except FileFault Place :=
  if longestPath < path.utf8ByteSize then .error .nameTooLong
  else names.foldlM d.enter (.folder (if path.startsWith "/" then [] else d.home))

def read (d : Directory) (path : String) : Contents := do
  match ← d.walk path (parts path) with
  | .folder _ => .error .isDirectory
  | .file _ text => if path.endsWith "/" then .error .notDirectory else .ok text

/-- Replaces a file, or adds one to a folder that is there. -/
def write (d : Directory) (path text : String) : Except FileFault Directory := do
  let names := parts path
  match ← d.walk path names.dropLast, names.getLast? with
  | .file .., _ => .error .notDirectory
  | .folder _, none => .error .isDirectory
  | .folder folder, some name =>
    if name = "." || name = ".." || path.endsWith "/" then .error .isDirectory
    else if longestName < name.utf8ByteSize then .error .nameTooLong
    else
      let file := folder ++ [name]
      match d.at? file with
      | some (.folder _) => .error .isDirectory
      | _ => .ok { d with files := (file, text) :: d.files.filter (·.1 ≠ file) }

end Directory

end PointerTriage
