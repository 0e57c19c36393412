import CommandVM.Path

/-!
# Files

`Files` is what the tool needs of a file system, in any monad. `Disk` is a file system in memory: a
tree of directories with files in them.
-/

namespace CommandVM

inductive FileError where
  | notFound
  | notADirectory
  | isADirectory
  | nameTooLong
  | nulInName
  | other (message : String)
deriving Repr, DecidableEq

def FileError.message : FileError → String
  | .notFound => "No such file or directory (os error 2)"
  | .notADirectory => "Not a directory (os error 20)"
  | .isADirectory => "Is a directory (os error 21)"
  | .nameTooLong => "File name too long (os error 36)"
  | .nulInName => "file name contained an unexpected NUL byte"
  | .other message => message

structure Files (m : Type → Type) where
  read : String → m (Except FileError (List UInt8))
  write : String → List UInt8 → m (Except FileError Unit)

/-! ### A disk in memory -/

/-- The names that lead from the root to a file or directory, the last one first. -/
abbrev Trail := List String

def rootNames : List String :=
  ["bin", "boot", "dev", "etc", "home", "lib", "media", "mnt", "opt", "proc", "root", "run", "sbin",
    "srv", "sys", "tmp", "usr", "var"]

/-- The null device: a file that stays empty. -/
def nullDevice : Trail := ["null", "dev"]

/-- A tree of directories and files, and the directory where relative paths start: at first an empty
one, beside the usual directories. -/
structure Disk where
  working : Trail := ["work", "tmp"]
  directories : List Trail := working :: [] :: rootNames.map ([·])
  files : List (Trail × List UInt8) := [(nullDevice, [])]

namespace Disk

def nameLimit : Nat := 255

def pathLimit : Nat := 4095

/-- The disk with a file set. What goes to the null device is lost. -/
def set (d : Disk) (trail : Trail) (content : List UInt8) : Disk :=
  if trail = nullDevice then d
  else { d with files := (trail, content) :: d.files.filter fun (other, _) => other ≠ trail }

def follow (here : Trail) (step : String) : Trail :=
  if step = "." then here else if step = ".." then here.tail else step :: here

def enter (d : Disk) (here : Trail) (step : String) : Except FileError Trail :=
  if step = "." || step = ".." then .ok (follow here step)
  else if nameLimit < step.utf8ByteSize then .error .nameTooLong
  else if step :: here ∈ d.directories then .ok (step :: here)
  else if (d.files.lookup (step :: here)).isSome then .error .notADirectory
  else .error .notFound

/-- What a path leads to: a directory by its dots, or a name in a directory, whether something has
that name or not. -/
inductive Place where
  | directory
  | entry (directory : Trail) (name : String)
deriving Repr, DecidableEq

/-- Finds a path: all steps but the last are entered. -/
def find (d : Disk) (path : String) : Except FileError Place := do
  if path.toList.contains '\x00' then throw .nulInName
  if path = "" then throw .notFound
  if pathLimit < path.utf8ByteSize then throw .nameTooLong
  let steps := Path.steps path
  let here ← steps.dropLast.foldlM d.enter (if Path.isAbsolute path then [] else d.working)
  match steps.getLast? with
  | none | some "." | some ".." => return .directory
  | some name => return .entry here name

/-- The content of a file. A slash after its name asks for a directory. -/
def read (d : Disk) (path : String) : Except FileError (List UInt8) := do
  match ← d.find path with
  | .directory => throw .isADirectory
  | .entry here name =>
    if nameLimit < name.utf8ByteSize then throw .nameTooLong
    if name :: here ∈ d.directories then throw .isADirectory
    match d.files.lookup (name :: here) with
    | none => throw .notFound
    | some content => if Path.endsInSlash path then throw .notADirectory else return content

def write (d : Disk) (path : String) (content : List UInt8) : Except FileError Disk := do
  match ← d.find path with
  | .directory => throw .isADirectory
  | .entry here name =>
    if Path.endsInSlash path then throw .isADirectory
    if nameLimit < name.utf8ByteSize then throw .nameTooLong
    if name :: here ∈ d.directories then throw .isADirectory
    return d.set (name :: here) content

def access : Files (StateM Disk) where
  read path := fun d => (d.read path, d)
  write path content := fun d => match d.write path content with
    | .ok d => (.ok (), d)
    | .error e => (.error e, d)

def ancestors : Trail → List Trail
  | [] => []
  | _ :: rest => rest :: ancestors rest

/-- A disk whose working directory has some files, with the directories that their paths pass
through. -/
def ofFiles (files : List (String × List UInt8)) : Disk :=
  files.foldl (fun d (path, content) =>
    let trail := (Path.steps path).foldl follow d.working
    { d.set trail content with directories := ancestors trail ++ d.directories }) {}

end Disk

end CommandVM
