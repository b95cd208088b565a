import BoundaryHeap.CommandLine.Host

/-!
Where a path leads. It is followed name by name from a folder that holds files only. The folder is
in a directory in the root. Of the tree around it there are the root, the directory of devices, and
other directories in the root, of which nothing is known but what is above them. A path that ends
with a slash can only lead to a directory, so no file is ever made at it.
-/

namespace BoundaryHeap.CommandLine

/-- A device that can be read or written by its name. -/
inductive Device where
  /-- Holds nothing and takes everything. -/
  | null
  /-- Holds nothing and has room for nothing. -/
  | full
  /-- The standard output. -/
  | output
  /-- The standard error stream. -/
  | errors
  deriving Repr, DecidableEq

/-- The device of a name. Nothing comes in by the standard input. -/
def Device.ofName? : String → Option Device
  | "null" => some null
  | "stdin" => some null
  | "full" => some full
  | "stdout" => some output
  | "stderr" => some errors
  | _ => none

/-- What a path leads to. -/
inductive Place where
  /-- A name in the folder, whether there is a file of that name or not. -/
  | file (name : String)
  | directory
  | device (device : Device)
  /-- A name in a directory of which nothing is known. -/
  | unknown
  deriving Repr, DecidableEq

/-- The directories that a path can pass through. -/
inductive Directory where
  | folder
  | root
  | devices
  /-- Another directory in the root. What it holds is not known. -/
  | elsewhere
  deriving Repr, DecidableEq

namespace Directory

/-- The directories that every root holds, besides that of devices. -/
def common : List String := ["etc", "proc", "sys", "tmp", "usr", "var"]

/-- What a name stands for in a directory. -/
def place : Directory → String → Place
  | folder, name => .file name
  | root, "dev" => .directory
  | root, name => if common.contains name then .directory else .unknown
  | devices, name => match Device.ofName? name with
    | some device => .device device
    | none => .unknown
  | elsewhere, _ => .unknown

/-- The directory that is under a name in a directory, `held` being the names of the files in the
folder. -/
def inside (held : List String) : Directory → String → Except FileError Directory
  | root, "dev" => .ok devices
  | root, name => if common.contains name then .ok elsewhere else .error .notFound
  | folder, name => .error (if held.contains name then .notDirectory else .notFound)
  | devices, name => .error (if (Device.ofName? name).isSome then .notDirectory else .notFound)
  | elsewhere, _ => .error .notFound

/-- The directory above a directory. The root is above itself too. -/
def above : Directory → Directory
  | folder => elsewhere
  | _ => root

end Directory

namespace Path

/-- The most bytes that a name may have. -/
def nameLimit : Nat := 255

/-- The most bytes that a path may have. -/
def lengthLimit : Nat := 4095

/-- The place of the last name of a path that ends with a slash, which has to be a directory. -/
def closed (held : List String) : Place → Except FileError Place
  | .directory => .ok .directory
  | .file name => .error (if held.contains name then .notDirectory else .notFound)
  | .device _ => .error .notDirectory
  | .unknown => .error .notFound

/-- Follows names from a directory on. `ends` says whether a slash comes after the last one, and
`makes` whether a file is to be made if there is none. -/
def follow (held : List String) (ends makes : Bool) :
    Directory → List String → Except FileError Place
  | _, [] => .ok .directory
  | directory, name :: rest => do
    if name = "." then
      follow held ends makes directory rest
    else if name = ".." then
      follow held ends makes directory.above rest
    else if rest.isEmpty ∧ ends ∧ makes then
      throw .isDirectory
    else if nameLimit < name.utf8ByteSize then
      throw .nameTooLong
    else if rest.isEmpty then
      if ends then closed held (directory.place name) else return directory.place name
    else
      follow held ends makes (← directory.inside held name) rest

/-- What a path leads to, seen from a folder that holds files of the names `held`. -/
def resolve (held : List String) (makes : Bool) (path : String) : Except FileError Place :=
  if lengthLimit < path.utf8ByteSize then .error .nameTooLong
  else
    let start := if path.startsWith "/" then Directory.root else Directory.folder
    follow held (path.endsWith "/") makes start ((path.splitOn "/").filter (· ≠ ""))

end Path

end BoundaryHeap.CommandLine
