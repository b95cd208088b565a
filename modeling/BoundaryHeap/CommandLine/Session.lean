import BoundaryHeap.CommandLine.Path

/-!
A system held in memory: a folder of files, two streams, an environment and a clock that stands
still. Commands run on it as on any other, so that what they do can be computed and stated.
-/

namespace BoundaryHeap.CommandLine

/-- The state of a system held in memory. -/
structure Session where
  /-- The files of the folder by their names. -/
  files : List (String × ByteArray)
  /-- What has been written to the standard output. -/
  output : String
  /-- What has been written to the standard error stream. -/
  errors : String
  /-- The variables of the environment. -/
  environment : List (String × String)
  timestamp : String
  nanoseconds : Nat
  runName : String

namespace Session

/-- The names of the files in the folder. -/
def held (s : Session) : List String := s.files.map (·.1)

/-- All bytes of what a path leads to. -/
def contents (s : Session) (path : String) : Except FileError ByteArray := do
  match ← Path.resolve s.held false path with
  | .directory => throw .isDirectory
  | .file name => match s.files.lookup name with
    | some bytes => return bytes
    | none => throw .notFound
  | .device _ => return .empty
  | .unknown => throw .notFound

/-- The session after a text has been written to a path. A file then holds what `bytes` makes of
what it held, which was nothing if there was no such file. What is written outside the folder does
not show. -/
def write (s : Session) (path text : String) (bytes : ByteArray → ByteArray) :
    Except FileError Session := do
  match ← Path.resolve s.held true path with
  | .directory => throw .isDirectory
  | .file name =>
    let held := (s.files.lookup name).getD .empty
    return { s with files := (name, bytes held) :: s.files.filter fun file => file.1 ≠ name }
  | .device .full => if text.isEmpty then return s else throw .noSpace
  | .device .output => return { s with output := s.output ++ text }
  | .device .errors => return { s with errors := s.errors ++ text }
  | .device .null => return s
  | .unknown => return s

/-- The session with a text at a path, in place of what was there. -/
def store (s : Session) (path text : String) : Except FileError Session :=
  s.write path text fun _ => text.toUTF8

/-- The session with a text at a path, behind what was there. -/
def append (s : Session) (path text : String) : Except FileError Session :=
  s.write path text fun held => held ++ text.toUTF8

/-- Takes up the session that a change leads to, if it is not refused. -/
def take (change : Session → Except FileError Session) :
    StateM Session (Except FileError Unit) := do
  match change (← get) with
  | .ok s =>
    set s
    return .ok ()
  | .error error => return .error error

instance : Host (StateM Session) where
  contents path := do return (← get).contents path
  store path text := take (·.store path text)
  append path text := take (·.append path text)
  print text := modify fun s => { s with output := s.output ++ text }
  report text := modify fun s => { s with errors := s.errors ++ text }
  lookUp name := do return (← get).environment.lookup name
  timestamp := do return (← get).timestamp
  nanoseconds := do return (← get).nanoseconds
  runName := do return (← get).runName

end Session

end BoundaryHeap.CommandLine
