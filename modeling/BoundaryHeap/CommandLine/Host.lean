import BoundaryHeap.Config.Environment

/-!
What the commands need of the system they run on: files, two streams of output, the environment and
a clock. The commands are written over any monad that offers these.
-/

namespace BoundaryHeap.CommandLine

/-- Why a file could not be used. -/
inductive FileError where
  /-- The system refused, with the number, the kind and the text of its error. -/
  | system (code : Nat) (kind message : String)
  /-- What is in the file is not text. -/
  | notText
  deriving Repr, DecidableEq

namespace FileError

/-- There is nothing of the name. -/
def notFound : FileError := .system 2 "NotFound" "No such file or directory"

/-- The name is that of a thing one may not use. -/
def denied : FileError := .system 13 "PermissionDenied" "Permission denied"

/-- A path goes on behind a thing that holds no others. -/
def notDirectory : FileError := .system 20 "NotADirectory" "Not a directory"

/-- The path leads to a directory, which has no contents of its own. -/
def isDirectory : FileError := .system 21 "IsADirectory" "Is a directory"

/-- There is no room for what was to be written. -/
def noSpace : FileError := .system 28 "StorageFull" "No space left on device"

/-- A name, or the whole path, has too many bytes. -/
def nameTooLong : FileError := .system 36 "InvalidFilename" "File name too long"

/-- What an error says to a person. -/
def message : FileError → String
  | system code _ message => s!"{message} (os error {code})"
  | notText => "stream did not contain valid UTF-8"

/-- Every detail of an error. -/
def detail : FileError → String
  | system code kind message =>
    s!"Os \x7b code: {code}, kind: {kind}, message: \"{message}\" \x7d"
  | notText =>
    "Error \x7b kind: InvalidData, message: \"stream did not contain valid UTF-8\" \x7d"

end FileError

/-- A system that commands can run on. -/
class Host (m : Type → Type) where
  /-- All bytes of a file. -/
  contents : String → m (Except FileError ByteArray)
  /-- Makes a file that holds just this text, in place of any other with that path. -/
  store : String → String → m (Except FileError Unit)
  /-- Writes a text to the end of a file. -/
  append : String → String → m (Except FileError Unit)
  /-- Writes to the standard output. -/
  print : String → m Unit
  /-- Writes to the standard error stream. -/
  report : String → m Unit
  /-- The value of a variable of the environment. -/
  lookUp : String → m (Option String)
  /-- The time of day. -/
  timestamp : m String
  /-- A clock that counts nanoseconds. -/
  nanoseconds : m Nat
  /-- A name for this run of the program. -/
  runName : m String

namespace Host

variable {m : Type → Type} [Monad m] [Host m]

/-- The text of a file. -/
def readText (path : String) : m (Except FileError String) := do
  match ← contents path with
  | .error error => return .error error
  | .ok bytes =>
    match String.fromUTF8? bytes with
    | some text => return .ok text
    | none => return .error .notText

/-- The variables that settings are taken from. -/
def environment : m Environment := do
  let names := ["TAGHEAP_CHUNK_SIZE", "TAGHEAP_SPLIT_THRESHOLD", "TAGHEAP_PLACEMENT",
    "TAGHEAP_CHECK", "TAGHEAP_LOG"]
  let held ← names.mapM fun name => do return (name, ← lookUp name)
  return fun name => (held.lookup name).join

end Host

end BoundaryHeap.CommandLine
