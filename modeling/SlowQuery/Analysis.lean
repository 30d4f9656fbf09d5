import SlowQuery.Artifact
import SlowQuery.Run.Ingest

namespace SlowQuery.Storage

open Text

inductive AccessError where
  | notFound
  | isADirectory
  | notADirectory
  | nameTooLong
  | invalidInput
  | unexpectedEnd
  | other
deriving DecidableEq

def AccessError.message : AccessError → Text
  | .notFound => "no such file or directory".toList
  | .isADirectory => "is a directory".toList
  | .notADirectory => "not a directory".toList
  | .nameTooLong => "file name too long".toList
  | .invalidInput => "invalid input".toList
  | .unexpectedEnd => "unexpected end of file".toList
  | .other => "access failed".toList

/-- Files that can be read, written and looked for by their path. -/
class Files (m : Type → Type) where
  read : Text → m (Except AccessError Bytes)
  write : Text → Bytes → m (Except AccessError Unit)
  isThere : Text → m Bool

def splitSlash : Text → List Text
  | [] => [[]]
  | c :: t =>
    if c = '/' then [] :: splitSlash t
    else
      match splitSlash t with
      | [] => [[c]]
      | part :: parts => (c :: part) :: parts

def parts (path : Text) : List Text := (splitSlash path).filter (· ≠ [])

/-- The last part that names something; a path that ends in its parent has none. -/
def fileName? (path : Text) : Option Text :=
  match ((parts path).filter (· ≠ ['.'])).getLast? with
  | some name => if name = "..".toList then none else some name
  | none => none

def join (folder name : Text) : Text :=
  if folder = [] || endsWith ['/'] folder then folder ++ name else folder ++ '/' :: name

end SlowQuery.Storage

namespace SlowQuery.Analysis

open Text Storage

def artifactSuffix : Text := ".enc".toList

def isArtifact (path : Text) : Bool := endsWith artifactSuffix path

def archiveSuffix : Text := ".gz".toList

/-- The name of the artifact of a log, without the mark of a compressed file. -/
def artifactName (path : Text) : Text :=
  let name := (fileName? path).getD []
  if endsWith archiveSuffix name then
    name.take (name.length - archiveSuffix.length) ++ artifactSuffix
  else name ++ artifactSuffix

inductive ArtifactError where
  | access (e : AccessError)
  | fault (f : Artifact.Fault)

def ArtifactError.message : ArtifactError → Text
  | .access e => "cannot access .enc artifact: ".toList ++ e.message
  | .fault f => f.message

inductive Error where
  | access (e : AccessError)
  | artifact (e : ArtifactError)

def Error.message : Error → Text
  | .access e => "I/O error: ".toList ++ e.message
  | .artifact e => "cache artifact error: ".toList ++ e.message

structure Input where
  path : Text
  options : Run.Options
  output : Option Text

namespace Input

def new (path : Text) (options : Run.Options) : Input :=
  { path, options, output := if isArtifact path then none else some (artifactName path) }

def inFolder (i : Input) (folder : Text) : Input :=
  { i with output := i.output.map fun _ => join folder (artifactName i.path) }

end Input

def accessErrorOf : Gzip.Fault → AccessError
  | .cut => .unexpectedEnd
  | .malformed => .invalidInput

variable {m : Type → Type} [Monad m] [Files m]

def readArtifact (path : Text) : m (Except ArtifactError Run.Result) := do
  match ← Files.read path with
  | .error e => pure (.error (.access e))
  | .ok bytes =>
    match Artifact.decode bytes with
    | .ok r => pure (.ok r)
    | .error f => pure (.error (.fault f))

def writeArtifact (path : Text) (r : Run.Result) : m (Except AccessError Unit) :=
  Files.write path (Artifact.encode r)

def lines (path : Text) : m (Except AccessError (List Text)) := do
  match ← Files.read path with
  | .error e => pure (.error e)
  | .ok file => pure ((Run.readLines file).mapError accessErrorOf)

def countLines (path : Text) : m (Except AccessError Nat) := do
  pure ((← lines path).map List.length)

def parseLog (i : Input) : m (Except AccessError Run.Result) := do
  pure ((← lines i.path).map (Run.analyzeLines i.options))

/-- Reads an artifact as it is; parses a log and leaves an artifact of it, if that can be
written. -/
def analyze (i : Input) : m (Except Error (Run.Result × Input)) := do
  if isArtifact i.path then
    match ← readArtifact i.path with
    | .ok r => pure (.ok (r, { i with output := none }))
    | .error e => pure (.error (.artifact e))
  else
    match ← parseLog i with
    | .error e => pure (.error (.access e))
    | .ok r => do
      match i.output with
      | some path => do let _ ← writeArtifact path r
      | none => pure ()
      pure (.ok (r, i))

end SlowQuery.Analysis
