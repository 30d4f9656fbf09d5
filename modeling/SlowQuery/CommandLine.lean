import SlowQuery.Analysis
import SlowQuery.Run.Report

namespace SlowQuery.CommandLine

open Text Storage

structure Request where
  inputs : List Text := []
  collscan : Bool := false
  silent : Bool := false
  verbose : Bool := false
  outputDir : Option Text := none
  logLevel : Option Text := none

inductive Command where
  | analyze (request : Request)
  | help
  | version
  | misuse

def Request.options (r : Request) : Run.Options :=
  { collscanOnly := r.collscan, verbose := r.verbose }

/-- One step of reading arguments: a request so far, or a command that ends the reading. -/
abbrev Reading := Except Command Request

/-- Every option may be given once. -/
def setFlag (given : Bool) (r : Request) : Reading := if given then .error .misuse else .ok r

def flag (name : Text) (r : Request) : Reading :=
  if name = "collscan".toList then setFlag r.collscan { r with collscan := true }
  else if name = "silent".toList then setFlag r.silent { r with silent := true }
  else if name = "verbose".toList then setFlag r.verbose { r with verbose := true }
  else if name = "help".toList then .error .help
  else if name = "version".toList then .error .version
  else .error .misuse

def shortName : Char → Text
  | 'v' => "verbose".toList
  | 'h' => "help".toList
  | 'V' => "version".toList
  | _ => []

def shortFlags (r : Request) : Text → Reading
  | [] => .ok r
  | c :: cs =>
    match flag (shortName c) r with
    | .ok r => shortFlags r cs
    | .error command => .error command

def takesValue (name : Text) : Bool := name = "output-dir".toList || name = "log-level".toList

def option (name value : Text) (r : Request) : Reading :=
  if name = "output-dir".toList then
    if value = [] then .error .misuse
    else setFlag r.outputDir.isSome { r with outputDir := some value }
  else setFlag r.logLevel.isSome { r with logLevel := some value }

def input (path : Text) (r : Request) : Reading :=
  if path = [] then .error .misuse else .ok { r with inputs := r.inputs ++ [path] }

/-- A dash alone is a value like any other. -/
def isOption (arg : Text) : Bool := startsWith ['-'] arg && arg ≠ ['-']

def readArgs : Request → List Text → Reading
  | r, [] => .ok r
  | r, arg :: args =>
    if arg = "--".toList then args.foldlM (fun r path => input path r) r
    else if startsWith "--".toList arg then
      let (name, attached) := match splitAt? '=' (arg.drop 2) with
        | some (name, value) => (name, some value)
        | none => (arg.drop 2, none)
      if takesValue name then
        match attached, args with
        | some value, args =>
          match option name value r with
          | .ok r => readArgs r args
          | .error command => .error command
        | none, value :: args =>
          if isOption value then .error .misuse
          else
            match option name value r with
            | .ok r => readArgs r args
            | .error command => .error command
        | none, [] => .error .misuse
      else if attached.isSome then .error .misuse
      else
        match flag name r with
        | .ok r => readArgs r args
        | .error command => .error command
    else
      match (if isOption arg then shortFlags r (arg.drop 1) else input arg r) with
      | .ok r => readArgs r args
      | .error command => .error command

def Command.ofArgs (args : List Text) : Command :=
  match readArgs {} args with
  | .error command => command
  | .ok r => if r.inputs = [] then .misuse else .analyze r

def versionText : Text := "queryscope 0.1.0\n".toList

def usageText : String := "Usage: queryscope [OPTIONS] <INPUT>..."

def helpLines : List String :=
  ["Slow-operation query shapes from database server logs",
   "",
   usageText,
   "",
   "Arguments:",
   "  <INPUT>...  Log files (plain or gzip) or previously written `.enc` artifacts",
   "",
   "Options:",
   "      --collscan                 Only aggregate collection scans",
   "      --silent                   No progress output",
   "  -v, --verbose                  Print startup options and the slowest individual operations too",
   "      --output-dir <OUTPUT_DIR>  Directory for `.enc` artifacts (defaults to the working directory)",
   "      --log-level <LOG_LEVEL>    Tracing filter, e.g. `debug` or `queryscope=trace` [default: warn]",
   "  -h, --help                     Print help",
   "  -V, --version                  Print version"]

def helpText : Text := helpLines.flatMap fun line => line.toList ++ ['\n']

structure Outcome where
  code : UInt32
  output : Text
  written : List Text := []
  problem : Option Text := none

def Outcome.notes (o : Outcome) : List Text :=
  o.written.map ("Encoded output written to ".toList ++ ·)

variable {m : Type → Type} [Monad m] [Files m]

/-- The first input that cannot be analysed ends the program. -/
def analyzeAll (r : Request) : Outcome → List Text → m Outcome
  | o, [] => pure o
  | o, path :: paths => do
    let input := .new path r.options
    let input := match r.outputDir with
      | some folder => Analysis.Input.inFolder input folder
      | none => input
    match ← Analysis.analyze input with
    | .error e => pure { o with code := 1, problem := some e.message }
    | .ok (result, input) =>
      let output := o.output ++ Run.summaryText r.options result ++ ['\n']
      let written ← match input.output with
        | some path => do pure (if ← Files.isThere path then o.written ++ [path] else o.written)
        | none => pure o.written
      analyzeAll r { o with output, written } paths

def run (args : List Text) : m Outcome :=
  match Command.ofArgs args with
  | .analyze r => analyzeAll r { code := 0, output := [] } r.inputs
  | .help => pure { code := 0, output := helpText }
  | .version => pure { code := 0, output := versionText }
  | .misuse => pure { code := 2, output := [], problem := some usageText.toList }

end SlowQuery.CommandLine
