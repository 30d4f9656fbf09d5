import SlowQuery.CommandLine

namespace SlowQuery

open Storage

def systemError : IO.Error → AccessError
  | .noFileOrDirectory .. => .notFound
  | .inappropriateType _ code _ => if code = 21 ∨ code = -21 then .isADirectory else .notADirectory
  | .invalidArgument _ code _ => if code = 22 then .invalidInput else .nameTooLong
  | _ => .other

instance : Files IO where
  read path := do
    match ← (IO.FS.readBinFile (String.ofList path)).toBaseIO with
    | .ok contents => pure (.ok contents.toList)
    | .error e => pure (.error (systemError e))
  write path contents := do
    match ← (IO.FS.writeBinFile (String.ofList path) contents.toByteArray).toBaseIO with
    | .ok () => pure (.ok ())
    | .error e => pure (.error (systemError e))
  isThere path := do
    match ← (IO.FS.Handle.mk (String.ofList path) .read).toBaseIO with
    | .ok _ => pure true
    | .error _ => pure false

end SlowQuery

def main (args : List String) : IO UInt32 := do
  let outcome ← SlowQuery.CommandLine.run (args.map String.toList)
  IO.print (String.ofList outcome.output)
  for note in outcome.notes do
    IO.eprintln (String.ofList note)
  if let some problem := outcome.problem then
    IO.eprintln (String.ofList problem)
  pure outcome.code
