import SourceGen.CommandLine.Run

/-!
# The program

Reads the tree files of a call, runs its command, and prints what comes of it.
-/

namespace SourceGen

/-- The name and version of the program. -/
def versionLine : String :=
  "polyemit 0.1.0-alpha.1"

/-- How to call the program. -/
def usageText : String :=
  "Lower a JSON-serialized AST into C# or Rust source\n\n" ++
    "Usage: polyemit emit [-t <TARGET>] [--kind exe|lib] [--format] [--shims] [-o <FILE>] " ++
    "<AST.json>...\n       polyemit targets"

/-- What the operating system says about a failed access. Its codes come with either sign. -/
def accessReason (e : IO.Error) : String :=
  let hasCode (given code : UInt32) : Bool := given == code || given == 0 - code
  match e with
  | .noFileOrDirectory _ _ _ => AccessError.message .notFound
  | .permissionDenied _ _ _ => AccessError.message .permissionDenied
  | .inappropriateType _ given _ =>
    AccessError.message (if hasCode given 21 then .isDirectory else .notDirectory)
  | .invalidArgument _ given _ =>
    if hasCode given 36 then AccessError.message .nameTooLong else toString e
  | _ => toString e

/-- Reads a file. -/
def readInput (path : String) : IO Reading := do
  try
    return (path, .ok (← IO.FS.readFile path))
  catch e =>
    return (path, .error (accessReason e))

/-- Runs the `emit` command. -/
def runEmit (r : EmitRequest) : IO Report := do
  let e := r.emission (← r.inputs.mapM readInput)
  match e.source, r.output with
  | .ok source, some path =>
    try
      IO.FS.writeFile path source
      return e.written
    catch cause =>
      return e.unwritten path (accessReason cause)
  | _, _ => return e.printed

/-- The texts that a failure adds to its message. -/
def CommandError.details : CommandError → List String
  | generation failure => [failure.code, "help: " ++ failure.help]
  | _ => []

/-- Prints a report and gives its exit code. -/
def finishWith (r : Report) : IO UInt32 := do
  IO.print r.stdout
  IO.eprint r.stderr
  if let some failure := r.failure then
    IO.eprintln failure.message
    failure.details.forM fun line => IO.eprintln line
  return UInt32.ofNat r.exitCode

/-- Runs a call. -/
def runCall (args : List String) : IO UInt32 := do
  match Command.parse args with
  | .ok (.emit r) => finishWith (← runEmit r)
  | .ok .targets => finishWith Command.targetList
  | .error refusal =>
    match refusal with
    | .version => IO.println versionLine
    | .help => IO.println usageText
    | .usage => IO.eprintln usageText
    return UInt32.ofNat refusal.exitCode

end SourceGen

def main (args : List String) : IO UInt32 :=
  SourceGen.runCall args
