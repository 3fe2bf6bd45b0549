import SourceGen.Text.Blank
import SourceGen.Toolchain.Request

/-!
# Compiler programs

Builds a unit with a compiler that is a program of its own. The sources are written into a fresh
directory, the compiler is started on the root, and the artifact is read back or run.

## Main definitions

* `Machine`: how programs behave when they are started.
* `Machine.launch`: starts a program with arguments.
* `Compiler`: the compiler program and the language edition it is asked for.
* `Compiler.arguments`: the arguments for a request.
* `Compiler.compile`, `Compiler.run`: the artifact, or what it does.
-/

namespace SourceGen

/-- How programs behave on a machine. -/
structure Machine where
  /-- Where a build has its directory. -/
  scratch : Place
  /-- Starts a program with arguments in a directory. -/
  start : String → List String → Directory → Except AccessError (Execution × Directory)
  /-- Starts a file with the given content. -/
  execute : String → Except AccessError Execution

namespace Machine

/-- The greatest length of an argument in bytes. -/
def maxArgumentLength : Nat :=
  131071

/-- Starts a program, unless its arguments cannot be handed over. A NUL byte is noticed before the
program is looked up, an argument that is too long after that. -/
def launch (m : Machine) (program : String) (args : List String) (d : Directory) :
    Except AccessError (Execution × Directory) := do
  if (program :: args).any (Text.hasChar '\x00') then
    throw .nulInArgument
  let result ← m.start program args d
  if args.any (maxArgumentLength < ·.utf8ByteSize) then
    throw .argumentTooLong
  return result

end Machine

/-- A compiler program for Rust units. -/
structure Compiler where
  program : String := "rustc"
  edition : String := "2021"
  deriving DecidableEq, Repr

namespace Compiler

/-- The name in error messages, whatever the program is called. -/
def name : String :=
  "rustc"

/-- The file name of the artifact. -/
def artifactName (request : CompileRequest) : String :=
  if request.isExecutable then "unit" else "libunit.rlib"

/-- The arguments that build a request with the given root inside a directory. -/
def arguments (c : Compiler) (d : Directory) (request : CompileRequest) (root : SourceFile) :
    List String :=
  ["--edition", c.edition, "--crate-type", if request.isExecutable then "bin" else "lib",
    "--crate-name", "unit", "-o", d.pathTo (artifactName request)] ++
    request.searchPaths.flatMap (["-L", ·]) ++ [d.pathTo root.name]

/-- The program starts and ends well when asked for its version. -/
def isAvailable (c : Compiler) (m : Machine) : Bool :=
  match m.launch c.program ["--version"] {} with
  | .ok (execution, _) => execution.succeeded
  | .error _ => false

/-- Writes source files one after the other. -/
def writeSources (d : Directory) (sources : List SourceFile) : Except AccessError Directory :=
  sources.foldlM (fun d s => d.write (d.pathTo s.name) s.text) d

/-- The lines of a compiler's messages that are not blank. -/
def warnings (stderr : String) : List String :=
  (Text.lines stderr).filter (!Text.isBlankText ·)

/-- The directory after a build, and its warnings. -/
def build (c : Compiler) (m : Machine) (request : CompileRequest) :
    Except ToolchainError (Directory × List String) := do
  let root :: _ := request.sources | throw .noSources
  let d ← (writeSources { home := m.scratch } request.sources).mapError .io
  let (execution, d) ←
    match m.launch c.program (c.arguments d request root) d with
    | .ok result => pure result
    | .error .notFound => throw (.notFound c.program)
    | .error e => throw (.io e)
  if execution.succeeded then
    return (d, warnings execution.stderr)
  else
    throw (.compileFailed name execution.stderr)

/-- The artifact of a request. -/
def compile (c : Compiler) (m : Machine) (request : CompileRequest) :
    Except ToolchainError CompileOutput := do
  let (d, diagnostics) ← c.build m request
  let artifact ← (d.read (d.pathTo (artifactName request))).mapError .io
  return ⟨artifact, diagnostics⟩

/-- Builds a request and runs the artifact. -/
def run (c : Compiler) (m : Machine) (request : CompileRequest) :
    Except ToolchainError Execution := do
  -- A library is refused before it is built.
  unless request.isExecutable do
    throw (.execution "a library has no entry point to run")
  let (d, _) ← c.build m request
  let artifact ← (d.read (d.pathTo (artifactName request))).mapError .io
  (m.execute artifact).mapError .io

/-- The compiler as a toolchain on a machine. -/
def toolchain (c : Compiler) (m : Machine) : Toolchain :=
  ⟨name, c.compile m⟩

end Compiler

end SourceGen
