import SourceGen.Config
import SourceGen.Directory

/-!
# Compile requests

What a toolchain is asked to build, what it answers, and what can go wrong.

## Main definitions

* `CompileRequest`: source files with what is built from them.
* `CompileRequest.fingerprint`: what a cache tells requests apart by.
* `Toolchain`: a named way to answer requests.
* `ToolchainError`: why there is no artifact.
-/

namespace SourceGen

/-- A source file of a build. -/
structure SourceFile where
  /-- The name relative to the build directory. -/
  name : String
  text : String
  deriving DecidableEq, Repr

/-- Everything that is needed to build one artifact. -/
structure CompileRequest where
  /-- The sources; the first is the root of the unit. -/
  sources : List SourceFile
  outputKind : OutputKind := .executable
  entryPoint : Option String := none
  /-- Directories with further libraries. -/
  searchPaths : List String := []
  deriving DecidableEq, Repr

/-- The names along a path. Empty segments and dots do nothing, except for a dot at the very start,
and a leading slash is no name. -/
def pathNames (path : String) : List String :=
  match Text.splitOn '/' path with
  | "." :: segments => "." :: segments.filter (!Directory.isIdle ·)
  | segments => segments.filter (!Directory.isIdle ·)

/-- What is remembered of a request: all of it, but search paths only by their names. -/
structure Fingerprint where
  sources : List SourceFile
  outputKind : OutputKind
  entryPoint : Option String
  searchPaths : List (List String)
  deriving DecidableEq, Repr

/-- The fingerprint of a request. -/
def CompileRequest.fingerprint (r : CompileRequest) : Fingerprint :=
  ⟨r.sources, r.outputKind, r.entryPoint, r.searchPaths.map pathNames⟩

/-- The unit of a request is run as a program. -/
def CompileRequest.isExecutable (r : CompileRequest) : Bool :=
  r.outputKind == .executable

/-- A successful compilation. -/
structure CompileOutput where
  artifact : String
  /-- The warnings, one per line that is not blank. -/
  diagnostics : List String := []
  deriving DecidableEq, Repr

/-- What a finished program printed, and its exit code. -/
structure Execution where
  stdout : String := ""
  stderr : String := ""
  exitCode : Option Int := some 0
  deriving DecidableEq, Repr

/-- The program ended well. -/
def Execution.succeeded (e : Execution) : Bool :=
  e.exitCode == some 0

/-- Why a toolchain has no answer. -/
inductive ToolchainError where
  | io (cause : AccessError)
  | notFound (program : String)
  | compileFailed (toolchain stderr : String)
  | noSources
  | execution (reason : String)
  deriving DecidableEq, Repr

/-- What went wrong. -/
def ToolchainError.message : ToolchainError → String
  | io cause => "toolchain I/O failed: " ++ cause.message
  | notFound program => "`" ++ program ++ "` was not found on PATH"
  | compileFailed toolchain stderr => toolchain ++ " failed to compile the unit:\n" ++ stderr
  | noSources => "compile request has no sources"
  | execution reason => "cannot execute the build: " ++ reason

/-- A named way to answer compile requests. -/
structure Toolchain where
  name : String
  compile : CompileRequest → Except ToolchainError CompileOutput

end SourceGen
