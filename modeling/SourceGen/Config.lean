/-!
# Configuration

The settings that every target shares.
-/

namespace SourceGen

/-- What the generated unit is compiled into; an executable needs an entry point. -/
inductive OutputKind where
  | executable | library
  deriving DecidableEq, Repr

/-- Settings of a generator. -/
structure Config where
  outputKind : OutputKind := .executable
  /-- Source name of the entry function. -/
  entryName : String := "main"
  /-- Namespace put around loose code. -/
  implicitNamespace : String := "Program"
  /-- Class put around loose code. -/
  implicitClass : String := "Program"
  /-- Write helper definitions for builtins instead of renaming the calls. -/
  emitShims : Bool := false
  /-- Spaces per level of indentation. -/
  indentWidth : Nat := 4
  /-- Ask for the output to be formatted. -/
  formatOutput : Bool := false
  /-- Start with an attribute that silences the lints generated code trips. -/
  allowLints : Bool := true
  deriving DecidableEq, Repr

/-- The unit needs an entry point. -/
def Config.isExecutable (config : Config) : Bool :=
  config.outputKind == .executable

end SourceGen
