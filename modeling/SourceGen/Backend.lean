import SourceGen.Analysis.RawTarget
import SourceGen.CSharp.Unit
import SourceGen.Compose.Merge
import SourceGen.Rust.Unit

/-!
# Backends

A backend generates units of one target language under a configuration.

## Main definitions

* `Language`: the target languages.
* `Services`: what a backend uses from outside.
* `Backend`: a language with its settings.
* `Backend.generate`, `Backend.generateCombined`: one unit from one or several programs.
* `Backend.canGenerate`: no raw block is written for another target.
-/

namespace SourceGen

/-- A target language. -/
inductive Language where
  | csharp | rust
  deriving DecidableEq, Repr

/-- The names of a target language. -/
def Language.target : Language → TargetName
  | csharp => CSharp.target
  | rust => Rust.target

/-- What a generation answers: a unit or a failure, and what was reported. -/
structure Outcome where
  result : Except Failure Generated
  diagnostics : List Diagnostic

/-- What a backend uses from outside. -/
structure Services where
  /-- Where C# looks up types that the unit does not declare. -/
  resolver : TypeResolver := Resolver.dotnet
  /-- Formats the text of Rust units. -/
  formatter : Formatter := Formatter.absent

instance : Coe Resolver Services :=
  ⟨fun resolver => { resolver }⟩

/-- A target language with its settings. -/
structure Backend where
  language : Language
  config : Config := {}
  services : Services := {}

namespace Backend

/-- Where C# looks up types that the unit does not declare. -/
def resolver (b : Backend) : TypeResolver :=
  b.services.resolver

/-- Formats the text of Rust units. -/
def formatter (b : Backend) : Formatter :=
  b.services.formatter

/-- The text of a unit goes through the formatter. -/
def formats (b : Backend) : Bool :=
  b.language == .rust && b.config.formatOutput

/-- The names of the target. -/
def target (b : Backend) : TargetName :=
  b.language.target

/-- The backend with other settings. -/
def initialized (b : Backend) (config : Config) : Backend :=
  { b with config }

/-- The text is one of the names of the target. -/
def answersTo (b : Backend) (name : String) : Bool :=
  b.target.accepts name

/-- No raw block of the program is written for another target. -/
def canGenerate (b : Backend) (program : Program) : Bool :=
  (Stmt.allRawTargets program.stmts).all b.answersTo

/-- The text of a unit after the last step of its generation. -/
def finish (b : Backend) (text : String) : String :=
  b.formatter.finish b.formats text

/-- The generation of a program, with its journal. -/
def gen (b : Backend) (program : Program) : Gen Generated :=
  match b.language with
  | .csharp => CSharp.generate b.config b.resolver program
  | .rust => Rust.generate b.formatter b.config program

/-- The unit of a program. -/
def generate (b : Backend) (program : Program) : Outcome :=
  let (result, journal) := (b.gen program).run'
  ⟨result, journal.diagnostics⟩

/-- A unit is answered if the generation comes to it. -/
theorem exists_run_of_generate {b : Backend} {program : Program} {g : Generated}
    (h : (b.generate program).result = .ok g) :
    ∃ journal, (b.gen program).run' = (.ok g, journal) :=
  ⟨_, Prod.ext h rfl⟩

/-- One unit for several programs; what merging reports comes first. -/
def generateCombined (b : Backend) (programs : List Program) : Outcome :=
  let (merged, reported) := Program.merge programs
  let outcome := b.generate merged
  { outcome with diagnostics := reported ++ outcome.diagnostics }

end Backend

end SourceGen
