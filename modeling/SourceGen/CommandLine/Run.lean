import SourceGen.CommandLine.Args
import SourceGen.Directory
import SourceGen.Registry
import SourceGen.Tree.Parse

/-!
# Commands

What the commands do. Reading and writing files is left to the caller, who hands in what was read;
`Command.runIn` does both in a directory that is a value.

## Main definitions

* `CommandError`: why a command fails.
* `EmitRequest.emission`: the unit of some tree files.
* `Command.runIn`: a whole command.
-/

namespace SourceGen

/-- Why a command fails. -/
inductive CommandError where
  | reading (path reason : String)
  | parsing (path : String)
  | writing (path reason : String)
  | generation (failure : Failure)
  deriving DecidableEq, Repr

/-- What went wrong. -/
def CommandError.message : CommandError → String
  | reading path reason => "Error reading " ++ path ++ ": " ++ reason
  | parsing path => "Error parsing " ++ path
  | writing path reason => "Error writing " ++ path ++ ": " ++ reason
  | generation failure => failure.message

/-- What a command printed, and whether it failed. -/
structure Report where
  stdout : String := ""
  stderr : String := ""
  /-- An error was reported about the unit. -/
  foundErrors : Bool := false
  failure : Option CommandError := none
  deriving DecidableEq, Repr

/-- One for a failure or a reported error, else zero. -/
def Report.exitCode (r : Report) : Nat :=
  if r.failure.isSome || r.foundErrors then 1 else 0

/-- What was made of some tree files: the text of the unit, and what was reported about it. -/
structure Emission where
  source : Except CommandError String
  diagnostics : List Diagnostic := []

namespace Emission

/-- The report of a unit that is printed. -/
def printed (e : Emission) : Report :=
  let stderr := String.join (e.diagnostics.map Diagnostic.printed)
  match e.source with
  | .ok source => { stdout := source, stderr, foundErrors := Diagnostic.hasErrors e.diagnostics }
  | .error failure => { stderr, failure := some failure }

/-- The report of a unit that went into a file. -/
def written (e : Emission) : Report :=
  { e.printed with stdout := "" }

/-- The report of a unit that should have gone into a file. -/
def unwritten (e : Emission) (path reason : String) : Report :=
  { e.written with failure := some (.writing path reason) }

end Emission

/-- The content of a path, or why there is none. -/
abbrev Reading := String × Except String String

/-- The program in a tree file. -/
def Reading.program (r : Reading) : Except CommandError Program :=
  match r.2 with
  | .ok text =>
    match Program.parse text with
    | some program => .ok program
    | none => .error (.parsing r.1)
  | .error reason => .error (.reading r.1 reason)

namespace EmitRequest

/-- The settings of the generator. -/
def config (r : EmitRequest) : Config :=
  { outputKind := r.kind, formatOutput := r.format, emitShims := r.shims }

/-- One program is generated as it is, several are merged. -/
def outcome (backend : Backend) : List Program → Outcome
  | [program] => backend.generate program
  | programs => backend.generateCombined programs

/-- The unit of some tree files. The files are read before the target is looked up. -/
def emission (r : EmitRequest) (readings : List Reading) : Emission :=
  match readings.mapM Reading.program with
  | .error failure => { source := .error failure }
  | .ok programs =>
    match Registry.defaults.create r.target r.config with
    | .error failure => { source := .error (.generation failure) }
    | .ok backend =>
      let result := outcome backend programs
      { source :=
          match result.result with
          | .ok unit => .ok unit.source
          | .error failure => .error (.generation failure)
        diagnostics := result.diagnostics }

end EmitRequest

/-- A target with its other names, on a line. -/
def TargetName.line (t : TargetName) : String :=
  (if t.aliases.isEmpty then t.id else t.id ++ " (" ++ Text.join ", " t.aliases ++ ")") ++ "\n"

namespace Command

/-- The list of targets. -/
def targetList : Report :=
  { stdout := String.join (Registry.defaults.targets.map TargetName.line) }

/-- Runs a command in a directory. -/
def runIn (d : Directory) : Command → Report × Directory
  | targets => (targetList, d)
  | emit r =>
    let e := r.emission (r.inputs.map fun path => (path, (d.read path).mapError (·.message)))
    match e.source, r.output with
    | .ok source, some path =>
      match d.write path source with
      | .ok d => (e.written, d)
      | .error cause => (e.unwritten path cause.message, d)
    | _, _ => (e.printed, d)

end Command

end SourceGen
