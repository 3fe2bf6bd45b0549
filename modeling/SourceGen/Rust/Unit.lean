import SourceGen.Compose.Include
import SourceGen.Compose.NestedType
import SourceGen.Compose.Sections
import SourceGen.Formatter
import SourceGen.Generated
import SourceGen.Layout.Render
import SourceGen.Rust.Declaration

/-!
# Rust units

The layout of a whole Rust unit. The entry function becomes `main` and runs loose statements first;
if it returns a value, `main` exits with that value. The lines at the top are written last, when
everything the code needs is known, and the text of the unit is formatted if the settings ask for
it.

## Main definitions

* `Rust.unitCode`: the code of a unit, and whether it has an entry point.
* `Rust.header`: the lines at the top.
* `Rust.compose`: the unit as it is written.
* `Rust.generate`: the finished unit.
-/

namespace SourceGen

namespace Rust

open Fragment (text)

/-- The attribute that silences lints which generated code trips. -/
def lintAttribute : String :=
  "#![allow(unused_imports, unused_variables, unused_mut, dead_code, non_snake_case, " ++
    "unreachable_code, unused_parens, non_camel_case_types)]"

/-- The functions of a unit but the entry function, the first one with the entry name. -/
def plainFunctions (env : Env) (entrySeen : Bool) : List Function → Gen (List Code)
  | [] => return []
  | f :: fs => do
    if !entrySeen && f.name == env.config.entryName then
      plainFunctions env true fs
    else
      let options : FunctionOptions := { visibility := visibility f.modifiers true }
      let code ← function env {} options (fun _ => return []) f
      return .separator :: code ++ (← plainFunctions env entrySeen fs)

/-- The entry point that exits with the result of the entry function. -/
def exitMain : List Code :=
  [.blank,
    .block .function (text ("fn " ++ entryName ++ "()"))
      [.text ("std::process::exit(" ++ valueEntryName ++ "() as i32);")] ""]

/-- The declared entry function with loose statements in front of its body, and whether it was
written. -/
def entryCode (env : Env) (f : Function) (loose : List Stmt) : Gen (List Code × Bool) := do
  if f.marker.isSome then
    let code ← function env {} {} (fun _ => return []) f
    return (code, false)
  if !loose.isEmpty then
    Gen.report ((Diagnostic.info (toString loose.length ++ " top-level statement(s) moved into `" ++
      f.name ++ "`")).withContext target.id)
  -- The declared type decides, even if the body disagrees with it.
  let declared ← f.returnType.mapM (mapType env.known {})
  let returnsValue :=
    match declared with
    | some type => type != unitType
    | none => f.body.any Stmt.anyReturnsValue || Stmt.anyReturnsValue loose
  let options : FunctionOptions :=
    if returnsValue then
      { name := some valueEntryName, returns := some (declared.getD exitType), visibility := "" }
    else
      { name := some entryName, returns := some unitType, visibility := "" }
  let code ← function env {} options (fun inner => stmts env inner loose) f
  return (.separator :: code ++ (if returnsValue then exitMain else []), true)

/-- The entry point made of loose statements alone. -/
def looseMain (env : Env) (loose : List Stmt) : Gen (List Code) := do
  let body ← stmts env {} loose
  if Stmt.anyReturnsValue loose then
    return [.separator,
      .block .function (text ("fn " ++ valueEntryName ++ "() -> " ++ exitType)) body ""] ++
      exitMain
  else
    return [.separator, .block .function (text ("fn " ++ entryName ++ "()")) body ""]

/-- The code of a unit without the lines at its top, and whether it has an entry point. -/
def unitCode (env : Env) (sections : Sections) : Gen (List Code × Bool) := do
  -- Only the first misplaced member is named.
  if let s :: _ := sections.members then
    match s with
    | .fieldDecl decl => Gen.fail (outsideType s decl.name)
    | .propertyDecl decl => Gen.fail (outsideType s decl.name)
    | _ => pure ()
  let raws ← target.separatedRawCodes sections.raw
  let containers ← items env {} .space sections.containers
  let functions ← plainFunctions env false sections.functions
  let (entry, hasEntry) ←
    match sections.entry? env.config.entryName with
    | some f => entryCode env f sections.loose
    | none =>
      if sections.loose.isEmpty then pure ([], false)
      else do
        let code ← looseMain env sections.loose
        pure (code, true)
  if !hasEntry && env.config.isExecutable then
    Gen.fail (.missingEntryPoint target.id env.config.entryName)
  return (raws ++ containers ++ functions ++ entry, hasEntry)

/-- What an import at the top of the unit adds to its imports. -/
def importText (d : Import) : String :=
  match d.localName with
  | some name => Text.join "::" d.path ++ " as " ++ name
  | none => Text.join "::" d.path

/-- The parts of the top, with blank lines between them. -/
def headerText (lints : Bool) (imports aliases : List String) : String :=
  let uses := String.join (imports.map fun path => "use " ++ path ++ ";\n")
  let gap := if aliases.isEmpty || imports.isEmpty then "" else "\n"
  let rest := uses ++ gap ++ String.join (aliases.map (· ++ "\n"))
  if lints then lintAttribute ++ "\n" ++ (if rest.isEmpty then "" else "\n" ++ rest) else rest

/-- The lines at the top: the lint attribute, sorted imports, then type aliases. -/
def header (env : Env) (sections : Sections) : Gen String := do
  for d in sections.imports do
    Gen.requireImport (importText d)
  let aliases ← sections.aliases.mapM (aliasLine env {})
  return headerText env.config.allowLints (← get).imports aliases

/-- How Rust is laid out: an opening brace stands behind its header. -/
def layoutStyle (config : Config) : LayoutStyle :=
  ⟨config.indentWidth, .sameLine⟩

/-- The unit of a program as it is written. -/
def compose (config : Config) (program : Program) : Gen Generated := do
  let stmts := Stmt.flattenAll program.stmts
  if let some (outer, inner) := Stmt.findNestedType? stmts then
    Gen.fail (.nestedType outer inner)
  let env : Env := ⟨config, KnownTypes.collect stmts, collectTraits stmts⟩
  let sections := Sections.of stmts
  let (code, hasEntry) ← unitCode env sections
  let body := Code.render (layoutStyle config) code
  let top ← header env sections
  let imports := (← get).imports
  let source := if top.isEmpty then body else top ++ "\n" ++ body
  return ⟨source, imports, if hasEntry then some entryName else none⟩

/-- The warning about a text that the formatter cannot read. -/
def formattingSkipped (reason : String) : Diagnostic :=
  ((Diagnostic.warning ("formatting skipped: " ++ reason)).withContext target.id).withNote
    "the generated text is returned as-is"

/-- The unit with its text formatted, if the settings ask for it; a text that the formatter cannot
read is reported and stays as it is. -/
def formatted (formatter : Formatter) (config : Config) (g : Generated) : Gen Generated :=
  if config.formatOutput then
    match formatter.reprint g.source with
    | .ok source => return { g with source }
    | .error reason => do
      Gen.report (formattingSkipped reason)
      return g
  else return g

/-- The finished unit of a program. -/
def generate (formatter : Formatter) (config : Config) (program : Program) : Gen Generated := do
  formatted formatter config (← compose config program)

end Rust

end SourceGen
