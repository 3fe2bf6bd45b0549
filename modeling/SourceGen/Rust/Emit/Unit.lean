import SourceGen.Rust.Emit.Declaration
import SourceGen.Rust.Unit

/-!
# Emitting Rust units

A whole Rust unit, written by an emitter from the first raw block to the end of `main`. Only the
lines at the top are put in front afterwards.

## Main definitions

* `Rust.emitUnitCode`: writes a unit without the lines at its top.
* `Rust.emitUnit`: the unit as it is written, ahead of the formatter.
-/

namespace SourceGen

namespace Rust

/-- Writes the functions of a unit but the entry function. -/
def emitPlainFunctions (env : Env) (entrySeen : Bool) : List Function → Emit Unit
  | [] => return
  | f :: fs => do
    if !entrySeen && f.name == env.config.entryName then
      emitPlainFunctions env true fs
    else
      let options : FunctionOptions := { visibility := visibility f.modifiers true }
      Emit.separator
      emitFunction env {} options (fun _ => return) f
      emitPlainFunctions env entrySeen fs

/-- Writes the entry point that exits with the result of the entry function. -/
def emitExitMain : Emit Unit := do
  Emit.blankLine
  Emit.openBlock ("fn " ++ entryName ++ "()")
  Emit.line ("std::process::exit(" ++ valueEntryName ++ "() as i32);")
  Emit.closeBlock ""

/-- Writes the declared entry function with loose statements in front of its body, and tells whether
it was written. -/
def emitEntry (env : Env) (f : Function) (loose : List Stmt) : Emit Bool := do
  if f.marker.isSome then
    emitFunction env {} {} (fun _ => return) f
    return false
  if !loose.isEmpty then
    Gen.report ((Diagnostic.info (toString loose.length ++ " top-level statement(s) moved into `" ++
      f.name ++ "`")).withContext target.id)
  let declared ← (f.returnType.mapM (mapType env.known {}) : Gen (Option String))
  let returnsValue :=
    match declared with
    | some type => type != unitType
    | none => f.body.any Stmt.anyReturnsValue || Stmt.anyReturnsValue loose
  let options : FunctionOptions :=
    if returnsValue then
      { name := some valueEntryName, returns := some (declared.getD exitType), visibility := "" }
    else
      { name := some entryName, returns := some unitType, visibility := "" }
  Emit.separator
  emitFunction env {} options (fun inner => emitStmts env inner loose) f
  if returnsValue then
    emitExitMain
  return true

/-- Writes the entry point made of loose statements alone. -/
def emitLooseMain (env : Env) (loose : List Stmt) : Emit Unit := do
  Emit.separator
  if Stmt.anyReturnsValue loose then
    Emit.openBlock ("fn " ++ valueEntryName ++ "() -> " ++ exitType)
    emitStmts env {} loose
    Emit.closeBlock ""
    emitExitMain
  else
    Emit.openBlock ("fn " ++ entryName ++ "()")
    emitStmts env {} loose
    Emit.closeBlock ""

/-- Writes a unit without the lines at its top, and tells whether it has an entry point. -/
def emitUnitCode (env : Env) (sections : Sections) : Emit Bool := do
  if let s :: _ := sections.members then
    match s with
    | .fieldDecl decl => Gen.fail (outsideType s decl.name)
    | .propertyDecl decl => Gen.fail (outsideType s decl.name)
    | _ => pure ()
  target.emitSeparatedRaws sections.raw
  emitItems env {} .space sections.containers
  emitPlainFunctions env false sections.functions
  let hasEntry ←
    match sections.entry? env.config.entryName with
    | some f => emitEntry env f sections.loose
    | none =>
      if sections.loose.isEmpty then pure false
      else do
        emitLooseMain env sections.loose
        pure true
  if !hasEntry && env.config.isExecutable then
    Gen.fail (.missingEntryPoint target.id env.config.entryName)
  return hasEntry

/-- The unit of a program as it is written, by an emitter that starts at the margin. -/
def emitUnit (config : Config) (program : Program) : Gen Generated := do
  let stmts := Stmt.flattenAll program.stmts
  if let some (outer, inner) := Stmt.findNestedType? stmts then
    Gen.fail (.nestedType outer inner)
  let env : Env := ⟨config, KnownTypes.collect stmts, collectTraits stmts⟩
  let sections := Sections.of stmts
  let (hasEntry, last) ← emitUnitCode env sections { out := (layoutStyle config).buffer 0 }
  let body := last.out.finish
  let top ← header env sections
  let imports := (← get).imports
  let source := if top.isEmpty then body else top ++ "\n" ++ body
  return ⟨source, imports, if hasEntry then some entryName else none⟩

end Rust

end SourceGen
