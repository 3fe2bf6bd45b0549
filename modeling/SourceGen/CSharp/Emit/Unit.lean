import SourceGen.CSharp.Emit.Declaration
import SourceGen.CSharp.Unit

/-!
# Emitting C# units

A whole C# unit, written by an emitter from the first raw block to the end of the implicit
namespace. Only the directives at the top are put in front afterwards.

## Main definitions

* `CSharp.emitUnitCode`: writes a unit without its directives.
* `CSharp.emitUnit`: the finished unit.
-/

namespace SourceGen

namespace CSharp

/-- Writes the functions of the implicit class, and tells whether the entry point was among
them. -/
def emitImplicitFunctions (env : Env) (loose : List Stmt) (entrySeen : Bool) :
    List Function → Emit Bool
  | [] => return false
  | f :: fs => do
    let scope := implicitScope env.config
    Emit.separator
    if !entrySeen && f.name == env.config.entryName then
      if !loose.isEmpty then
        Gen.report ((Diagnostic.info (toString loose.length ++
          " top-level statement(s) moved into `" ++ f.name ++ "`")).withContext target.id)
      let returnsValue := f.body.any Stmt.anyReturnsValue || Stmt.anyReturnsValue loose
      let options : FunctionOptions :=
        { name := some entryName
          returns := if f.returnType.isNone && returnsValue then some "int" else none
          forceStatic := true }
      emitFunction env scope options (fun inner => emitStmts env inner loose) f
      let _ ← emitImplicitFunctions env loose true fs
      return f.marker.isNone
    else
      emitFunction env scope { forceStatic := true } (fun _ => return) f
      emitImplicitFunctions env loose entrySeen fs

/-- Writes the entry point made of loose statements alone. -/
def emitLooseEntry (env : Env) (loose : List Stmt) : Emit Unit := do
  let returns := if Stmt.anyReturnsValue loose then "int" else "void"
  Emit.separator
  Emit.openBlock ("public static " ++ returns ++ " " ++ entryName ++ "()")
  emitStmts env (implicitScope env.config) loose
  Emit.closeBlock ""

/-- Writes the implicit class with all loose code, and tells the entry point in it. -/
def emitImplicitContainer (env : Env) (sections : Sections) : Emit (Option String) := do
  let config := env.config
  Emit.openBlock ("namespace " ++ config.implicitNamespace)
  Emit.openBlock ("public class " ++ config.implicitClass)
  if config.emitShims then
    Gen.requireImport systemNamespace
    Emit.verbatim shims
  emitMembers env (implicitScope config) .module sections.members
  let written ← emitImplicitFunctions env sections.loose false sections.functions
  let synthesized := (sections.entry? config.entryName).isNone && !sections.loose.isEmpty
  if synthesized then
    emitLooseEntry env sections.loose
  Emit.closeBlock ""
  Emit.closeBlock ""
  let name := config.implicitNamespace ++ "." ++ config.implicitClass ++ "." ++ entryName
  return if written || synthesized then some name else none

/-- Writes a unit without its directives, and tells its entry point. -/
def emitUnitCode (env : Env) (stmts : List Stmt) (sections : Sections) : Emit (Option String) := do
  target.emitSeparatedRaws sections.raw
  emitSeparated env sections.containers
  let implicitEntry ←
    if sections.hasLooseCode then do
      Emit.separator
      emitImplicitContainer env sections
    else pure none
  let entry := implicitEntry <|> findStaticEntryPoint? "" stmts
  if entry.isNone && env.config.isExecutable then
    Gen.fail (.missingEntryPoint target.id env.config.entryName)
  return entry

/-- The finished unit of a program, written by an emitter that starts at the margin. -/
def emitUnit (config : Config) (resolver : TypeResolver) (program : Program) : Gen Generated := do
  let stmts := Stmt.flattenAll program.stmts
  if let some (outer, inner) := Stmt.findNestedType? stmts then
    Gen.fail (.nestedType outer inner)
  let env : Env := ⟨config, KnownTypes.collect stmts, resolver⟩
  let sections := Sections.of stmts
  let (entry, last) ← emitUnitCode env stmts sections { out := (layoutStyle config).buffer 0 }
  let body := last.out.finish
  let top ← header env sections
  let imports := (← get).imports
  return ⟨if top.isEmpty then body else top ++ "\n" ++ body, imports, entry⟩

end CSharp

end SourceGen
