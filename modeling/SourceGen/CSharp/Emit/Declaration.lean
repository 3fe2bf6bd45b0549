import SourceGen.CSharp.Declaration
import SourceGen.CSharp.Emit.Body

/-!
# Emitting C# declarations

Namespaces, types, modules and their members in C#, written by an emitter: the block of a
declaration is opened, what stands in it is written, and the block is closed again.

## Main definitions

* `CSharp.emitMember`, `CSharp.emitMembers`: writes members.
-/

namespace SourceGen

namespace CSharp

/-- Writes the variants of an enum. -/
def emitVariants (env : Env) (scope : Scope) : List EnumVariant → Emit Unit
  | [] => return
  | ⟨name, value⟩ :: variants => do
    let rendered ← emitExprOption env scope value
    Emit.line (ident name ++ rendered.elim "" (" = " ++ ·) ++ ",")
    emitVariants env scope variants

/-- Writes an enum. -/
def emitEnum (env : Env) (scope : Scope) (d : EnumDecl) : Emit Unit := do
  if ← target.skipMarked "enum" d.name d.attributes then
    return
  Emit.separator
  emitAttributes env scope d.attributes
  Emit.openBlock (modifierText d.modifiers .publicAccess false scope ++ "enum " ++ ident d.name)
  emitVariants env scope d.variants
  Emit.closeBlock ""

/-- Writes a field; in a static scope it is static unless it is a constant. -/
def emitField (env : Env) (scope : Scope) (d : Field) : Emit Unit := do
  if ← target.skipMarked "field" d.name d.attributes then
    return
  emitAttributes env scope d.attributes
  let makeStatic := scope.inStatic && !d.modifiers.contains .const
  let words := modifierText d.modifiers .privateAccess makeStatic scope
  let spelling ← mapTypeOr env scope untyped d.type
  let value ← emitExprOption env scope d.initializer
  Emit.line (words ++ spelling ++ " " ++ ident d.name ++ value.elim "" (" = " ++ ·) ++ ";")

/-- Writes the accessors of a property, at least one with a body. -/
def emitAccessors (env : Env) (scope : Scope) : List Accessor → Emit Unit
  | [] => return
  | a :: accessors => do
    match a.body with
    | some body => do
      Emit.openBlock (accessorHead a)
      emitStmts env scope body
      Emit.closeBlock ""
    | none => Emit.line (accessorHead a ++ ";")
    emitAccessors env scope accessors

/-- Writes a property, on one line if no accessor has a body. -/
def emitProperty (env : Env) (scope : Scope) (d : Property) : Emit Unit := do
  if ← target.skipMarked "property" d.name d.attributes then
    return
  emitAttributes env scope d.attributes
  let words := modifierText d.modifiers .privateAccess scope.inStatic scope
  let spelling ← mapTypeOr env scope untyped d.type
  let head := words ++ spelling ++ " " ++ ident d.name
  if d.isAuto then
    let value ← emitExprOption env scope d.initializer
    Emit.line (head ++ " \x7b " ++ autoAccessors d.accessors ++ " \x7d" ++
      value.elim "" (" = " ++ · ++ ";"))
  else
    Emit.separator
    Emit.openBlock head
    emitAccessors env scope d.accessors
    Emit.closeBlock ""

/-- Reports and refuses a statement that cannot stand among members. -/
def emitMemberRefusal (scope : Scope) (s : Stmt) : Emit Unit :=
  Gen.report ((Diagnostic.warning (s.kindName ++ " is not allowed here; skipped")).withContext
    (scope.className.getD target.id))

mutual

/-- Writes a member. -/
def emitMember (env : Env) (scope : Scope) (host : Host) : Stmt → Emit Unit
  | .namespaceDecl name decls =>
    if host = .space then do
      Emit.openBlock ("namespace " ++ name)
      emitSeparated env decls
      Emit.closeBlock ""
    else Gen.fail (typeInType scope name)
  | .typeDecl kind ⟨name, modifiers, attributes, generics, base, interfaces, decls⟩ =>
    if host = .type then Gen.fail (typeInType scope name)
    else do
      if ← target.skipMarked (typeKeyword kind) name attributes then
        return
      Emit.separator
      emitAttributes env scope attributes
      let inner : Scope :=
        { Scope.ofType name generics with
          inStatic := modifiers.contains .static
          inInterface := kind = .interface }
      let head ← typeHead env scope inner kind name modifiers generics base interfaces
      Emit.openBlock head
      emitMembers env inner .type decls
      Emit.closeBlock ""
  | .enumDecl decl =>
    if host = .type then Gen.fail (typeInType scope decl.name) else emitEnum env scope decl
  | .moduleDecl ⟨name, modifiers, attributes, decls⟩ =>
    if host = .type then Gen.fail (typeInType scope name)
    else do
      if ← target.skipMarked "module" name attributes then
        return
      Emit.separator
      emitAttributes env scope attributes
      let inner : Scope := { Scope.ofType name [] with inStatic := true }
      Emit.openBlock (modifierText modifiers .publicAccess true scope ++ "class " ++ ident name)
      emitMembers env inner .module decls
      Emit.closeBlock ""
  | .functionDecl kind decl =>
    if host = .space then Gen.fail (outsideType (.functionDecl kind decl) decl.name)
    else do
      Emit.separator
      emitFunction env scope {} (fun _ => return) decl
  | .fieldDecl decl =>
    if host = .space then Gen.fail (outsideType (.fieldDecl decl) decl.name)
    else emitField env scope decl
  | .propertyDecl decl =>
    if host = .space then Gen.fail (outsideType (.propertyDecl decl) decl.name)
    else emitProperty env scope decl
  | .importDecl decl =>
    if host = .space then Emit.line (usingLine decl)
    else emitMemberRefusal scope (.importDecl decl)
  | .includeDecl _ decls => emitMembers env scope host decls
  | .raw block => target.emitRaw block
  | s => emitMemberRefusal scope s

/-- Writes members, one after the other. -/
def emitMembers (env : Env) (scope : Scope) (host : Host) : List Stmt → Emit Unit
  | [] => return
  | s :: ss => do
    emitMember env scope host s
    emitMembers env scope host ss

/-- Writes the members of a namespace, with separators in front of them. -/
def emitSeparated (env : Env) : List Stmt → Emit Unit
  | [] => return
  | s :: ss => do
    Emit.separator
    emitMember env {} .space s
    emitSeparated env ss

end

end CSharp

end SourceGen
