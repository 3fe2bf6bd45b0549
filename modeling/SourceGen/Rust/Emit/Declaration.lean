import SourceGen.Rust.Declaration
import SourceGen.Rust.Emit.Struct

/-!
# Emitting Rust items

Namespaces, modules, traits, enums and the other items of a Rust unit, written by an emitter.

## Main definitions

* `Rust.emitItem`, `Rust.emitItems`: writes items.
-/

namespace SourceGen

namespace Rust

/-- Writes the members of a trait. -/
def emitTraitMembers (env : Env) (place : Place) (owner : String) : List Stmt → Emit Unit
  | [] => return
  | s :: ss => do
    if ← memberMarked s then
      emitTraitMembers env place owner ss
    else
      match s with
      | .functionDecl _ f =>
        let options : FunctionOptions :=
          { visibility := "", receiver := agreedReceiver env owner f, requireBody := false }
        Emit.separator
        emitFunction env place options (fun _ => return) f
        emitTraitMembers env place owner ss
      | .propertyDecl p =>
        let type ← typeOr env place.toScope p.name p.type none
        Emit.line ("fn " ++ ident p.name ++ "(&self) -> " ++ type ++ ";")
        Emit.lineUnless (!p.accessors.any TraitShape.isSetter)
          ("fn set_" ++ p.name ++ "(&mut self, value: " ++ type ++ ");")
        emitTraitMembers env place owner ss
      | other =>
        Gen.report ((Diagnostic.warning
          (other.kindName ++ " is not allowed in a trait; skipped")).withContext owner)
        emitTraitMembers env place owner ss

/-- Writes an interface as a trait. -/
def emitTrait (env : Env) (d : TypeDecl) : Emit Unit := do
  if ← target.skipMarked "interface" d.name d.attributes then
    return
  let place : Place := { Place.ofType d.name d.generics with inInterface := true }
  Emit.separator
  emitAttributes env place d.attributes
  let supertraits ← mapTypes env.known place.toScope (d.base.toList ++ d.interfaces)
  let bounds ← genericParams env place.toScope d.generics
  let head := visibility d.modifiers true ++ "trait " ++ ident d.name ++ bounds ++
    if supertraits.isEmpty then "" else ": " ++ Text.join " + " supertraits
  Emit.openBlock head
  emitTraitMembers env place d.name d.members
  Emit.closeBlock ""

/-- Writes the variants of an enum. -/
def emitVariants (env : Env) : List EnumVariant → Emit Unit
  | [] => return
  | ⟨name, some value⟩ :: vs => do
    let shown ← emitExpr env {} .value value
    Emit.line (ident name ++ " = " ++ shown ++ ",")
    emitVariants env vs
  | ⟨name, none⟩ :: vs => do
    Emit.line (ident name ++ ",")
    emitVariants env vs

/-- Writes an enum. -/
def emitEnum (env : Env) (d : EnumDecl) : Emit Unit := do
  if ← target.skipMarked "enum" d.name d.attributes then
    return
  Emit.separator
  emitAttributes env {} d.attributes
  Emit.lineUnless (d.attributes.any (·.name == "derive"))
    "#[derive(Debug, Clone, Copy, PartialEq, Eq)]"
  Emit.openBlock (visibility d.modifiers true ++ "enum " ++ ident d.name)
  emitVariants env d.variants
  Emit.closeBlock ""

/-- Opens a module for each part of a dotted name, one in the other. -/
def openMods : List String → Emit Unit
  | [] => return
  | part :: parts => do
    Emit.openBlock ("pub mod " ++ ident part)
    Emit.line "use super::*;"
    openMods parts

/-- Closes as many modules as there are parts. -/
def closeMods : List String → Emit Unit
  | [] => return
  | _ :: parts => do
    closeMods parts
    Emit.closeBlock ""

mutual

/-- Writes an item. -/
def emitItem (env : Env) (place : Place) (host : Host) : Stmt → Emit Unit
  | .namespaceDecl name decls => do
    Emit.separator
    openMods (Text.splitOn '.' name)
    emitSeparatedItems env decls
    closeMods (Text.splitOn '.' name)
  | .typeDecl .interface decl => emitTrait env decl
  | .typeDecl _ decl => emitStruct env decl
  | .enumDecl decl => emitEnum env decl
  | .moduleDecl ⟨name, modifiers, attributes, decls⟩ => do
    if ← target.skipMarked "module" name attributes then
      return
    let inner : Place := { inStatic := true }
    Emit.separator
    emitAttributes env inner attributes
    Emit.openBlock (visibility modifiers true ++ "mod " ++ ident name)
    Emit.line "use super::*;"
    emitItems env inner .module decls
    Emit.closeBlock ""
  | .functionDecl _ decl => do
    let options : FunctionOptions := { visibility := visibility decl.modifiers true }
    Emit.separator
    emitFunction env place options (fun _ => return) decl
  | .fieldDecl decl =>
    if host = .module then do
      if ← target.skipMarked "field" decl.name decl.attributes then
        return
      emitConst env place decl
    else Gen.fail (outsideType (.fieldDecl decl) decl.name)
  | .propertyDecl decl => Gen.fail (outsideType (.propertyDecl decl) decl.name)
  | .importDecl decl => Emit.line (useLine decl)
  | .aliasDecl decl => do
    let shown ← aliasLine env place.toScope decl
    Emit.line shown
  | .includeDecl _ decls => emitItems env place host decls
  | .raw block => target.emitRaw block
  | s =>
    Gen.report ((Diagnostic.warning
      (s.kindName ++ " is not allowed at item level; skipped")).withContext target.id)

/-- Writes items, one after the other. -/
def emitItems (env : Env) (place : Place) (host : Host) : List Stmt → Emit Unit
  | [] => return
  | s :: ss => do
    emitItem env place host s
    emitItems env place host ss

/-- Writes the items of a namespace, with separators in front of them. -/
def emitSeparatedItems (env : Env) : List Stmt → Emit Unit
  | [] => return
  | s :: ss => do
    Emit.separator
    emitItem env {} .space s
    emitSeparatedItems env ss

end

end Rust

end SourceGen
