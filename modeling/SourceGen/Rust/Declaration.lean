import SourceGen.Rust.Struct
import SourceGen.Text.Lines

/-!
# Rust items

Namespaces, modules, traits, enums and the other items of a Rust unit. Namespaces and modules become
`mod` items, interfaces become traits.

## Main definitions

* `Rust.Host`: where an item stands.
* `Rust.item`, `Rust.items`: the code of items.
-/

namespace SourceGen

namespace Rust

open Fragment (text)

/-- Where an item stands. -/
inductive Host where
  /-- The unit itself or a namespace. -/
  | space
  /-- A module, whose fields become constants. -/
  | module
  deriving DecidableEq, Repr

/-- An import. -/
def useLine (d : Import) : String :=
  match d.localName with
  | some name => "use " ++ Text.join "::" d.path ++ " as " ++ name ++ ";"
  | none => "use " ++ Text.join "::" d.path ++ ";"

/-- A type alias. -/
def aliasLine (env : Env) (scope : Scope) (d : Alias) : Gen String := do
  let spelling ← mapType env.known scope d.target
  return "pub type " ++ d.name ++ genericArgs d.generics ++ " = " ++ spelling ++ ";"

/-- The members of a trait. -/
def traitMembers (env : Env) (place : Place) (owner : String) : List Stmt → Gen (List Code)
  | [] => return []
  | s :: ss => do
    if ← memberMarked s then
      traitMembers env place owner ss
    else
      match s with
      | .functionDecl _ f =>
        let options : FunctionOptions :=
          { visibility := "", receiver := agreedReceiver env owner f, requireBody := false }
        let code ← function env place options (fun _ => return []) f
        return .separator :: code ++ (← traitMembers env place owner ss)
      | .propertyDecl p =>
        let type ← typeOr env place.toScope p.name p.type none
        let getter : Code := .text ("fn " ++ ident p.name ++ "(&self) -> " ++ type ++ ";")
        let setter : List Code :=
          if p.accessors.any TraitShape.isSetter then
            [.text ("fn set_" ++ p.name ++ "(&mut self, value: " ++ type ++ ");")]
          else []
        return getter :: setter ++ (← traitMembers env place owner ss)
      | other =>
        Gen.report ((Diagnostic.warning
          (other.kindName ++ " is not allowed in a trait; skipped")).withContext owner)
        traitMembers env place owner ss

/-- An interface as a trait. -/
def traitCode (env : Env) (d : TypeDecl) : Gen (List Code) := do
  if ← target.skipMarked "interface" d.name d.attributes then
    return []
  let place : Place := { Place.ofType d.name d.generics with inInterface := true }
  let lines ← attributeLines env place d.attributes
  let supertraits ← mapTypes env.known place.toScope (d.base.toList ++ d.interfaces)
  let bounds ← genericParams env place.toScope d.generics
  let head := visibility d.modifiers true ++ "trait " ++ ident d.name ++ bounds ++
    if supertraits.isEmpty then "" else ": " ++ Text.join " + " supertraits
  let members ← traitMembers env place d.name d.members
  return .separator :: lines ++ [.block .plain (text head) members ""]

/-- The variants of an enum. -/
def variantLines (env : Env) : List EnumVariant → Gen (List Code)
  | [] => return []
  | v :: vs => do
    let line ←
      match v.value with
      | some value =>
        pure (text (ident v.name ++ " = ") ++ (← expr env {} .value value) ++ text ",")
      | none => pure (text (ident v.name ++ ","))
    return .line line :: (← variantLines env vs)

/-- An enum. -/
def enumCode (env : Env) (d : EnumDecl) : Gen (List Code) := do
  if ← target.skipMarked "enum" d.name d.attributes then
    return []
  let lines ← attributeLines env {} d.attributes
  let derived : List Code :=
    if d.attributes.any (·.name == "derive") then []
    else [.text "#[derive(Debug, Clone, Copy, PartialEq, Eq)]"]
  let variants ← variantLines env d.variants
  let head := visibility d.modifiers true ++ "enum " ++ ident d.name
  return .separator :: lines ++ derived ++ [.block .plain (text head) variants ""]

/-- Modules inside each other, one for each part of a dotted name. -/
def nestedMods (body : List Code) : List String → List Code
  | [] => body
  | part :: parts =>
    [.block .plain (text ("pub mod " ++ ident part))
      (.text "use super::*;" :: nestedMods body parts) ""]

/-- The failure for a field or property outside any type. -/
def outsideType (s : Stmt) (name : String) : Failure :=
  .misplacedMember target.id s.kindName name

mutual

/-- The code of an item. -/
def item (env : Env) (place : Place) (host : Host) : Stmt → Gen (List Code)
  | .namespaceDecl name decls => do
    let body ← separatedItems env decls
    return .separator :: nestedMods body (Text.splitOn '.' name)
  | .typeDecl .interface decl => traitCode env decl
  | .typeDecl _ decl => structCode env decl
  | .enumDecl decl => enumCode env decl
  | .moduleDecl ⟨name, modifiers, attributes, decls⟩ => do
    if ← target.skipMarked "module" name attributes then
      return []
    let inner : Place := { inStatic := true }
    let lines ← attributeLines env inner attributes
    let body ← items env inner .module decls
    let head := visibility modifiers true ++ "mod " ++ ident name
    return .separator :: lines ++
      [.block .plain (text head) (.text "use super::*;" :: body) ""]
  | .functionDecl _ decl => do
    let options : FunctionOptions := { visibility := visibility decl.modifiers true }
    return .separator :: (← function env place options (fun _ => return []) decl)
  | .fieldDecl decl =>
    if host = .module then do
      if ← target.skipMarked "field" decl.name decl.attributes then
        return []
      constCode env place decl
    else Gen.fail (outsideType (.fieldDecl decl) decl.name)
  | .propertyDecl decl => Gen.fail (outsideType (.propertyDecl decl) decl.name)
  | .importDecl decl => return [.text (useLine decl)]
  | .aliasDecl decl => return [.text (← aliasLine env place.toScope decl)]
  | .includeDecl _ decls => items env place host decls
  | .raw block => target.rawCode block
  | s => do
    Gen.report ((Diagnostic.warning
      (s.kindName ++ " is not allowed at item level; skipped")).withContext target.id)
    return []

/-- The code of items, one after the other. -/
def items (env : Env) (place : Place) (host : Host) : List Stmt → Gen (List Code)
  | [] => return []
  | s :: ss => return (← item env place host s) ++ (← items env place host ss)

/-- The items of a namespace, with separators in front of them. -/
def separatedItems (env : Env) : List Stmt → Gen (List Code)
  | [] => return []
  | s :: ss => return .separator :: (← item env {} .space s) ++ (← separatedItems env ss)

end

end Rust

end SourceGen
