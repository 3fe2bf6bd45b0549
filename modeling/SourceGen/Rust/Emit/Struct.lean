import SourceGen.Rust.Emit.Body
import SourceGen.Rust.Struct

/-!
# Emitting Rust structs

A class or struct in Rust, written by an emitter: the struct itself, its inherent implementation and
one implementation for each trait.

## Main definitions

* `Rust.emitStruct`: writes a class or struct.
-/

namespace SourceGen

namespace Rust

/-! ### Listed types -/

/-- The base type as a trait, or a comment. -/
def emitBaseTraits (env : Env) (owner : String) (base : Option TypeRef) : Emit (List TypeRef) :=
  match base with
  | none => return []
  | some base =>
    if env.known.isInterface base.name then return [base]
    else do
      Emit.comment ("extends " ++ base.display)
      Gen.report ((Diagnostic.info ("`" ++ owner ++ "` extends `" ++ base.display ++
        "`; Rust has no class inheritance")).withContext target.id)
      return []

/-- The listed interfaces as traits, or comments. -/
def emitListedTraits (env : Env) (owner : String) : List TypeRef → Emit (List TypeRef)
  | [] => return []
  | t :: ts => do
    if env.known.isInterface t.name then
      return t :: (← emitListedTraits env owner ts)
    else
      Emit.comment ("implements " ++ t.display)
      Gen.report ((Diagnostic.info ("interface `" ++ t.display ++
        "` is not declared in this unit; no impl emitted")).withContext owner)
      emitListedTraits env owner ts

/-! ### Members -/

/-- Writes a constant; without a value there is none. -/
def emitConst (env : Env) (place : Place) (f : Field) : Emit Unit :=
  match f.initializer with
  | none =>
    Gen.report ((Diagnostic.warning
      ("static field `" ++ f.name ++ "` has no initializer; skipped")).withContext target.id)
  | some init => do
    let type ← typeOr env place.toScope f.name f.type (some init)
    let shown := if type == "String" && init.isStringLiteral then "&str" else type
    let value ← emitExpr env place .value init
    Emit.line (visibility f.modifiers true ++ "const " ++ ident f.name ++ ": " ++ shown ++
      " = " ++ value ++ ";")

/-- Writes several constants. -/
def emitConsts (env : Env) (place : Place) : List Field → Emit Unit
  | [] => return
  | f :: fs => do
    emitConst env place f
    emitConsts env place fs

/-- Writes the fields of a new value. -/
def emitFieldValues (env : Env) (place : Place) : List FieldSpec → Emit Unit
  | [] => return
  | f :: fs => do
    let value ← emitOwnedOption env place f.init
    Emit.line (ident f.name ++ ": " ++ value.getD "Default::default()" ++ ",")
    emitFieldValues env place fs

/-- Writes the constructor: it builds the value from its fields, then runs the declared body. -/
def emitConstructor (env : Env) (place : Place) (constructor : Option Function)
    (fields : List FieldSpec) : Emit Unit := do
  let params ← parameters env place.toScope (constructor.elim [] (·.params))
  let shown := constructor.elim "pub " fun f => visibility f.modifiers true
  let inner : Place := { place with inConstructor := true, inStatic := true }
  Emit.openBlock (shown ++ "fn new(" ++ Text.join ", " params ++ ") -> Self")
  match (constructor.bind (·.body)).getD [] with
  | [] => do
    Emit.openBlock "Self"
    emitFieldValues env inner fields
    Emit.closeBlock ""
  | body => do
    Emit.openBlock "let mut instance = Self"
    emitFieldValues env inner fields
    Emit.closeBlock ";"
    emitStmts env inner body
    Emit.line "instance"
  Emit.closeBlock ""

/-- Writes the accessors of a property that have bodies. -/
def emitAccessorBodies (env : Env) (place : Place) (inTrait : Bool) (shown name type : String) :
    List Accessor → Emit Unit
  | [] => return
  | a :: accessors => do
    match a.body with
    | none => emitAccessorBodies env place inTrait shown name type accessors
    | some body =>
      let head :=
        if TraitShape.isSetter a then
          shown ++ "fn set_" ++ name ++ "(&mut self, value: " ++ type ++ ")"
        else
          let receiver := if !inTrait && Stmt.anyAssignsThis body then "&mut self" else "&self"
          shown ++ "fn " ++ ident name ++ "(" ++ receiver ++ ") -> " ++ type
      Emit.separator
      Emit.openBlock head
      emitStmts env place body
      Emit.closeBlock ""
      emitAccessorBodies env place inTrait shown name type accessors

/-- Writes the getter and setter of a property with bodies. -/
def emitAccessors (env : Env) (place : Place) (inTrait : Bool) (p : Property) : Emit Unit := do
  let type ← typeOr env place.toScope p.name p.type p.initializer
  let shown := if inTrait then "" else visibility p.modifiers false
  emitAccessorBodies env place inTrait shown p.name type p.accessors

/-- Writes the getters and setters of several properties. -/
def emitAllAccessors (env : Env) (place : Place) (inTrait : Bool) : List Property → Emit Unit
  | [] => return
  | p :: ps => do
    emitAccessors env place inTrait p
    emitAllAccessors env place inTrait ps

/-- Writes the methods of an inherent implementation. -/
def emitInherentMethods (env : Env) (place : Place) : List Function → Emit Unit
  | [] => return
  | f :: fs => do
    let options : FunctionOptions :=
      { visibility := visibility f.modifiers true, receiver := receiverOf f }
    Emit.separator
    emitFunction env place options (fun _ => return) f
    emitInherentMethods env place fs

/-- Writes the methods of a trait implementation. -/
def emitTraitMethods (env : Env) (place : Place) (trait : String) : List Function → Emit Unit
  | [] => return
  | f :: fs => do
    let options : FunctionOptions :=
      { visibility := "", receiver := agreedReceiver env trait f }
    Emit.separator
    emitFunction env place options (fun _ => return) f
    emitTraitMethods env place trait fs

/-- Writes the accessors that a trait requires over a field. -/
def emitBackedAccessors (f : FieldSpec) (setter : Bool) : Emit Unit := do
  let name := ident f.name
  Emit.separator
  Emit.openBlock ("fn " ++ name ++ "(&self) -> " ++ f.type)
  Emit.line ("self." ++ name ++ ".clone()")
  Emit.closeBlock ""
  if setter then
    Emit.blankLine
    Emit.openBlock ("fn set_" ++ f.name ++ "(&mut self, value: " ++ f.type ++ ")")
    Emit.line ("self." ++ name ++ " = value;")
    Emit.closeBlock ""

/-- Writes the accessors that a trait requires over several fields. -/
def emitAllBacked (env : Env) (trait : String) : List FieldSpec → Emit Unit
  | [] => return
  | f :: fs => do
    emitBackedAccessors f ((env.traits.lookup trait).any (·.hasSetter f.name))
    emitAllBacked env trait fs

/-! ### The type -/

/-- Writes one trait implementation: `index` is the place of the trait among all implemented
ones. -/
def emitTraitImpl (env : Env) (place : Place) (owner bounds args : String) (traits : List TypeRef)
    (parts : StructParts) (index : Nat) (trait : TypeRef) : Emit Unit := do
  let spelling ← mapType env.known place.toScope trait
  Emit.blankLine
  Emit.openBlock ("impl" ++ bounds ++ " " ++ spelling ++ " for " ++ ident owner ++ args)
  emitAllBacked env trait.name
    (parts.fields.filter fun f => f.isProperty && propertyOwner? env traits f.name == some index)
  emitAllAccessors env place true
    (parts.accessors.filter fun p => propertyOwner? env traits p.name == some index)
  emitTraitMethods env place trait.name
    (parts.methods.filter fun f => methodOwner? env traits f == some index)
  Emit.closeBlock ""

/-- Writes the trait implementations, from the one at place `index` on. -/
def emitTraitImpls (env : Env) (place : Place) (owner bounds args : String) (traits : List TypeRef)
    (parts : StructParts) (index : Nat) : List TypeRef → Emit Unit
  | [] => return
  | t :: ts => do
    emitTraitImpl env place owner bounds args traits parts index t
    emitTraitImpls env place owner bounds args traits parts (index + 1) ts

/-- Writes the struct itself. -/
def emitFields (head : String) (fields : List FieldSpec) : Emit Unit := do
  if fields.isEmpty then Emit.line (head ++ " \x7b\x7d")
  else
    Emit.openBlock head
    Emit.lines (fields.map fun f => f.visibility ++ ident f.name ++ ": " ++ f.type ++ ",")
    Emit.closeBlock ""

/-- Writes a class or struct. -/
def emitStruct (env : Env) (d : TypeDecl) : Emit Unit := do
  if ← target.skipMarked "class" d.name d.attributes then
    return
  let place := Place.ofType d.name d.generics
  let parts ← structParts env place d.name false d.members
  Emit.separator
  let baseTrait ← emitBaseTraits env d.name d.base
  let listed ← emitListedTraits env d.name d.interfaces
  let traits := baseTrait ++ listed
  emitAttributes env place d.attributes
  Emit.lineUnless (d.attributes.any (·.name == "derive") ||
    parts.fields.any (Text.contains ·.type "dyn")) "#[derive(Debug, Clone)]"
  let bounds ← genericParams env place.toScope d.generics
  let args := genericArgs d.generics
  emitFields (visibility d.modifiers true ++ "struct " ++ ident d.name ++ bounds) parts.fields
  Emit.blankLine
  Emit.openBlock ("impl" ++ bounds ++ " " ++ ident d.name ++ args)
  emitConsts env place parts.consts
  emitConstructor env place parts.constructor parts.fields
  emitAllAccessors env place false
    (parts.accessors.filter fun p => (propertyOwner? env traits p.name).isNone)
  emitInherentMethods env place
    (parts.methods.filter fun f => (methodOwner? env traits f).isNone)
  target.emitRaws parts.raws
  Emit.closeBlock ""
  emitTraitImpls env place d.name bounds args traits parts 0 traits

end Rust

end SourceGen
