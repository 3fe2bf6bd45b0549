import SourceGen.Rust.Body

/-!
# Rust structs

A class or struct becomes a struct, an inherent implementation with a constructor, and one trait
implementation for each interface of the unit that it lists. A member that one of those interfaces
requires goes into its implementation, the rest into the inherent one.

## Main definitions

* `Rust.StructParts`: the members of a type by what becomes of them.
* `Rust.structCode`: the code of a class or struct.
-/

namespace SourceGen

namespace Rust

open Fragment (text)

/-- A field of a struct, from a field or from a property without accessor bodies. -/
structure FieldSpec where
  visibility : String
  name : String
  type : String
  init : Option Expr
  isProperty : Bool

/-- The members of a type by what becomes of them. -/
structure StructParts where
  fields : List FieldSpec := []
  consts : List Field := []
  constructor : Option Function := none
  methods : List Function := []
  accessors : List Property := []
  raws : List RawBlock := []

/-- The field belongs to the type and not to its values. -/
def isStaticField (f : Field) : Bool :=
  f.modifiers.any fun m => m == .static || m == .const

/-- Reports a marked field, property or constructor; it is not written. A marked method is reported
where it would be written. -/
def memberMarked : Stmt → Gen Bool
  | .fieldDecl f => target.skipMarked "field" f.name f.attributes
  | .propertyDecl p => target.skipMarked "property" p.name p.attributes
  | .functionDecl _ f =>
    if f.isConstructor then target.skipMarked "constructor" f.name f.attributes else return false
  | _ => return false

/-- The warning about a second constructor. -/
def severalConstructors (owner : String) : Diagnostic :=
  (Diagnostic.warning
    ("`" ++ owner ++ "` has several constructors; only the first is emitted")).withContext target.id

/-- Sorts the members of a type, whose constructor may have been seen already. -/
def structParts (env : Env) (place : Place) (owner : String) (hasConstructor : Bool) :
    List Stmt → Gen StructParts
  | [] => return {}
  | s :: ss => do
    if ← memberMarked s then
      structParts env place owner hasConstructor ss
    else
      match s with
      | .fieldDecl f =>
        if isStaticField f then
          let rest ← structParts env place owner hasConstructor ss
          return { rest with consts := f :: rest.consts }
        else
          let type ← typeOr env place.toScope f.name f.type f.initializer
          let rest ← structParts env place owner hasConstructor ss
          let spec : FieldSpec :=
            ⟨Rust.visibility f.modifiers false, f.name, type, f.initializer, false⟩
          return { rest with fields := spec :: rest.fields }
      | .propertyDecl p =>
        if p.isAuto then
          let type ← typeOr env place.toScope p.name p.type p.initializer
          let rest ← structParts env place owner hasConstructor ss
          let spec : FieldSpec :=
            ⟨Rust.visibility p.modifiers false, p.name, type, p.initializer, true⟩
          return { rest with fields := spec :: rest.fields }
        else
          let rest ← structParts env place owner hasConstructor ss
          return { rest with accessors := p :: rest.accessors }
      | .functionDecl _ f =>
        if f.isConstructor then
          if hasConstructor then
            Gen.report (severalConstructors owner)
            structParts env place owner true ss
          else
            let rest ← structParts env place owner true ss
            return { rest with constructor := some f }
        else
          let rest ← structParts env place owner hasConstructor ss
          return { rest with methods := f :: rest.methods }
      | .raw block =>
        let rest ← structParts env place owner hasConstructor ss
        return { rest with raws := block :: rest.raws }
      | other =>
        Gen.report ((Diagnostic.warning
          (other.kindName ++ " is not allowed in a struct body; skipped")).withContext owner)
        structParts env place owner hasConstructor ss

/-! ### Listed types -/

/-- A base type: an interface of the unit is implemented, anything else is kept as a comment. -/
def baseTraits (env : Env) (owner : String) (base : Option TypeRef) :
    Gen (List TypeRef × List Code) :=
  match base with
  | none => return ([], [])
  | some base =>
    if env.known.isInterface base.name then return ([base], [])
    else do
      Gen.report ((Diagnostic.info ("`" ++ owner ++ "` extends `" ++ base.display ++
        "`; Rust has no class inheritance")).withContext target.id)
      return ([], [.comment (text ("extends " ++ base.display))])

/-- The listed interfaces: one of the unit is implemented, any other is kept as a comment. -/
def listedTraits (env : Env) (owner : String) : List TypeRef → Gen (List TypeRef × List Code)
  | [] => return ([], [])
  | t :: ts => do
    if env.known.isInterface t.name then
      let (traits, comments) ← listedTraits env owner ts
      return (t :: traits, comments)
    else
      Gen.report ((Diagnostic.info ("interface `" ++ t.display ++
        "` is not declared in this unit; no impl emitted")).withContext owner)
      let (traits, comments) ← listedTraits env owner ts
      return (traits, .comment (text ("implements " ++ t.display)) :: comments)

/-- The place of the first implemented trait that requires a member. -/
def traitOwner? (env : Env) (traits : List TypeRef) (requires : TraitShape → Bool) : Option Nat :=
  traits.findIdx? fun t => (env.traits.lookup t.name).any requires

/-- The place of the trait that a method belongs to. -/
def methodOwner? (env : Env) (traits : List TypeRef) (f : Function) : Option Nat :=
  traitOwner? env traits fun shape => (shape.receiver? f.name).isSome

/-- The place of the trait that a property belongs to. -/
def propertyOwner? (env : Env) (traits : List TypeRef) (name : String) : Option Nat :=
  traitOwner? env traits (·.hasProperty name)

/-! ### Members -/

/-- A constant; without a value there is none. -/
def constCode (env : Env) (place : Place) (f : Field) : Gen (List Code) :=
  match f.initializer with
  | none => do
    Gen.report ((Diagnostic.warning
      ("static field `" ++ f.name ++ "` has no initializer; skipped")).withContext target.id)
    return []
  | some init => do
    let type ← typeOr env place.toScope f.name f.type (some init)
    -- A constant cannot own text, only borrow a literal.
    let shown := if type == "String" && init.isStringLiteral then "&str" else type
    let value ← expr env place .value init
    return [.line (text (visibility f.modifiers true ++ "const " ++ ident f.name ++ ": " ++ shown ++
      " = ") ++ value ++ text ";")]

/-- The code of several constants. -/
def constCodes (env : Env) (place : Place) : List Field → Gen (List Code)
  | [] => return []
  | f :: fs => return (← constCode env place f) ++ (← constCodes env place fs)

/-- The fields of a new value, each from its initializer or its default. -/
def fieldValues (env : Env) (place : Place) : List FieldSpec → Gen (List Code)
  | [] => return []
  | f :: fs => do
    let value ← ownedOption env place f.init
    let shown := value.getD (text "Default::default()")
    return .line (text (ident f.name ++ ": ") ++ shown ++ text ",") :: (← fieldValues env place fs)

/-- The constructor: it builds the value from its fields, then runs the declared body. -/
def constructorCode (env : Env) (place : Place) (constructor : Option Function)
    (fields : List FieldSpec) : Gen Code := do
  let params ← parameters env place.toScope (constructor.elim [] (·.params))
  let shown := constructor.elim "pub " fun f => visibility f.modifiers true
  let inner : Place := { place with inConstructor := true, inStatic := true }
  let head := shown ++ "fn new(" ++ Text.join ", " params ++ ") -> Self"
  let values ← fieldValues env inner fields
  match (constructor.bind (·.body)).getD [] with
  | [] => return .block .function (text head) [.block .plain (text "Self") values ""] ""
  | body => do
    let code ← stmts env inner body
    return .block .function (text head)
      (.block .plain (text "let mut instance = Self") values ";" :: code ++ [.text "instance"]) ""

/-- The accessors of a property that have bodies. -/
def accessorBodies (env : Env) (place : Place) (inTrait : Bool) (shown name type : String) :
    List Accessor → Gen (List Code)
  | [] => return []
  | a :: accessors => do
    match a.body with
    | none => accessorBodies env place inTrait shown name type accessors
    | some body =>
      let head :=
        if TraitShape.isSetter a then
          shown ++ "fn set_" ++ name ++ "(&mut self, value: " ++ type ++ ")"
        else
          let receiver := if !inTrait && Stmt.anyAssignsThis body then "&mut self" else "&self"
          shown ++ "fn " ++ ident name ++ "(" ++ receiver ++ ") -> " ++ type
      let code ← stmts env place body
      return .separator :: .block .function (text head) code "" ::
        (← accessorBodies env place inTrait shown name type accessors)

/-- The getter and setter of a property with bodies; in a trait implementation the getter takes a
shared receiver. -/
def accessorCode (env : Env) (place : Place) (inTrait : Bool) (p : Property) :
    Gen (List Code) := do
  let type ← typeOr env place.toScope p.name p.type p.initializer
  let shown := if inTrait then "" else visibility p.modifiers false
  accessorBodies env place inTrait shown p.name type p.accessors

/-- The getters and setters of several properties. -/
def accessorCodes (env : Env) (place : Place) (inTrait : Bool) :
    List Property → Gen (List Code)
  | [] => return []
  | p :: ps =>
    return (← accessorCode env place inTrait p) ++ (← accessorCodes env place inTrait ps)

/-- The methods of an inherent implementation. -/
def inherentMethods (env : Env) (place : Place) : List Function → Gen (List Code)
  | [] => return []
  | f :: fs => do
    let options : FunctionOptions :=
      { visibility := visibility f.modifiers true, receiver := receiverOf f }
    let code ← function env place options (fun _ => return []) f
    return .separator :: code ++ (← inherentMethods env place fs)

/-- The receiver that a trait gives to a method. -/
def agreedReceiver (env : Env) (trait : String) (f : Function) : Receiver :=
  ((env.traits.lookup trait).bind (·.receiver? f.name)).getD (receiverOf f)

/-- The methods of a trait implementation. -/
def traitMethods (env : Env) (place : Place) (trait : String) : List Function → Gen (List Code)
  | [] => return []
  | f :: fs => do
    let options : FunctionOptions :=
      { visibility := "", receiver := agreedReceiver env trait f }
    let code ← function env place options (fun _ => return []) f
    return .separator :: code ++ (← traitMethods env place trait fs)

/-- The accessors that a trait requires over a field. -/
def backedAccessors (f : FieldSpec) (setter : Bool) : List Code :=
  let name := ident f.name
  [.separator,
    .block .function (text ("fn " ++ name ++ "(&self) -> " ++ f.type))
      [.text ("self." ++ name ++ ".clone()")] ""] ++
  if setter then
    [.blank,
      .block .function (text ("fn set_" ++ f.name ++ "(&mut self, value: " ++ f.type ++ ")"))
        [.text ("self." ++ name ++ " = value;")] ""]
  else []

/-! ### The type -/

/-- One trait implementation: `index` is the place of the trait among all implemented ones. -/
def traitImpl (env : Env) (place : Place) (owner bounds args : String) (traits : List TypeRef)
    (parts : StructParts) (index : Nat) (trait : TypeRef) : Gen (List Code) := do
  let spelling ← mapType env.known place.toScope trait
  let backed := parts.fields.filter fun f =>
    f.isProperty && propertyOwner? env traits f.name == some index
  let getters := backed.flatMap fun f =>
    backedAccessors f ((env.traits.lookup trait.name).any (·.hasSetter f.name))
  let accessors ← accessorCodes env place true
    (parts.accessors.filter fun p => propertyOwner? env traits p.name == some index)
  let methods ← traitMethods env place trait.name
    (parts.methods.filter fun f => methodOwner? env traits f == some index)
  return [.blank,
    .block .plain (text ("impl" ++ bounds ++ " " ++ spelling ++ " for " ++ ident owner ++ args))
      (getters ++ accessors ++ methods) ""]

/-- The trait implementations, from the one at place `index` on. -/
def traitImpls (env : Env) (place : Place) (owner bounds args : String) (traits : List TypeRef)
    (parts : StructParts) (index : Nat) : List TypeRef → Gen (List Code)
  | [] => return []
  | t :: ts => do
    let code ← traitImpl env place owner bounds args traits parts index t
    return code ++ (← traitImpls env place owner bounds args traits parts (index + 1) ts)

/-- The struct itself. -/
def structBlock (head : String) (fields : List FieldSpec) : Code :=
  if fields.isEmpty then .text (head ++ " \x7b\x7d")
  else .block .plain (text head)
    (fields.map fun f => .text (f.visibility ++ ident f.name ++ ": " ++ f.type ++ ",")) ""

/-- A struct can be cloned and printed by derived code, unless it holds a trait object or says
itself what is derived. -/
def deriveLine (attributes : List Attribute) (fields : List FieldSpec) : List Code :=
  if attributes.any (·.name == "derive") || fields.any (Text.contains ·.type "dyn") then []
  else [.text "#[derive(Debug, Clone)]"]

/-- A class or struct. -/
def structCode (env : Env) (d : TypeDecl) : Gen (List Code) := do
  if ← target.skipMarked "class" d.name d.attributes then
    return []
  let place := Place.ofType d.name d.generics
  let parts ← structParts env place d.name false d.members
  let (baseTrait, baseComment) ← baseTraits env d.name d.base
  let (listed, listedComments) ← listedTraits env d.name d.interfaces
  -- A base comes before the listed interfaces, so it gets the members that both require.
  let traits := baseTrait ++ listed
  let lines ← attributeLines env place d.attributes
  let bounds ← genericParams env place.toScope d.generics
  let args := genericArgs d.generics
  let head := visibility d.modifiers true ++ "struct " ++ ident d.name ++ bounds
  let consts ← constCodes env place parts.consts
  let constructor ← constructorCode env place parts.constructor parts.fields
  let accessors ← accessorCodes env place false
    (parts.accessors.filter fun p => (propertyOwner? env traits p.name).isNone)
  let methods ← inherentMethods env place
    (parts.methods.filter fun f => (methodOwner? env traits f).isNone)
  let raws ← target.rawCodes parts.raws
  let inherent : Code :=
    .block .plain (text ("impl" ++ bounds ++ " " ++ ident d.name ++ args))
      (consts ++ constructor :: accessors ++ methods ++ raws) ""
  let impls ← traitImpls env place d.name bounds args traits parts 0 traits
  return .separator :: baseComment ++ listedComments ++ lines ++
    deriveLine d.attributes parts.fields ++ structBlock head parts.fields ::
    .blank :: inherent :: impls

end Rust

end SourceGen
