import SourceGen.Analysis.Receiver
import SourceGen.Tree.Kind

/-!
# Rust traits

What the interfaces of a unit require of the types that implement them. A trait method and all its
implementations take the same receiver: an exclusive one as soon as the interface or any of the
implementing bodies changes something through `this`.

## Main definitions

* `Rust.Receiver`: how a method takes its object.
* `Rust.receiverOf`: the receiver that a method needs by itself.
* `Rust.TraitShape`: the methods and properties of an interface.
* `Rust.collectTraits`: the shapes of all interfaces of a unit.
-/

namespace SourceGen

namespace Rust

/-- How a method takes the object it is called on. -/
inductive Receiver where
  | none | shared | exclusive
  deriving DecidableEq, Repr

/-- The first parameter for a receiver. -/
def Receiver.params : Receiver → List String
  | none => []
  | shared => ["&self"]
  | exclusive => ["&mut self"]

/-- The receiver that a method needs by itself. -/
def receiverOf (f : Function) : Receiver :=
  if f.isStatic || f.hasModifier .static then .none
  else if f.body.any Stmt.anyAssignsThis then .exclusive
  else .shared

/-- What an interface requires of the types that implement it. -/
structure TraitShape where
  /-- Method names with the receiver that all implementations agree on. -/
  methods : List (String × Receiver) := []
  /-- Property names, and whether a setter is required. -/
  properties : List (String × Bool) := []
  deriving DecidableEq, Repr

namespace TraitShape

/-- The agreed receiver of a method. -/
def receiver? (shape : TraitShape) (method : String) : Option Receiver :=
  shape.methods.lookup method

/-- The property is required. -/
def hasProperty (shape : TraitShape) (name : String) : Bool :=
  shape.properties.any (·.1 == name)

/-- A setter of the property is required. -/
def hasSetter (shape : TraitShape) (name : String) : Bool :=
  shape.properties.any fun p => p.1 == name && p.2

/-- The shape with an exclusive receiver for a method that had a shared one. -/
def requireExclusive (shape : TraitShape) (method : String) : TraitShape :=
  { shape with
    methods := shape.methods.map fun (name, receiver) =>
      if name = method ∧ receiver = .shared then (name, .exclusive) else (name, receiver) }

/-- The accessor writes. -/
def isSetter (a : Accessor) : Bool :=
  a.kind != .get

/-- The shape of an interface, from its own members. -/
def ofMembers (members : List Stmt) : TraitShape where
  methods := members.filterMap fun
    | .functionDecl _ f => some (f.name, receiverOf f)
    | _ => none
  properties := members.filterMap fun
    | .propertyDecl p => some (p.name, p.accessors.any isSetter)
    | _ => none

end TraitShape

/-- The shapes of the interfaces of a unit by name. -/
abbrev Traits :=
  List (String × TraitShape)

namespace Traits

/-- Sets the shape of an interface; a later interface of the same name replaces an earlier one. -/
def insert (traits : Traits) (name : String) (shape : TraitShape) : Traits :=
  (name, shape) :: traits.filter (·.1 != name)

/-- Changes the shape of one interface. -/
def adjust (traits : Traits) (name : String) (f : TraitShape → TraitShape) : Traits :=
  traits.map fun (other, shape) => if other = name then (other, f shape) else (other, shape)

end Traits

mutual

/-- The types with members in a statement, also inside namespaces and modules. -/
def typesIn : Stmt → List (TypeKind × TypeDecl)
  | .namespaceDecl _ decls => allTypesIn decls
  | .moduleDecl ⟨_, _, _, decls⟩ => allTypesIn decls
  | .typeDecl kind decl => [(kind, decl)]
  | _ => []

/-- The types with members in some statements. -/
def allTypesIn : List Stmt → List (TypeKind × TypeDecl)
  | [] => []
  | s :: ss => typesIn s ++ allTypesIn ss

end

/-- The methods of a type that change it. -/
def changingMethods (members : List Stmt) : List String :=
  members.filterMap fun
    | .functionDecl _ f => if receiverOf f = .exclusive then some f.name else none
    | _ => none

/-- What the body of an implementing type asks of the interfaces it lists. -/
def adjustFor (traits : Traits) (d : TypeDecl) : Traits :=
  (d.base.toList ++ d.interfaces).foldl
    (fun traits listed => traits.adjust listed.name fun shape =>
      (changingMethods d.members).foldl TraitShape.requireExclusive shape)
    traits

/-- The shapes of all interfaces of a unit. -/
def collectTraits (stmts : List Stmt) : Traits :=
  let types := allTypesIn stmts
  let declared := types.foldl
    (fun traits (kind, d) =>
      if kind = .interface then Traits.insert traits d.name (TraitShape.ofMembers d.members)
      else traits)
    []
  types.foldl (fun traits (kind, d) => if kind = .interface then traits else adjustFor traits d)
    declared

end Rust

end SourceGen
