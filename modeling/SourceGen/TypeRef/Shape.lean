import SourceGen.Text.Basic
import SourceGen.TypeRef.Known
import SourceGen.Vocabulary.Container
import SourceGen.Vocabulary.Primitive

/-!
# What a type reference names

A normal reference is, in this order of preference: a generic parameter in scope, a primitive
type, a container, a type the unit declares, a qualified name, or a name nothing is known about.

## Main definitions

* `TypeShape`: the six cases.
* `TypeRef.classify`: the case of a normal reference.
-/

namespace SourceGen

/-- What a normal type reference names. -/
inductive TypeShape where
  | param (name : String)
  | primitive (type : Primitive)
  | container (type : Container) (args : List TypeRef)
  | declared (name : String) (args : List TypeRef)
  | qualified (name : String) (args : List TypeRef)
  | unresolved (name : String) (args : List TypeRef)

namespace TypeRef

/-- The name belongs to one of the generic parameter lists. -/
def isParam (generics : List (List GenericParam)) (name : String) : Bool :=
  generics.any fun params => params.any (·.name == name)

/-- The name is a path of several parts. -/
def isQualifiedName (name : String) : Bool :=
  Text.hasChar '.' name || Text.contains name "::"

/-- What a normal reference names; only a reference without arguments can name a parameter or a
primitive. -/
def classify (generics : List (List GenericParam)) (known : KnownTypes) : TypeRef → TypeShape
  | ⟨name, args⟩ =>
    if args.isEmpty && isParam generics name then .param name
    else
      match if args.isEmpty then Primitive.ofName? name else none with
      | some type => .primitive type
      | none =>
        match Container.ofName? name with
        | some type => .container type args
        | none =>
          if known.contains name then .declared name args
          else if isQualifiedName name then .qualified name args
          else .unresolved name args

end TypeRef

end SourceGen
