import SourceGen.Tree.Basic

/-!
# Scopes

What a declaration knows about the declarations around it. A scope is passed down by value, so
nothing has to be restored on the way back.
-/

namespace SourceGen

/-- The declarations around a piece of code. -/
structure Scope where
  /-- The type whose members are written. -/
  className : Option String := none
  classGenerics : List GenericParam := []
  functionGenerics : List GenericParam := []
  inConstructor : Bool := false
  inStatic : Bool := false
  /-- Members of an interface get no access modifier of their own. -/
  inInterface : Bool := false

namespace Scope

/-- The scope of the members of a type. -/
def ofType (name : String) (generics : List GenericParam) : Scope :=
  { className := some name, classGenerics := generics }

/-- The generic parameter lists in scope, outermost first. -/
def generics (scope : Scope) : List (List GenericParam) :=
  [scope.classGenerics, scope.functionGenerics]

end Scope

end SourceGen
