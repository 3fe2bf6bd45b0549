import SourceGen.Tree.Basic

/-!
# Keywords of declarations

The words that spell modifiers, accessors and the mutability of variables.
-/

namespace SourceGen

namespace Modifier

/-- The word itself. -/
def word : Modifier → String
  | publicAccess => "public"
  | privateAccess => "private"
  | protectedAccess => "protected"
  | internalAccess => "internal"
  | static => "static"
  | abstract => "abstract"
  | virtual => "virtual"
  | override => "override"
  | readonly => "readonly"
  | const => "const"
  | async => "async"
  | sealed => "sealed"

/-- Every modifier once. -/
def all : List Modifier :=
  [publicAccess, privateAccess, protectedAccess, internalAccess, static, abstract, virtual,
   override, readonly, const, async, sealed]

end Modifier

namespace AccessorKind

/-- The keyword of the accessor. -/
def word : AccessorKind → String
  | get => "get"
  | set => "set"
  | init => "init"

/-- Every accessor kind once. -/
def all : List AccessorKind :=
  [get, set, init]

end AccessorKind

namespace Mutability

/-- The keyword that declares a variable of this mutability. -/
def word : Mutability → String
  | immutable => "let"
  | mutable => "var"
  | constant => "const"

/-- Every mutability once. -/
def all : List Mutability :=
  [immutable, mutable, constant]

end Mutability

end SourceGen
