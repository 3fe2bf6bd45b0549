import SourceGen.Config
import SourceGen.Journal
import SourceGen.Rust.Spelling
import SourceGen.Scope
import SourceGen.TypeRef.Normalize
import SourceGen.TypeRef.Shape

/-!
# Rust types

The spelling of a type reference in Rust. Maps and sets need an import, and a name that nothing is
known about becomes the catch-all with a warning.

## Main definitions

* `Rust.mapType`: the spelling of a reference.
* `Rust.containerSpelling`: the spelling of a container.
-/

namespace SourceGen

namespace Rust

/-- The path that a container is imported from. -/
def containerImport? : Container → Option String
  | .map => some "std::collections::HashMap"
  | .set => some "std::collections::HashSet"
  | _ => none

/-- A callable type; the last argument is its result. -/
def callableSpelling (args : List String) : String :=
  let params := Text.join ", " args.dropLast
  let result := args.getLast?.getD unitType
  if result == unitType then "Box<dyn Fn(" ++ params ++ ")>"
  else "Box<dyn Fn(" ++ params ++ ") -> " ++ result ++ ">"

/-- The spelling of a container with enough arguments. -/
def containerSpelling (c : Container) (args : List String) : String :=
  match c with
  | .list | .array => "Vec<" ++ Text.join ", " args ++ ">"
  | .map => "HashMap<" ++ Text.join ", " args ++ ">"
  | .set => "HashSet<" ++ Text.join ", " args ++ ">"
  | .tuple =>
    match args with
    | [only] => "(" ++ only ++ ",)"
    | _ => "(" ++ Text.join ", " args ++ ")"
  | .function => callableSpelling args
  | .promise =>
    "std::pin::Pin<Box<dyn std::future::Future<Output = " ++ args.head?.getD unitType ++ ">>>"
  | .optional => "Option<" ++ Text.join ", " args ++ ">"

/-- A qualified name, with a path separator for each dot. -/
def coloned : List Char → List Char
  | '.' :: cs => ':' :: ':' :: coloned cs
  | c :: cs => c :: coloned cs
  | [] => []

/-- The warning about a name that nothing is known about. -/
def unknownType (type : TypeRef) : Diagnostic :=
  (Diagnostic.warning
    ("unknown type `" ++ type.display ++ "`; using `" ++ catchAll ++ "`")).withHint
    "declare the type in this unit or refer to it by its full path"

mutual

/-- The spelling of a normal reference. -/
def mapNormal (known : KnownTypes) (scope : Scope) : TypeRef → Gen String
  | ⟨name, args⟩ =>
    match TypeRef.classify scope.generics known ⟨name, args⟩ with
    | .param name => return name
    | .primitive type => return primitive type
    | .container type _ => do
      let mapped ← mapNormalAll known scope args
      if let some needed := containerImport? type then
        Gen.requireImport needed
      return containerSpelling type (type.fill mapped catchAll)
    | .declared name _ => return name ++ Text.angled (← mapNormalAll known scope args)
    | .qualified name _ =>
      return String.ofList (coloned name.toList) ++ Text.angled (← mapNormalAll known scope args)
    | .unresolved _ _ => do
      Gen.report (unknownType ⟨name, args⟩)
      return catchAll

/-- The spellings of normal references, from left to right. -/
def mapNormalAll (known : KnownTypes) (scope : Scope) : List TypeRef → Gen (List String)
  | [] => return []
  | t :: ts => return (← mapNormal known scope t) :: (← mapNormalAll known scope ts)

end

/-- The spelling of a reference. -/
def mapType (known : KnownTypes) (scope : Scope) (type : TypeRef) : Gen String :=
  mapNormal known scope type.normalize

/-- The spellings of references, from left to right. -/
def mapTypes (known : KnownTypes) (scope : Scope) (types : List TypeRef) : Gen (List String) :=
  types.mapM (mapType known scope)

end Rust

end SourceGen
