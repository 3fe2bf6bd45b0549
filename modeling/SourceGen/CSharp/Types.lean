import SourceGen.Config
import SourceGen.CSharp.Spelling
import SourceGen.Journal
import SourceGen.Scope
import SourceGen.TypeRef.Normalize
import SourceGen.TypeRef.Resolver
import SourceGen.TypeRef.Shape

/-!
# C# types

The spelling of a type reference in C#. Containers need their namespaces, and a name that nothing is
known about becomes the catch-all with a warning.

## Main definitions

* `CSharp.Env`: what stays fixed while a unit is written.
* `CSharp.mapType`: the spelling of a reference.
* `CSharp.containerSpelling`: the spelling of a container.
-/

namespace SourceGen

namespace CSharp

/-- What stays fixed while a unit is written. -/
structure Env where
  config : Config
  known : KnownTypes
  resolver : TypeResolver

/-- The namespace of consoles, conversions and delegates. -/
def systemNamespace : String :=
  "System"

/-- The namespace of sequences. -/
def linqNamespace : String :=
  "System.Linq"

/-- The namespace that a container comes from. -/
def containerNamespace? : Container → Option String
  | .list | .map | .set => some "System.Collections.Generic"
  | .function => some systemNamespace
  | .promise => some "System.Threading.Tasks"
  | .array | .tuple | .optional => none

/-- A callable type; the last argument is its result. -/
def delegateSpelling (args : List String) : String :=
  let params := args.dropLast
  let result := args.getLast?.getD "void"
  if result == "void" then
    if params.isEmpty then "Action" else "Action<" ++ Text.join ", " params ++ ">"
  else
    if params.isEmpty then "Func<" ++ result ++ ">"
    else "Func<" ++ Text.join ", " params ++ ", " ++ result ++ ">"

/-- The spelling of a container with enough arguments. -/
def containerSpelling (c : Container) (args : List String) : String :=
  match c with
  | .list => "List<" ++ Text.join ", " args ++ ">"
  | .map => "Dictionary<" ++ Text.join ", " args ++ ">"
  | .set => "HashSet<" ++ Text.join ", " args ++ ">"
  | .array => Text.join ", " args ++ "[]"
  | .tuple => "(" ++ Text.join ", " args ++ ")"
  | .function => delegateSpelling args
  | .promise =>
    let inner := args.head?.getD "void"
    if inner == "void" then "Task" else "Task<" ++ inner ++ ">"
  | .optional => Text.join ", " args ++ "?"

/-- A qualified name, with a dot for each path separator. -/
def dotted : List Char → List Char
  | ':' :: ':' :: cs => '.' :: dotted cs
  | c :: cs => c :: dotted cs
  | [] => []

/-- The warning about a name that nothing is known about. -/
def unknownType (type : TypeRef) : Diagnostic :=
  (Diagnostic.warning
    ("unknown type `" ++ type.display ++ "`; using `" ++ catchAll ++ "`")).withHint
    "declare the type in this unit or import its namespace"

mutual

/-- The spelling of a normal reference. -/
def mapNormal (env : Env) (scope : Scope) : TypeRef → Gen String
  | ⟨name, args⟩ =>
    match TypeRef.classify scope.generics env.known ⟨name, args⟩ with
    | .param name => return name
    | .primitive type => return primitive type
    | .container type _ => do
      let mapped ← mapNormalAll env scope args
      if let some needed := containerNamespace? type then
        Gen.requireImport needed
      return containerSpelling type (type.fill mapped catchAll)
    | .declared name _ => return name ++ Text.angled (← mapNormalAll env scope args)
    | .qualified name _ =>
      return String.ofList (dotted name.toList) ++ Text.angled (← mapNormalAll env scope args)
    | .unresolved name _ =>
      match env.resolver.resolve name with
      | some spelling => return spelling ++ Text.angled (← mapNormalAll env scope args)
      | none => do
        Gen.report (unknownType ⟨name, args⟩)
        return catchAll

/-- The spellings of normal references, from left to right. -/
def mapNormalAll (env : Env) (scope : Scope) : List TypeRef → Gen (List String)
  | [] => return []
  | t :: ts => return (← mapNormal env scope t) :: (← mapNormalAll env scope ts)

end

/-- The spelling of a reference. -/
def mapType (env : Env) (scope : Scope) (type : TypeRef) : Gen String :=
  mapNormal env scope type.normalize

/-- The spelling of an optional reference, `fallback` if there is none. -/
def mapTypeOr (env : Env) (scope : Scope) (fallback : String) : Option TypeRef → Gen String
  | some type => mapType env scope type
  | none => return fallback

/-- The spellings of references, from left to right. -/
def mapTypes (env : Env) (scope : Scope) (types : List TypeRef) : Gen (List String) :=
  types.mapM (mapType env scope)

end CSharp

end SourceGen
