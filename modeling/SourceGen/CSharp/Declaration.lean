import SourceGen.CSharp.Body
import SourceGen.Compose.NestedType

/-!
# C# declarations

Namespaces, types, modules and their members in C#. Types stand in namespaces and modules, and
functions, fields and properties stand in types and modules.

## Main definitions

* `CSharp.Host`: where a member stands.
* `CSharp.member`, `CSharp.members`: the code of members.
-/

namespace SourceGen

namespace CSharp

open Fragment (text)

/-- What a list of members belongs to. -/
inductive Host where
  /-- A namespace or the unit itself. -/
  | space
  /-- A class, struct or interface. -/
  | type
  /-- A module or the implicit class. -/
  | module
  deriving DecidableEq, Repr

/-- The keyword of a type declaration. -/
def typeKeyword : TypeKind → String
  | .cls => "class"
  | .struct => "struct"
  | .interface => "interface"

/-- An import inside a namespace. -/
def usingLine (d : Import) : String :=
  match d.localName with
  | some name => "using " ++ name ++ " = " ++ Text.join "." d.path ++ ";"
  | none => "using " ++ Text.join "." d.path ++ ";"

/-- The variants of an enum. -/
def variantLines (env : Env) (scope : Scope) : List EnumVariant → Gen (List Code)
  | [] => return []
  | ⟨name, value⟩ :: variants => do
    let rendered ← exprOption env scope value
    let shown := text (ident name) ++ rendered.elim [] (text " = " ++ ·) ++ text ","
    return .line shown :: (← variantLines env scope variants)

/-- An enum. -/
def enumCode (env : Env) (scope : Scope) (d : EnumDecl) : Gen (List Code) := do
  if ← target.skipMarked "enum" d.name d.attributes then
    return []
  let lines ← attributeLines env scope d.attributes
  let head := modifierText d.modifiers .publicAccess false scope ++ "enum " ++ ident d.name
  let variants ← variantLines env scope d.variants
  return .separator :: lines ++ [.block .plain (text head) variants ""]

/-- A field; in a static scope it is static unless it is a constant. -/
def fieldCode (env : Env) (scope : Scope) (d : Field) : Gen (List Code) := do
  if ← target.skipMarked "field" d.name d.attributes then
    return []
  let lines ← attributeLines env scope d.attributes
  let makeStatic := scope.inStatic && !d.modifiers.contains .const
  let words := modifierText d.modifiers .privateAccess makeStatic scope
  let spelling ← mapTypeOr env scope untyped d.type
  let value ← exprOption env scope d.initializer
  return lines ++ [.line (text (words ++ spelling ++ " " ++ ident d.name) ++
    value.elim [] (text " = " ++ ·) ++ text ";")]

/-- The modifiers and the keyword of an accessor. -/
def accessorHead (a : Accessor) : String :=
  String.join (a.modifiers.map (·.word ++ " ")) ++ a.kind.word

/-- The accessors of a property without bodies. -/
def autoAccessors (accessors : List Accessor) : String :=
  if accessors.isEmpty then "get; set;"
  else Text.join " " (accessors.map fun a => accessorHead a ++ ";")

/-- The accessors of a property, at least one with a body. -/
def accessorCode (env : Env) (scope : Scope) : List Accessor → Gen (List Code)
  | [] => return []
  | a :: accessors => do
    let code ←
      match a.body with
      | some body =>
        pure (.block .function (text (accessorHead a)) (← stmts env scope none body) "")
      | none => pure (.text (accessorHead a ++ ";"))
    return code :: (← accessorCode env scope accessors)

/-- A property, on one line if no accessor has a body. -/
def propertyCode (env : Env) (scope : Scope) (d : Property) : Gen (List Code) := do
  if ← target.skipMarked "property" d.name d.attributes then
    return []
  let lines ← attributeLines env scope d.attributes
  let words := modifierText d.modifiers .privateAccess scope.inStatic scope
  let head := words ++ (← mapTypeOr env scope untyped d.type) ++ " " ++ ident d.name
  if d.isAuto then
    let value ← exprOption env scope d.initializer
    return lines ++ [.line (text (head ++ " \x7b " ++ autoAccessors d.accessors ++ " \x7d") ++
      value.elim [] (text " = " ++ · ++ text ";"))]
  else
    let accessors ← accessorCode env scope d.accessors
    return lines ++ [.separator, .block .plain (text head) accessors ""]

/-- The head of a class, struct or interface. -/
def typeHead (env : Env) (outer inner : Scope) (kind : TypeKind) (name : String)
    (modifiers : List Modifier) (generics : List GenericParam) (base : Option TypeRef)
    (interfaces : List TypeRef) : Gen String := do
  let head := modifierText modifiers .publicAccess false outer ++ typeKeyword kind ++ " " ++
    ident name ++ genericList generics
  let bases ← mapTypes env inner (base.toList ++ interfaces)
  let clauses ← whereClauses env inner generics
  return head ++ (if bases.isEmpty then "" else " : " ++ Text.join ", " bases) ++ clauses

/-- Reports and refuses a statement that cannot stand among members. -/
def refuseMember (scope : Scope) (s : Stmt) : Gen (List Code) := do
  Gen.report ((Diagnostic.warning (s.kindName ++ " is not allowed here; skipped")).withContext
    (scope.className.getD target.id))
  return []

/-- The failure for a type inside a type. -/
def typeInType (scope : Scope) (name : String) : Failure :=
  .nestedType (scope.className.getD "") name

/-- The failure for a member outside any type. -/
def outsideType (s : Stmt) (name : String) : Failure :=
  .misplacedMember target.id s.kindName name

mutual

/-- The code of a member. -/
def member (env : Env) (scope : Scope) (host : Host) : Stmt → Gen (List Code)
  | .namespaceDecl name decls =>
    if host = .space then
      return [.block .plain (text ("namespace " ++ name)) (← separated env decls) ""]
    else Gen.fail (typeInType scope name)
  | .typeDecl kind ⟨name, modifiers, attributes, generics, base, interfaces, decls⟩ =>
    if host = .type then Gen.fail (typeInType scope name)
    else do
      if ← target.skipMarked (typeKeyword kind) name attributes then
        return []
      let lines ← attributeLines env scope attributes
      let inner : Scope :=
        { Scope.ofType name generics with
          inStatic := modifiers.contains .static
          inInterface := kind = .interface }
      let head ← typeHead env scope inner kind name modifiers generics base interfaces
      let body ← members env inner .type decls
      return .separator :: lines ++ [.block .plain (text head) body ""]
  | .enumDecl decl =>
    if host = .type then Gen.fail (typeInType scope decl.name) else enumCode env scope decl
  | .moduleDecl ⟨name, modifiers, attributes, decls⟩ =>
    if host = .type then Gen.fail (typeInType scope name)
    else do
      if ← target.skipMarked "module" name attributes then
        return []
      let lines ← attributeLines env scope attributes
      let head := modifierText modifiers .publicAccess true scope ++ "class " ++ ident name
      let inner : Scope := { Scope.ofType name [] with inStatic := true }
      let body ← members env inner .module decls
      return .separator :: lines ++ [.block .plain (text head) body ""]
  | .functionDecl kind decl =>
    if host = .space then Gen.fail (outsideType (.functionDecl kind decl) decl.name)
    else return .separator :: (← function env scope {} (fun _ => return []) decl)
  | .fieldDecl decl =>
    if host = .space then Gen.fail (outsideType (.fieldDecl decl) decl.name)
    else fieldCode env scope decl
  | .propertyDecl decl =>
    if host = .space then Gen.fail (outsideType (.propertyDecl decl) decl.name)
    else propertyCode env scope decl
  | .importDecl decl =>
    if host = .space then return [.text (usingLine decl)]
    else refuseMember scope (.importDecl decl)
  | .includeDecl _ decls => members env scope host decls
  | .raw block => target.rawCode block
  | s => refuseMember scope s

/-- The code of members, one after the other. -/
def members (env : Env) (scope : Scope) (host : Host) : List Stmt → Gen (List Code)
  | [] => return []
  | s :: ss => return (← member env scope host s) ++ (← members env scope host ss)

/-- The members of a namespace, with separators in front of them. -/
def separated (env : Env) : List Stmt → Gen (List Code)
  | [] => return []
  | s :: ss => return .separator :: (← member env {} .space s) ++ (← separated env ss)

end

end CSharp

end SourceGen
