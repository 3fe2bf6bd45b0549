import SourceGen.Json.Reader
import SourceGen.Tree.Encode

/-!
# Trees from JSON

Reads the JSON form of a tree. Every reader takes the number of levels of arrays and objects it
may open, which is both the nesting limit of the format and the measure of the recursion. A field
with a default may be missing, unknown fields are skipped whatever they hold, and a known field
must not repeat.

## Main definitions

* `Program.decodeWithin`: a program whose form nests at most so many levels.
* `Program.decode`: a program of any depth.
-/

namespace SourceGen

open Json (asString asBool asChar items required optional defaulted unitTag)

/-! ### Leaves -/

namespace Modifier

/-- The modifier spelled by a word. -/
def ofWord? (s : String) : Option Modifier :=
  all.find? (·.word == s)

/-- A list of modifiers. -/
def decodeAll (levels : Nat) (v : Json) : Option (List Modifier) :=
  items levels (unitTag (levels - 1) ofWord?) v

end Modifier

/-- The accessor kind spelled by a word. -/
def AccessorKind.ofWord? (s : String) : Option AccessorKind :=
  all.find? (·.word == s)

/-- The mutability declared by a keyword. -/
def Mutability.ofWord? (s : String) : Option Mutability :=
  all.find? (·.word == s)

/-- A list of strings. -/
def Json.asStrings (levels : Nat) (v : Json) : Option (List String) :=
  items levels asString v

mutual

/-- A type reference. -/
def TypeRef.decode : Nat → Json → Option TypeRef
  | levels + 1, .object fs => do
    let name ← required fs "name" asString
    let args ← defaulted fs "args" [] (TypeRef.decodeAll levels)
    return ⟨name, args⟩
  | _, _ => none

/-- A list of type references. -/
def TypeRef.decodeAll : Nat → Json → Option (List TypeRef)
  | levels + 1, .array vs => vs.mapM (TypeRef.decode levels)
  | _, _ => none

end

/-- A literal. -/
def Literal.decode (levels : Nat) : Json → Option Literal
  | .string "Null" => some .null
  | .object [(tag, v)] =>
    if levels = 0 then none else
    match tag with
    | "Number" => (asString v).map .number
    | "String" => (asString v).map .string
    | "Char" => (asChar v).map .char
    | "Bool" => (asBool v).map .bool
    | "Null" => if v matches .null then some .null else none
    | _ => none
  | _ => none

/-- An import. -/
def Import.decode : Nat → Json → Option Import
  | levels + 1, .object fs => do
    let path ← required fs "path" (Json.asStrings levels)
    let localName ← optional fs "alias" asString
    return ⟨path, localName⟩
  | _, _ => none

/-- A generic parameter. -/
def GenericParam.decode : Nat → Json → Option GenericParam
  | levels + 1, .object fs => do
    let name ← required fs "name" asString
    let constraints ← defaulted fs "constraints" [] (TypeRef.decodeAll levels)
    return ⟨name, constraints⟩
  | _, _ => none

/-- A list of generic parameters. -/
def GenericParam.decodeAll (levels : Nat) (v : Json) : Option (List GenericParam) :=
  items levels (GenericParam.decode (levels - 1)) v

/-- A type alias. -/
def Alias.decode : Nat → Json → Option Alias
  | levels + 1, .object fs => do
    let name ← required fs "name" asString
    let generics ← defaulted fs "generics" [] (GenericParam.decodeAll levels)
    let target ← required fs "target" (TypeRef.decode levels)
    return ⟨name, generics, target⟩
  | _, _ => none

/-- A raw block. -/
def RawBlock.decode : Nat → Json → Option RawBlock
  | _ + 1, .object fs => do
    let target ← optional fs "target" asString
    let code ← required fs "code" asString
    return ⟨target, code⟩
  | _, _ => none

/-! ### The mutual family -/

mutual

/-- A statement. -/
def Stmt.decode : Nat → Json → Option Stmt
  | _, .string "Break" => some .breakLoop
  | _, .string "Continue" => some .continueLoop
  | levels + 1, .object [(tag, v)] =>
    match tag with
    | "Import" => (Import.decode levels v).map .importDecl
    | "Include" => Stmt.decodeInclude levels v
    | "TypeAlias" => (Alias.decode levels v).map .aliasDecl
    | "Namespace" => Stmt.decodeNamespace levels v
    | "Class" => (TypeDecl.decode levels v).map (.typeDecl .cls)
    | "Struct" => (TypeDecl.decode levels v).map (.typeDecl .struct)
    | "Interface" => (TypeDecl.decode levels v).map (.typeDecl .interface)
    | "Enum" => (EnumDecl.decode levels v).map .enumDecl
    | "Module" => (ModuleDecl.decode levels v).map .moduleDecl
    | "Function" => (Function.decode levels v).map (.functionDecl .function)
    | "Method" => (Function.decode levels v).map (.functionDecl .method)
    | "Field" => (Field.decode levels v).map .fieldDecl
    | "Property" => (Property.decode levels v).map .propertyDecl
    | "Variable" => (Binding.decode levels v).map .binding
    | "If" => Stmt.decodeIf levels v
    | "While" => Stmt.decodeWhile levels v
    | "For" => Stmt.decodeFor levels v
    | "Return" => (Json.nullable (Expr.decode levels) v).map .ret
    | "Break" => if v matches .null then some .breakLoop else none
    | "Continue" => if v matches .null then some .continueLoop else none
    | "Match" => Stmt.decodeMatch levels v
    | "Switch" => Stmt.decodeSwitch levels v
    | "Expression" => (Expr.decode levels v).map .expr
    | "Raw" => (RawBlock.decode levels v).map .raw
    | _ => none
  | _, _ => none

/-- A block of statements. -/
def Stmt.decodeAll : Nat → Json → Option (List Stmt)
  | levels + 1, .array vs => vs.mapM (Stmt.decode levels)
  | _, _ => none

/-- The data of an include. -/
def Stmt.decodeInclude : Nat → Json → Option Stmt
  | levels + 1, .object fs => do
    let path ← required fs "path" asString
    let stmts ← required fs "program" (Stmt.decodeUnit levels)
    return .includeDecl path stmts
  | _, _ => none

/-- The statements of a program. -/
def Stmt.decodeUnit : Nat → Json → Option (List Stmt)
  | levels + 1, .object fs => required fs "statements" (Stmt.decodeAll levels)
  | _, _ => none

/-- The data of a namespace. -/
def Stmt.decodeNamespace : Nat → Json → Option Stmt
  | levels + 1, .object fs => do
    let name ← required fs "name" asString
    let members ← required fs "members" (Stmt.decodeAll levels)
    return .namespaceDecl name members
  | _, _ => none

/-- The data of an `if`. -/
def Stmt.decodeIf : Nat → Json → Option Stmt
  | levels + 1, .object fs => do
    let condition ← required fs "condition" (Expr.decode levels)
    let thenBranch ← required fs "then_branch" (Stmt.decodeAll levels)
    let elseBranch ← optional fs "else_branch" (Stmt.decodeAll levels)
    return .ifThen condition thenBranch elseBranch
  | _, _ => none

/-- The data of a `while`. -/
def Stmt.decodeWhile : Nat → Json → Option Stmt
  | levels + 1, .object fs => do
    let condition ← required fs "condition" (Expr.decode levels)
    let body ← required fs "body" (Stmt.decodeAll levels)
    return .whileLoop condition body
  | _, _ => none

/-- The data of a `for`: the header makes the statement once the body is known. -/
def Stmt.decodeFor : Nat → Json → Option Stmt
  | levels + 1, .object fs => do
    let header ← required fs "kind" (Stmt.decodeForHeader levels)
    let body ← required fs "body" (Stmt.decodeAll levels)
    return header body
  | _, _ => none

/-- The header of a `for`, either shape. -/
def Stmt.decodeForHeader : Nat → Json → Option (List Stmt → Stmt)
  | levels + 1, .object [(tag, v)] =>
    match tag with
    | "CStyle" => Stmt.decodeCounted levels v
    | "Iteration" => Stmt.decodeIteration levels v
    | _ => none
  | _, _ => none

/-- The header of a counted `for`. -/
def Stmt.decodeCounted : Nat → Json → Option (List Stmt → Stmt)
  | levels + 1, .object fs => do
    let start ← optional fs "init" (Stmt.decode levels)
    let condition ← optional fs "condition" (Expr.decode levels)
    let step ← optional fs "increment" (Expr.decode levels)
    return .forLoop start condition step
  | _, _ => none

/-- The header of an iteration. -/
def Stmt.decodeIteration : Nat → Json → Option (List Stmt → Stmt)
  | levels + 1, .object fs => do
    let name ← required fs "variable" asString
    let type ← optional fs "variable_type" (TypeRef.decode levels)
    let iterable ← required fs "iterable" (Expr.decode levels)
    return .forEach name type iterable
  | _, _ => none

/-- The data of a match statement. -/
def Stmt.decodeMatch : Nat → Json → Option Stmt
  | levels + 1, .object fs => do
    let scrutinee ← required fs "scrutinee" (Expr.decode levels)
    let arms ← required fs "arms" (MatchArm.decodeAll levels)
    return .matchOn scrutinee arms
  | _, _ => none

/-- The data of a switch. -/
def Stmt.decodeSwitch : Nat → Json → Option Stmt
  | levels + 1, .object fs => do
    let subject ← required fs "subject" (Expr.decode levels)
    let cases ← required fs "cases" (SwitchCase.decodeAll levels)
    return .switchOn subject cases
  | _, _ => none

/-- An expression. -/
def Expr.decode : Nat → Json → Option Expr
  | _, .string "This" => some .this
  | levels + 1, .object [(tag, v)] =>
    match tag with
    | "Literal" => (Literal.decode levels v).map .literal
    | "Identifier" => (asString v).map .ident
    | "QualifiedIdentifier" => (Json.asStrings levels v).map .path
    | "Block" => (Stmt.decodeAll levels v).map .block
    | "This" => if v matches .null then some .this else none
    | _ => Expr.decodeRecord levels tag v
  | _, _ => none

/-- The data of an expression with named parts. -/
def Expr.decodeRecord : Nat → String → Json → Option Expr
  | levels + 1, tag, .object fs =>
    match tag with
    | "MemberAccess" => do
      let object ← required fs "object" (Expr.decode levels)
      let name ← required fs "member" asString
      return .member object name
    | "IndexAccess" => do
      let object ← required fs "object" (Expr.decode levels)
      let i ← required fs "index" (Expr.decode levels)
      return .index object i
    | "Binary" => do
      let left ← required fs "left" (Expr.decode levels)
      let op ← required fs "op" (unitTag levels Token.ofName?)
      let right ← required fs "right" (Expr.decode levels)
      return .binary left op right
    | "Unary" => do
      let op ← required fs "op" (unitTag levels Token.ofName?)
      let operand ← required fs "operand" (Expr.decode levels)
      let trailing ← defaulted fs "postfix" false asBool
      return .unary op operand trailing
    | "Assignment" => do
      let target ← required fs "target" (Expr.decode levels)
      let op ← required fs "op" (unitTag levels Token.ofName?)
      let value ← required fs "value" (Expr.decode levels)
      return .assign target op value
    | "Call" => do
      let callee ← required fs "callee" (Expr.decode levels)
      let args ← required fs "args" (Expr.decodeAll levels)
      return .call callee args
    | "ConstructorCall" => do
      let type ← required fs "ty" (TypeRef.decode levels)
      let args ← required fs "args" (Expr.decodeAll levels)
      return .construct type args
    | "ArrayLiteral" => do
      let elements ← required fs "elements" (Expr.decodeAll levels)
      let elementType ← optional fs "element_type" (TypeRef.decode levels)
      return .array elements elementType
    | "Lambda" => do
      let params ← required fs "params" (Parameter.decodeAll levels)
      let body ← required fs "body" (Body.decode levels)
      return .lambda params body
    | "Range" => do
      let start ← optional fs "start" (Expr.decode levels)
      let stop ← optional fs "end" (Expr.decode levels)
      let inclusive ← defaulted fs "inclusive" false asBool
      return .range start stop inclusive
    | "Match" => do
      let scrutinee ← required fs "scrutinee" (Expr.decode levels)
      let arms ← required fs "arms" (MatchArm.decodeAll levels)
      return .matchOn scrutinee arms
    | _ => none
  | _, _, _ => none

/-- A list of expressions. -/
def Expr.decodeAll : Nat → Json → Option (List Expr)
  | levels + 1, .array vs => vs.mapM (Expr.decode levels)
  | _, _ => none

/-- An expression or a block. -/
def Body.decode : Nat → Json → Option Body
  | levels + 1, .object [(tag, v)] =>
    match tag with
    | "Expression" => (Expr.decode levels v).map .expr
    | "Block" => (Stmt.decodeAll levels v).map .block
    | _ => none
  | _, _ => none

/-- A pattern. -/
def Pattern.decode : Nat → Json → Option Pattern
  | _, .string "Default" => some .default
  | levels + 1, .object [(tag, v)] =>
    match tag with
    | "Default" => if v matches .null then some .default else none
    | "Values" => (Expr.decodeAll levels v).map .values
    | _ => none
  | _, _ => none

/-- The arms of a match. -/
def MatchArm.decodeAll : Nat → Json → Option (List MatchArm)
  | levels + 1, .array vs => vs.mapM (MatchArm.decode levels)
  | _, _ => none

/-- One arm of a match. -/
def MatchArm.decode : Nat → Json → Option MatchArm
  | levels + 1, .object fs => do
    let pattern ← required fs "pattern" (Pattern.decode levels)
    let result ← required fs "result" (Body.decode levels)
    return ⟨pattern, result⟩
  | _, _ => none

/-- The cases of a switch. -/
def SwitchCase.decodeAll : Nat → Json → Option (List SwitchCase)
  | levels + 1, .array vs => vs.mapM (SwitchCase.decode levels)
  | _, _ => none

/-- One case of a switch. -/
def SwitchCase.decode : Nat → Json → Option SwitchCase
  | levels + 1, .object fs => do
    let pattern ← required fs "pattern" (Pattern.decode levels)
    let body ← required fs "body" (Stmt.decodeAll levels)
    return ⟨pattern, body⟩
  | _, _ => none

/-- The attributes of a declaration. -/
def Attribute.decodeAll : Nat → Json → Option (List Attribute)
  | levels + 1, .array vs => vs.mapM (Attribute.decode levels)
  | _, _ => none

/-- One attribute. -/
def Attribute.decode : Nat → Json → Option Attribute
  | levels + 1, .object fs => do
    let name ← required fs "name" asString
    let args ← defaulted fs "args" [] (Expr.decodeAll levels)
    return ⟨name, args⟩
  | _, _ => none

/-- The parameters of a callable. -/
def Parameter.decodeAll : Nat → Json → Option (List Parameter)
  | levels + 1, .array vs => vs.mapM (Parameter.decode levels)
  | _, _ => none

/-- One parameter. -/
def Parameter.decode : Nat → Json → Option Parameter
  | levels + 1, .object fs => do
    let name ← required fs "name" asString
    let type ← optional fs "ty" (TypeRef.decode levels)
    let default ← optional fs "default" (Expr.decode levels)
    return ⟨name, type, default⟩
  | _, _ => none

/-- A class, struct or interface. -/
def TypeDecl.decode : Nat → Json → Option TypeDecl
  | levels + 1, .object fs => do
    let name ← defaulted fs "name" "" asString
    let modifiers ← defaulted fs "modifiers" [] (Modifier.decodeAll levels)
    let attributes ← defaulted fs "attributes" [] (Attribute.decodeAll levels)
    let generics ← defaulted fs "generics" [] (GenericParam.decodeAll levels)
    let base ← optional fs "base" (TypeRef.decode levels)
    let interfaces ← defaulted fs "interfaces" [] (TypeRef.decodeAll levels)
    let members ← defaulted fs "members" [] (Stmt.decodeAll levels)
    return ⟨name, modifiers, attributes, generics, base, interfaces, members⟩
  | _, _ => none

/-- The variants of an enum. -/
def EnumVariant.decodeAll : Nat → Json → Option (List EnumVariant)
  | levels + 1, .array vs => vs.mapM (EnumVariant.decode levels)
  | _, _ => none

/-- One variant of an enum. -/
def EnumVariant.decode : Nat → Json → Option EnumVariant
  | levels + 1, .object fs => do
    let name ← required fs "name" asString
    let value ← optional fs "value" (Expr.decode levels)
    return ⟨name, value⟩
  | _, _ => none

/-- An enum. -/
def EnumDecl.decode : Nat → Json → Option EnumDecl
  | levels + 1, .object fs => do
    let name ← defaulted fs "name" "" asString
    let modifiers ← defaulted fs "modifiers" [] (Modifier.decodeAll levels)
    let attributes ← defaulted fs "attributes" [] (Attribute.decodeAll levels)
    let variants ← defaulted fs "variants" [] (EnumVariant.decodeAll levels)
    return ⟨name, modifiers, attributes, variants⟩
  | _, _ => none

/-- A module. -/
def ModuleDecl.decode : Nat → Json → Option ModuleDecl
  | levels + 1, .object fs => do
    let name ← defaulted fs "name" "" asString
    let modifiers ← defaulted fs "modifiers" [] (Modifier.decodeAll levels)
    let attributes ← defaulted fs "attributes" [] (Attribute.decodeAll levels)
    let members ← defaulted fs "members" [] (Stmt.decodeAll levels)
    return ⟨name, modifiers, attributes, members⟩
  | _, _ => none

/-- A callable. -/
def Function.decode : Nat → Json → Option Function
  | levels + 1, .object fs => do
    let name ← defaulted fs "name" "" asString
    let params ← defaulted fs "params" [] (Parameter.decodeAll levels)
    let returnType ← optional fs "return_type" (TypeRef.decode levels)
    let generics ← defaulted fs "generics" [] (GenericParam.decodeAll levels)
    let modifiers ← defaulted fs "modifiers" [] (Modifier.decodeAll levels)
    let attributes ← defaulted fs "attributes" [] (Attribute.decodeAll levels)
    let body ← optional fs "body" (Stmt.decodeAll levels)
    let isConstructor ← defaulted fs "is_constructor" false asBool
    let isStatic ← defaulted fs "is_static" false asBool
    return ⟨name, params, returnType, generics, modifiers, attributes, body, isConstructor,
      isStatic⟩
  | _, _ => none

/-- A field. -/
def Field.decode : Nat → Json → Option Field
  | levels + 1, .object fs => do
    let name ← defaulted fs "name" "" asString
    let type ← optional fs "ty" (TypeRef.decode levels)
    let modifiers ← defaulted fs "modifiers" [] (Modifier.decodeAll levels)
    let attributes ← defaulted fs "attributes" [] (Attribute.decodeAll levels)
    let initializer ← optional fs "initializer" (Expr.decode levels)
    return ⟨name, type, modifiers, attributes, initializer⟩
  | _, _ => none

/-- The accessors of a property. -/
def Accessor.decodeAll : Nat → Json → Option (List Accessor)
  | levels + 1, .array vs => vs.mapM (Accessor.decode levels)
  | _, _ => none

/-- One accessor. -/
def Accessor.decode : Nat → Json → Option Accessor
  | levels + 1, .object fs => do
    let kind ← required fs "kind" (unitTag levels AccessorKind.ofWord?)
    let modifiers ← defaulted fs "modifiers" [] (Modifier.decodeAll levels)
    let body ← optional fs "body" (Stmt.decodeAll levels)
    return ⟨kind, modifiers, body⟩
  | _, _ => none

/-- A property. -/
def Property.decode : Nat → Json → Option Property
  | levels + 1, .object fs => do
    let name ← defaulted fs "name" "" asString
    let type ← optional fs "ty" (TypeRef.decode levels)
    let modifiers ← defaulted fs "modifiers" [] (Modifier.decodeAll levels)
    let attributes ← defaulted fs "attributes" [] (Attribute.decodeAll levels)
    let accessors ← defaulted fs "accessors" [] (Accessor.decodeAll levels)
    let initializer ← optional fs "initializer" (Expr.decode levels)
    return ⟨name, type, modifiers, attributes, accessors, initializer⟩
  | _, _ => none

/-- A variable. -/
def Binding.decode : Nat → Json → Option Binding
  | levels + 1, .object fs => do
    let name ← required fs "name" asString
    let type ← optional fs "ty" (TypeRef.decode levels)
    let value ← optional fs "value" (Expr.decode levels)
    let mutability ← defaulted fs "kind" .immutable (unitTag levels Mutability.ofWord?)
    return ⟨name, type, value, mutability⟩
  | _, _ => none

end

/-! ### Programs -/

/-- A program whose form opens at most `levels` arrays and objects inside each other. -/
def Program.decodeWithin (levels : Nat) (v : Json) : Option Program :=
  (Stmt.decodeUnit levels v).map Program.mk

/-- A program of any depth. -/
def Program.decode (v : Json) : Option Program :=
  Program.decodeWithin v.depth v

end SourceGen
