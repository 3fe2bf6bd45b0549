import SourceGen.Json.Basic
import SourceGen.Tree.Word

/-!
# Trees as JSON

Every tree has one JSON form. A constructor with data is an object with one field named after it,
a constructor without data is a string, and all fields of a record are written, also those that
have their default.

## Main definitions

* `Program.encode`: the JSON form of a program.
* `Stmt.encode`, `Expr.encode`, …: the forms of the parts.
-/

namespace SourceGen

namespace Json

/-- A constructor with data: an object with the one field `tag`. -/
def tagged (tag : String) (payload : Json) : Json :=
  .object [(tag, payload)]

/-- An optional value; absence is `null`. -/
def ofOption : Option Json → Json
  | none => .null
  | some v => v

/-- A list of strings. -/
def strings (ss : List String) : Json :=
  .array (ss.map .string)

end Json

/-! ### Leaves -/

mutual

/-- The JSON form of a type reference. -/
def TypeRef.encode : TypeRef → Json
  | ⟨name, args⟩ => .object [("name", .string name), ("args", .array (TypeRef.encodeAll args))]

/-- The forms of a list of references. -/
def TypeRef.encodeAll : List TypeRef → List Json
  | [] => []
  | t :: ts => t.encode :: TypeRef.encodeAll ts

end

/-- The form of an optional reference. -/
def TypeRef.encodeOption (t : Option TypeRef) : Json :=
  .ofOption (t.map TypeRef.encode)

/-- The form of a literal. -/
def Literal.encode : Literal → Json
  | .number text => .tagged "Number" (.string text)
  | .string value => .tagged "String" (.string value)
  | .char value => .tagged "Char" (.string value.toString)
  | .bool value => .tagged "Bool" (.bool value)
  | .null => .string "Null"

/-- The form of an import. -/
def Import.encode (d : Import) : Json :=
  .object [("path", .strings d.path), ("alias", .ofOption (d.localName.map .string))]

/-- The form of a generic parameter. -/
def GenericParam.encode (g : GenericParam) : Json :=
  .object [("name", .string g.name), ("constraints", .array (TypeRef.encodeAll g.constraints))]

/-- The form of a type alias. -/
def Alias.encode (d : Alias) : Json :=
  .object [("name", .string d.name), ("generics", .array (d.generics.map GenericParam.encode)),
    ("target", d.target.encode)]

/-- The form of a raw block. -/
def RawBlock.encode (b : RawBlock) : Json :=
  .object [("target", .ofOption (b.target.map .string)), ("code", .string b.code)]

/-- The form of a list of modifiers. -/
def Modifier.encodeAll (ms : List Modifier) : Json :=
  .strings (ms.map Modifier.word)

/-- The tag of a type declaration. -/
def TypeKind.tag : TypeKind → String
  | .cls => "Class"
  | .struct => "Struct"
  | .interface => "Interface"

/-- The tag of a callable. -/
def FunctionKind.tag : FunctionKind → String
  | .function => "Function"
  | .method => "Method"

/-! ### The mutual family -/

mutual

/-- The form of a statement. -/
def Stmt.encode : Stmt → Json
  | .importDecl d => .tagged "Import" d.encode
  | .includeDecl path stmts =>
    .tagged "Include" (.object [("path", .string path),
      ("program", .object [("statements", .array (Stmt.encodeAll stmts))])])
  | .aliasDecl d => .tagged "TypeAlias" d.encode
  | .namespaceDecl name members =>
    .tagged "Namespace" (.object [("name", .string name),
      ("members", .array (Stmt.encodeAll members))])
  | .typeDecl kind d => .tagged kind.tag d.encode
  | .enumDecl d => .tagged "Enum" d.encode
  | .moduleDecl d => .tagged "Module" d.encode
  | .functionDecl kind d => .tagged kind.tag d.encode
  | .fieldDecl d => .tagged "Field" d.encode
  | .propertyDecl d => .tagged "Property" d.encode
  | .binding d => .tagged "Variable" d.encode
  | .ifThen c t e =>
    .tagged "If" (.object [("condition", c.encode), ("then_branch", .array (Stmt.encodeAll t)),
      ("else_branch", Stmt.encodeBlock e)])
  | .whileLoop c body =>
    .tagged "While" (.object [("condition", c.encode), ("body", .array (Stmt.encodeAll body))])
  | .forLoop start condition step body =>
    .tagged "For" (.object [("kind", .tagged "CStyle" (.object [("init", Stmt.encodeOption start),
        ("condition", Expr.encodeOption condition), ("increment", Expr.encodeOption step)])),
      ("body", .array (Stmt.encodeAll body))])
  | .forEach name type iterable body =>
    .tagged "For" (.object [("kind", .tagged "Iteration" (.object [("variable", .string name),
        ("variable_type", TypeRef.encodeOption type), ("iterable", iterable.encode)])),
      ("body", .array (Stmt.encodeAll body))])
  | .ret value => .tagged "Return" (Expr.encodeOption value)
  | .breakLoop => .string "Break"
  | .continueLoop => .string "Continue"
  | .matchOn scrutinee arms =>
    .tagged "Match" (.object [("scrutinee", scrutinee.encode),
      ("arms", .array (MatchArm.encodeAll arms))])
  | .switchOn subject cases =>
    .tagged "Switch" (.object [("subject", subject.encode),
      ("cases", .array (SwitchCase.encodeAll cases))])
  | .expr value => .tagged "Expression" value.encode
  | .raw block => .tagged "Raw" block.encode

/-- The forms of a list of statements. -/
def Stmt.encodeAll : List Stmt → List Json
  | [] => []
  | s :: ss => s.encode :: Stmt.encodeAll ss

/-- The form of an optional statement. -/
def Stmt.encodeOption : Option Stmt → Json
  | none => .null
  | some s => s.encode

/-- The form of an optional block. -/
def Stmt.encodeBlock : Option (List Stmt) → Json
  | none => .null
  | some ss => .array (Stmt.encodeAll ss)

/-- The form of an expression. -/
def Expr.encode : Expr → Json
  | .literal value => .tagged "Literal" value.encode
  | .ident name => .tagged "Identifier" (.string name)
  | .path parts => .tagged "QualifiedIdentifier" (.strings parts)
  | .member object name =>
    .tagged "MemberAccess" (.object [("object", object.encode), ("member", .string name)])
  | .index object i =>
    .tagged "IndexAccess" (.object [("object", object.encode), ("index", i.encode)])
  | .binary left op right =>
    .tagged "Binary" (.object [("left", left.encode), ("op", .string op.name),
      ("right", right.encode)])
  | .unary op operand trailing =>
    .tagged "Unary" (.object [("op", .string op.name), ("operand", operand.encode),
      ("postfix", .bool trailing)])
  | .assign target op value =>
    .tagged "Assignment" (.object [("target", target.encode), ("op", .string op.name),
      ("value", value.encode)])
  | .call callee args =>
    .tagged "Call" (.object [("callee", callee.encode), ("args", .array (Expr.encodeAll args))])
  | .construct type args =>
    .tagged "ConstructorCall" (.object [("ty", type.encode),
      ("args", .array (Expr.encodeAll args))])
  | .array elements elementType =>
    .tagged "ArrayLiteral" (.object [("elements", .array (Expr.encodeAll elements)),
      ("element_type", TypeRef.encodeOption elementType)])
  | .lambda params body =>
    .tagged "Lambda" (.object [("params", .array (Parameter.encodeAll params)),
      ("body", body.encode)])
  | .range start stop inclusive =>
    .tagged "Range" (.object [("start", Expr.encodeOption start),
      ("end", Expr.encodeOption stop), ("inclusive", .bool inclusive)])
  | .block stmts => .tagged "Block" (.array (Stmt.encodeAll stmts))
  | .matchOn scrutinee arms =>
    .tagged "Match" (.object [("scrutinee", scrutinee.encode),
      ("arms", .array (MatchArm.encodeAll arms))])
  | .this => .string "This"

/-- The forms of a list of expressions. -/
def Expr.encodeAll : List Expr → List Json
  | [] => []
  | e :: es => e.encode :: Expr.encodeAll es

/-- The form of an optional expression. -/
def Expr.encodeOption : Option Expr → Json
  | none => .null
  | some e => e.encode

/-- The form of an expression-or-block. -/
def Body.encode : Body → Json
  | .expr value => .tagged "Expression" value.encode
  | .block stmts => .tagged "Block" (.array (Stmt.encodeAll stmts))

/-- The form of a pattern. -/
def Pattern.encode : Pattern → Json
  | .default => .string "Default"
  | .values values => .tagged "Values" (.array (Expr.encodeAll values))

/-- The forms of the arms of a match. -/
def MatchArm.encodeAll : List MatchArm → List Json
  | [] => []
  | ⟨pattern, result⟩ :: arms =>
    .object [("pattern", pattern.encode), ("result", result.encode)] :: MatchArm.encodeAll arms

/-- The forms of the cases of a switch. -/
def SwitchCase.encodeAll : List SwitchCase → List Json
  | [] => []
  | ⟨pattern, body⟩ :: cases =>
    .object [("pattern", pattern.encode), ("body", .array (Stmt.encodeAll body))] ::
      SwitchCase.encodeAll cases

/-- The forms of attributes. -/
def Attribute.encodeAll : List Attribute → List Json
  | [] => []
  | ⟨name, args⟩ :: attributes =>
    .object [("name", .string name), ("args", .array (Expr.encodeAll args))] ::
      Attribute.encodeAll attributes

/-- The forms of parameters. -/
def Parameter.encodeAll : List Parameter → List Json
  | [] => []
  | ⟨name, type, default⟩ :: params =>
    .object [("name", .string name), ("ty", TypeRef.encodeOption type),
      ("default", Expr.encodeOption default)] :: Parameter.encodeAll params

/-- The form of a class, struct or interface. -/
def TypeDecl.encode : TypeDecl → Json
  | ⟨name, modifiers, attributes, generics, base, interfaces, members⟩ =>
    .object [("name", .string name), ("modifiers", Modifier.encodeAll modifiers),
      ("attributes", .array (Attribute.encodeAll attributes)),
      ("generics", .array (generics.map GenericParam.encode)),
      ("base", TypeRef.encodeOption base),
      ("interfaces", .array (TypeRef.encodeAll interfaces)),
      ("members", .array (Stmt.encodeAll members))]

/-- The forms of the variants of an enum. -/
def EnumVariant.encodeAll : List EnumVariant → List Json
  | [] => []
  | ⟨name, value⟩ :: variants =>
    .object [("name", .string name), ("value", Expr.encodeOption value)] ::
      EnumVariant.encodeAll variants

/-- The form of an enum. -/
def EnumDecl.encode : EnumDecl → Json
  | ⟨name, modifiers, attributes, variants⟩ =>
    .object [("name", .string name), ("modifiers", Modifier.encodeAll modifiers),
      ("attributes", .array (Attribute.encodeAll attributes)),
      ("variants", .array (EnumVariant.encodeAll variants))]

/-- The form of a module. -/
def ModuleDecl.encode : ModuleDecl → Json
  | ⟨name, modifiers, attributes, members⟩ =>
    .object [("name", .string name), ("modifiers", Modifier.encodeAll modifiers),
      ("attributes", .array (Attribute.encodeAll attributes)),
      ("members", .array (Stmt.encodeAll members))]

/-- The form of a callable. -/
def Function.encode : Function → Json
  | ⟨name, params, returnType, generics, modifiers, attributes, body, isConstructor, isStatic⟩ =>
    .object [("name", .string name), ("params", .array (Parameter.encodeAll params)),
      ("return_type", TypeRef.encodeOption returnType),
      ("generics", .array (generics.map GenericParam.encode)),
      ("modifiers", Modifier.encodeAll modifiers),
      ("attributes", .array (Attribute.encodeAll attributes)),
      ("body", Stmt.encodeBlock body), ("is_constructor", .bool isConstructor),
      ("is_static", .bool isStatic)]

/-- The form of a field. -/
def Field.encode : Field → Json
  | ⟨name, type, modifiers, attributes, initializer⟩ =>
    .object [("name", .string name), ("ty", TypeRef.encodeOption type),
      ("modifiers", Modifier.encodeAll modifiers),
      ("attributes", .array (Attribute.encodeAll attributes)),
      ("initializer", Expr.encodeOption initializer)]

/-- The forms of the accessors of a property. -/
def Accessor.encodeAll : List Accessor → List Json
  | [] => []
  | ⟨kind, modifiers, body⟩ :: accessors =>
    .object [("kind", .string kind.word), ("modifiers", Modifier.encodeAll modifiers),
      ("body", Stmt.encodeBlock body)] :: Accessor.encodeAll accessors

/-- The form of a property. -/
def Property.encode : Property → Json
  | ⟨name, type, modifiers, attributes, accessors, initializer⟩ =>
    .object [("name", .string name), ("ty", TypeRef.encodeOption type),
      ("modifiers", Modifier.encodeAll modifiers),
      ("attributes", .array (Attribute.encodeAll attributes)),
      ("accessors", .array (Accessor.encodeAll accessors)),
      ("initializer", Expr.encodeOption initializer)]

/-- The form of a variable. -/
def Binding.encode : Binding → Json
  | ⟨name, type, value, mutability⟩ =>
    .object [("name", .string name), ("ty", TypeRef.encodeOption type),
      ("value", Expr.encodeOption value), ("kind", .string mutability.word)]

end

/-- The form of a program. -/
def Program.encode (p : Program) : Json :=
  .object [("statements", .array (Stmt.encodeAll p.stmts))]

end SourceGen
