import SourceGen.Text.Basic
import SourceGen.Tree.Word

/-!
# Properties of declarations

Names for the kinds of statements, and simple questions about declarations.
-/

namespace SourceGen

namespace Stmt

/-- A short name for the kind of a statement. -/
def kindName : Stmt → String
  | .importDecl _ => "import"
  | .includeDecl _ _ => "include"
  | .aliasDecl _ => "type alias"
  | .namespaceDecl _ _ => "namespace"
  | .typeDecl .cls _ => "class"
  | .typeDecl .struct _ => "struct"
  | .typeDecl .interface _ => "interface"
  | .enumDecl _ => "enum"
  | .moduleDecl _ => "module"
  | .functionDecl .function _ => "function"
  | .functionDecl .method _ => "method"
  | .fieldDecl _ => "field"
  | .propertyDecl _ => "property"
  | .binding _ => "variable"
  | .ifThen _ _ _ => "if"
  | .whileLoop _ _ => "while"
  | .forLoop _ _ _ _ | .forEach _ _ _ _ => "for"
  | .ret _ => "return"
  | .breakLoop => "break"
  | .continueLoop => "continue"
  | .matchOn _ _ => "match"
  | .switchOn _ _ => "switch"
  | .expr _ => "expression"
  | .raw _ => "raw block"

/-- The statement declares a named type. -/
def isTypeDeclaration : Stmt → Bool
  | .typeDecl _ _ | .enumDecl _ => true
  | _ => false

end Stmt

/-- The modifier says who may use the declaration. -/
def Modifier.isAccess : Modifier → Bool
  | .publicAccess | .privateAccess | .protectedAccess | .internalAccess => true
  | _ => false

/-- The name of the callable is a path, so it refers to something outside the program. -/
def Function.isQualified (f : Function) : Bool :=
  Text.hasChar '.' f.name

/-- The callable has the modifier. -/
def Function.hasModifier (f : Function) (m : Modifier) : Bool :=
  f.modifiers.contains m

/-- No accessor has a body. -/
def Property.isAuto (p : Property) : Bool :=
  p.accessors.all (·.body.isNone)

end SourceGen
