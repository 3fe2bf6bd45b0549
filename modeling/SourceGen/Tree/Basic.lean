import SourceGen.Token
import SourceGen.TypeRef.Basic

/-!
# Source trees

The tree of one compilation unit: statements, expressions and declarations in one mutual family.
A tree is built once by a parser and never changed. Shapes that exclude each other are different
constructors: a `for` is either counted or an iteration, and an arm or a lambda holds either one
expression or a block.

## Main definitions

* `Stmt`, `Expr`: statements and expressions.
* `TypeDecl`, `EnumDecl`, `ModuleDecl`, `Function`, `Field`, `Property`: declarations.
* `Program`: the statements of one unit.
-/

namespace SourceGen

/-! ### Leaves -/

/-- A word in front of a declaration. -/
inductive Modifier where
  | publicAccess | privateAccess | protectedAccess | internalAccess
  | static | abstract | virtual | override | readonly | const | async | sealed
  deriving DecidableEq, Repr

/-- What a property accessor does. -/
inductive AccessorKind where
  | get | set | init
  deriving DecidableEq, Repr

/-- Whether a name can be assigned again, and if not, whether its value is a constant. -/
inductive Mutability where
  | immutable | mutable | constant
  deriving DecidableEq, Repr

/-- The three kinds of declared type that have members. -/
inductive TypeKind where
  | cls | struct | interface
  deriving DecidableEq, Repr

/-- Whether a callable was declared as a free function or as a method. -/
inductive FunctionKind where
  | function | method
  deriving DecidableEq, Repr

/-- A literal; the text of a number is kept as written. -/
inductive Literal where
  | number (text : String)
  | string (value : String)
  | char (value : Char)
  | bool (value : Bool)
  | null
  deriving DecidableEq, Repr

/-- An import of a module path, possibly under another name. -/
structure Import where
  path : List String
  localName : Option String := none
  deriving DecidableEq, Repr

/-- A generic parameter with the types that bound it. -/
structure GenericParam where
  name : String
  constraints : List TypeRef := []
  deriving DecidableEq, Repr

/-- Another name for a type. -/
structure Alias where
  name : String
  generics : List GenericParam := []
  target : TypeRef
  deriving DecidableEq, Repr

/-- Target text that is passed through; without a target it is meant for every target. -/
structure RawBlock where
  target : Option String := none
  code : String
  deriving DecidableEq, Repr

/-! ### The mutual family -/

mutual

/-- A statement or declaration. -/
inductive Stmt where
  | importDecl (decl : Import)
  | includeDecl (path : String) (stmts : List Stmt)
  | aliasDecl (decl : Alias)
  | namespaceDecl (name : String) (members : List Stmt)
  | typeDecl (kind : TypeKind) (decl : TypeDecl)
  | enumDecl (decl : EnumDecl)
  | moduleDecl (decl : ModuleDecl)
  | functionDecl (kind : FunctionKind) (decl : Function)
  | fieldDecl (decl : Field)
  | propertyDecl (decl : Property)
  | binding (decl : Binding)
  | ifThen (condition : Expr) (thenBranch : List Stmt) (elseBranch : Option (List Stmt))
  | whileLoop (condition : Expr) (body : List Stmt)
  | forLoop (start : Option Stmt) (condition : Option Expr) (step : Option Expr)
      (body : List Stmt)
  | forEach (name : String) (type : Option TypeRef) (iterable : Expr) (body : List Stmt)
  | ret (value : Option Expr)
  | breakLoop
  | continueLoop
  | matchOn (scrutinee : Expr) (arms : List MatchArm)
  | switchOn (subject : Expr) (cases : List SwitchCase)
  | expr (value : Expr)
  | raw (block : RawBlock)

/-- An expression. -/
inductive Expr where
  | literal (value : Literal)
  | ident (name : String)
  | path (parts : List String)
  | member (object : Expr) (name : String)
  | index (object : Expr) (at_ : Expr)
  | binary (left : Expr) (op : Token) (right : Expr)
  | unary (op : Token) (operand : Expr) (trailing : Bool)
  | assign (target : Expr) (op : Token) (value : Expr)
  | call (callee : Expr) (args : List Expr)
  | construct (type : TypeRef) (args : List Expr)
  | array (elements : List Expr) (elementType : Option TypeRef)
  | lambda (params : List Parameter) (body : Body)
  | range (start : Option Expr) (stop : Option Expr) (inclusive : Bool)
  | block (stmts : List Stmt)
  | matchOn (scrutinee : Expr) (arms : List MatchArm)
  | this

/-- What an arm or a lambda yields: one expression or a block. -/
inductive Body where
  | expr (value : Expr)
  | block (stmts : List Stmt)

/-- What selects an arm or a case: anything, or one of some values. -/
inductive Pattern where
  | default
  | values (values : List Expr)

/-- One arm of a match. -/
structure MatchArm where
  pattern : Pattern
  result : Body

/-- One case of a switch. -/
structure SwitchCase where
  pattern : Pattern
  body : List Stmt

/-- An attribute on a declaration. -/
structure Attribute where
  name : String
  args : List Expr

/-- A parameter of a function or lambda. -/
structure Parameter where
  name : String
  type : Option TypeRef
  default : Option Expr

/-- A class, struct or interface. -/
structure TypeDecl where
  name : String
  modifiers : List Modifier
  attributes : List Attribute
  generics : List GenericParam
  base : Option TypeRef
  interfaces : List TypeRef
  members : List Stmt

/-- One variant of an enum. -/
structure EnumVariant where
  name : String
  value : Option Expr

/-- An enum. -/
structure EnumDecl where
  name : String
  modifiers : List Modifier
  attributes : List Attribute
  variants : List EnumVariant

/-- A module: a named group of static members. -/
structure ModuleDecl where
  name : String
  modifiers : List Modifier
  attributes : List Attribute
  members : List Stmt

/-- A function, method or constructor; a declaration without a body has `body = none`. A dotted
name refers to something outside the program. -/
structure Function where
  name : String
  params : List Parameter
  returnType : Option TypeRef
  generics : List GenericParam
  modifiers : List Modifier
  attributes : List Attribute
  body : Option (List Stmt)
  isConstructor : Bool
  isStatic : Bool

/-- A field. -/
structure Field where
  name : String
  type : Option TypeRef
  modifiers : List Modifier
  attributes : List Attribute
  initializer : Option Expr

/-- An accessor of a property; an automatic one has no body. -/
structure Accessor where
  kind : AccessorKind
  modifiers : List Modifier
  body : Option (List Stmt)

/-- A property. -/
structure Property where
  name : String
  type : Option TypeRef
  modifiers : List Modifier
  attributes : List Attribute
  accessors : List Accessor
  initializer : Option Expr

/-- A local or global variable. -/
structure Binding where
  name : String
  type : Option TypeRef
  value : Option Expr
  mutability : Mutability

end

/-- The statements of one unit, in order. -/
structure Program where
  stmts : List Stmt

instance : Inhabited Stmt :=
  ⟨.breakLoop⟩

instance : Inhabited Expr :=
  ⟨.this⟩

instance : Inhabited Program :=
  ⟨⟨[]⟩⟩

end SourceGen
