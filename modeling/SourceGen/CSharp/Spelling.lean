import SourceGen.TargetName
import SourceGen.Text.Basic
import SourceGen.Text.Escape
import SourceGen.Tree.Basic
import SourceGen.Vocabulary.Primitive

/-!
# C# spellings

How names, literals, operators and primitive types are written in C#.

## Main definitions

* `CSharp.ident`: an identifier, escaped if it is a keyword.
* `CSharp.literal`: a literal.
* `CSharp.binaryOp`, `CSharp.unaryOp`: operators.
* `CSharp.primitive`: primitive types.
-/

namespace SourceGen

namespace CSharp

/-- The names of the target. -/
def target : TargetName :=
  ⟨"csharp", ["cs", "c#"]⟩

/-- The reserved words; contextual keywords are ordinary identifiers. -/
def keywords : List String :=
  ["abstract", "as", "base", "bool", "break", "byte", "case", "catch", "char", "checked", "class",
   "const", "continue", "decimal", "default", "delegate", "do", "double", "else", "enum", "event",
   "explicit", "extern", "false", "finally", "fixed", "float", "for", "foreach", "goto", "if",
   "implicit", "in", "int", "interface", "internal", "is", "lock", "long", "namespace", "new",
   "null", "object", "operator", "out", "override", "params", "private", "protected", "public",
   "readonly", "ref", "return", "sbyte", "sealed", "short", "sizeof", "stackalloc", "static",
   "string", "struct", "switch", "this", "throw", "true", "try", "typeof", "uint", "ulong",
   "unchecked", "unsafe", "ushort", "using", "virtual", "void", "volatile", "while"]

/-- The word is reserved. -/
def isKeyword (name : String) : Bool :=
  keywords.contains name

/-- An identifier; a reserved word is escaped. -/
def ident (name : String) : String :=
  if isKeyword name then "@" ++ name else name

/-- A qualified name. -/
def path (parts : List String) : String :=
  Text.join "." (parts.map ident)

/-- A literal. -/
def literal : Literal → String
  | .number text => text
  | .string value => "\"" ++ Text.escapeString value ++ "\""
  | .char value => "'" ++ Text.escapeChar value ++ "'"
  | .bool value => if value then "true" else "false"
  | .null => "null"

/-- Binary and assignment operators; a token without a spelling is written as its name. -/
def binaryOp : Token → String
  | .plus => "+"
  | .minus => "-"
  | .star => "*"
  | .slash => "/"
  | .percent => "%"
  | .equalEqual => "=="
  | .bangEqual => "!="
  | .less => "<"
  | .lessEqual => "<="
  | .greater => ">"
  | .greaterEqual => ">="
  | .ampAmp | .and => "&&"
  | .pipePipe | .or => "||"
  | .amp => "&"
  | .pipe => "|"
  | .caret => "^"
  | .shiftLeft => "<<"
  | .shiftRight => ">>"
  | .questionQuestion => "??"
  | .equal => "="
  | .plusEqual => "+="
  | .minusEqual => "-="
  | .starEqual => "*="
  | .slashEqual => "/="
  | .percentEqual => "%="
  | .fatArrow => "=>"
  | .dot => "."
  | other => other.name

/-- Operators in front of or behind one operand. -/
def unaryOp : Token → String
  | .bang | .not => "!"
  | .minus => "-"
  | .plus => "+"
  | .tilde => "~"
  | .plusPlus => "++"
  | .minusMinus => "--"
  | other => other.name

/-- The spelling of a primitive type. -/
def primitive : Primitive → String
  | .number | .float => "double"
  | .int => "int"
  | .string => "string"
  | .bool => "bool"
  | .char => "char"
  | .void => "void"
  | .any => "object"

/-- The type of what cannot be resolved. -/
def catchAll : String :=
  "object"

/-- The type of parameters and results without a declared type. -/
def untyped : String :=
  "dynamic"

/-- The name of the entry point. -/
def entryName : String :=
  "Main"

end CSharp

end SourceGen
