import SourceGen.TargetName
import SourceGen.Text.Alphanumeric
import SourceGen.Text.Basic
import SourceGen.Text.Escape
import SourceGen.Tree.Basic
import SourceGen.Vocabulary.Primitive

/-!
# Rust spellings

How names, literals, operators and primitive types are written in Rust.

## Main definitions

* `Rust.ident`: an identifier, escaped if it is a keyword.
* `Rust.literal`: a literal.
* `Rust.binaryOp`, `Rust.unaryOp`: operators.
* `Rust.primitive`: primitive types.
* `Rust.associated`: a type in front of an associated function.
-/

namespace SourceGen

namespace Rust

/-- The names of the target. -/
def target : TargetName :=
  ⟨"rust", ["rs"]⟩

/-- The strict and reserved words. -/
def keywords : List String :=
  ["as", "break", "const", "continue", "crate", "else", "enum", "extern", "false", "fn", "for",
   "if", "impl", "in", "let", "loop", "match", "mod", "move", "mut", "pub", "ref", "return",
   "static", "struct", "super", "trait", "true", "type", "unsafe", "use", "where", "while", "async",
   "await", "dyn", "abstract", "become", "box", "do", "final", "macro", "override", "priv",
   "typeof", "unsized", "virtual", "yield", "try", "gen"]

/-- The words that cannot be raw identifiers. -/
def nonRawKeywords : List String :=
  ["self", "Self", "super", "crate"]

/-- The word is reserved. -/
def isKeyword (name : String) : Bool :=
  keywords.contains name

/-- An identifier. A reserved word becomes a raw identifier, or gets an underscore where it cannot
be one. -/
def ident (name : String) : String :=
  if nonRawKeywords.contains name then name ++ "_"
  else if isKeyword name then "r#" ++ name
  else name

/-- A path. -/
def path (parts : List String) : String :=
  Text.join "::" (parts.map ident)

/-- A literal. -/
def literal : Literal → String
  | .number text => text
  | .string value => "\"" ++ Text.escapeString value ++ "\""
  | .char value => "'" ++ Text.escapeChar value ++ "'"
  | .bool value => if value then "true" else "false"
  | .null => "None"

/-- Binary and assignment operators; a token without a spelling is written as its name. -/
def binaryOp : Token → String
  | .plus => "+"
  | .minus => "-"
  | .star => "*"
  | .slash => "/"
  | .percent => "%"
  | .equalEqual => "=="
  | .bangEqual => "!="
  | .less => "<"
  | .lessEqual => "<="
  | .greater => ">"
  | .greaterEqual => ">="
  | .ampAmp | .and => "&&"
  | .pipePipe | .or => "||"
  | .amp => "&"
  | .pipe => "|"
  | .caret => "^"
  | .shiftLeft => "<<"
  | .shiftRight => ">>"
  | .equal => "="
  | .plusEqual => "+="
  | .minusEqual => "-="
  | .starEqual => "*="
  | .slashEqual => "/="
  | .percentEqual => "%="
  | .dotDot => ".."
  | .dotDotEqual => "..="
  | .fatArrow => "=>"
  | .arrow => "->"
  | .dot => "."
  | other => other.name

/-- Operators in front of their operand; bitwise and logical negation are written alike. -/
def unaryOp : Token → String
  | .bang | .not | .tilde => "!"
  | .minus => "-"
  | .star => "*"
  | .amp => "&"
  | other => other.name

/-- The type of what cannot be resolved. -/
def catchAll : String :=
  "Box<dyn std::any::Any>"

/-- The type of no value; a function that returns it has no return clause. -/
def unitType : String :=
  "()"

/-- The spelling of a primitive type. -/
def primitive : Primitive → String
  | .number | .float => "f64"
  | .int => "i64"
  | .string => "String"
  | .bool => "bool"
  | .char => "char"
  | .void => unitType
  | .any => catchAll

/-- A type in front of an associated function: generic arguments go behind a path separator. -/
def associated (type : String) : String :=
  let chars := type.toList
  let before := chars.takeWhile (· != '<')
  let rest := chars.dropWhile (· != '<')
  if rest.isEmpty || [':', ':'].isSuffixOf before then type
  else String.ofList before ++ "::" ++ String.ofList rest

/-- The character can stand in a plain path or chain of calls. -/
def isPathChar (c : Char) : Bool :=
  Text.isAlphanumeric c || ['_', '.', ':', '(', ')', '"', '[', ']'].contains c

/-- The name of the entry point. -/
def entryName : String :=
  "main"

/-- The name of an entry function whose result becomes the exit code. -/
def valueEntryName : String :=
  "main_entry"

/-- The return type of such a function if it declares none. -/
def exitType : String :=
  "i64"

end Rust

end SourceGen
