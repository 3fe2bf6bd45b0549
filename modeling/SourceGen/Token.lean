/-!
# Token kinds

An operator in a source tree is the token that spelled it. Each target has its own spelling for
the tokens it can use as operators; the rest are shown by `Token.name`.

## Main definitions

* `Token`: the closed list of token kinds.
* `Token.name`, `Token.ofName?`: the name of a kind and its inverse.
* `Token.all`: every kind once, in declaration order.
-/

namespace SourceGen

/-- The kind of a lexical token. -/
inductive Token where
  | plus | minus | star | starStar | slash | percent | plusPlus | minusMinus | equalEqual
  | bangEqual | less | lessEqual | greater | greaterEqual | ampAmp | pipePipe | bang | and | or
  | not | amp | pipe | caret | tilde | shiftLeft | shiftRight | equal | plusEqual | minusEqual
  | starEqual | slashEqual | percentEqual | questionQuestion | question | dotDot | dotDotEqual
  | arrow | fatArrow | dot | comma | colon | semicolon | leftParen | rightParen | leftBrace
  | rightBrace | leftBracket | rightBracket | identifier | number | stringLiteral | charLiteral
  | keyword | newline | eof
  deriving DecidableEq, Repr

namespace Token

/-- The name of a kind; a target without a spelling for the kind writes this. -/
def name : Token → String
  | plus => "Plus"
  | minus => "Minus"
  | star => "Star"
  | starStar => "StarStar"
  | slash => "Slash"
  | percent => "Percent"
  | plusPlus => "PlusPlus"
  | minusMinus => "MinusMinus"
  | equalEqual => "EqualEqual"
  | bangEqual => "BangEqual"
  | less => "Less"
  | lessEqual => "LessEqual"
  | greater => "Greater"
  | greaterEqual => "GreaterEqual"
  | ampAmp => "AmpAmp"
  | pipePipe => "PipePipe"
  | bang => "Bang"
  | and => "And"
  | or => "Or"
  | not => "Not"
  | amp => "Amp"
  | pipe => "Pipe"
  | caret => "Caret"
  | tilde => "Tilde"
  | shiftLeft => "ShiftLeft"
  | shiftRight => "ShiftRight"
  | equal => "Equal"
  | plusEqual => "PlusEqual"
  | minusEqual => "MinusEqual"
  | starEqual => "StarEqual"
  | slashEqual => "SlashEqual"
  | percentEqual => "PercentEqual"
  | questionQuestion => "QuestionQuestion"
  | question => "Question"
  | dotDot => "DotDot"
  | dotDotEqual => "DotDotEqual"
  | arrow => "Arrow"
  | fatArrow => "FatArrow"
  | dot => "Dot"
  | comma => "Comma"
  | colon => "Colon"
  | semicolon => "Semicolon"
  | leftParen => "LeftParen"
  | rightParen => "RightParen"
  | leftBrace => "LeftBrace"
  | rightBrace => "RightBrace"
  | leftBracket => "LeftBracket"
  | rightBracket => "RightBracket"
  | identifier => "Identifier"
  | number => "Number"
  | stringLiteral => "StringLiteral"
  | charLiteral => "CharLiteral"
  | keyword => "Keyword"
  | newline => "Newline"
  | eof => "Eof"

/-- Every kind, in declaration order. -/
def all : List Token :=
  [plus, minus, star, starStar, slash, percent, plusPlus, minusMinus, equalEqual, bangEqual,
   less, lessEqual, greater, greaterEqual, ampAmp, pipePipe, bang, and, or, not, amp, pipe,
   caret, tilde, shiftLeft, shiftRight, equal, plusEqual, minusEqual, starEqual, slashEqual,
   percentEqual, questionQuestion, question, dotDot, dotDotEqual, arrow, fatArrow, dot, comma,
   colon, semicolon, leftParen, rightParen, leftBrace, rightBrace, leftBracket, rightBracket,
   identifier, number, stringLiteral, charLiteral, keyword, newline, eof]

/-- The kind with the given name. -/
def ofName? (s : String) : Option Token :=
  all.find? (·.name == s)

/-- Names tell kinds apart, so reading a name back finds the kind. -/
theorem ofName?_name (t : Token) : ofName? t.name = some t := by
  cases t <;> decide

/-- The place of a kind in `Token.all`. -/
def index (t : Token) : Nat :=
  all.findIdx (· == t)

end Token

end SourceGen
