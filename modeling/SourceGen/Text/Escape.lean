/-!
# Escapes in literals

Text between the quotes of a string or character literal. The quote, the backslash, line feed,
carriage return, tab and NUL are written as two characters, a backslash and one more; every other
character stands for itself.

## Main definitions

* `Text.escapeString`, `Text.escapeChar`: the written form.
-/

namespace SourceGen

namespace Text

/-- The character written after a backslash for `c`, between quotes `quote`. -/
def escapeLetter? (quote c : Char) : Option Char :=
  if c = quote then some quote
  else if c = '\\' then some '\\'
  else if c = '\n' then some 'n'
  else if c = '\r' then some 'r'
  else if c = '\t' then some 't'
  else if c = '\x00' then some '0'
  else none

/-- One character of a literal between quotes `quote`. -/
def escapeWith (quote c : Char) : List Char :=
  match escapeLetter? quote c with
  | some letter => ['\\', letter]
  | none => [c]

/-- The text between the double quotes of a string literal. -/
def escapeString (s : String) : String :=
  String.ofList (s.toList.flatMap (escapeWith '"'))

/-- The text between the single quotes of a character literal. -/
def escapeChar (c : Char) : String :=
  String.ofList (escapeWith '\'' c)

end Text

end SourceGen
