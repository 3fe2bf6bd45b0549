/-!
# Plain text

Searching, joining and repeating texts.

## Main definitions

* `Text.hasChar`, `Text.contains`, `Text.startsWith`: what a text contains.
* `Text.join`: texts with a separator between them.
* `Text.angled`: texts between angle brackets.
-/

namespace SourceGen

namespace Text

/-- The text contains the character. -/
def hasChar (c : Char) (s : String) : Bool :=
  s.toList.contains c

/-- The characters `part` occur next to each other in `cs`. -/
def containsChars (part : List Char) : List Char → Bool
  | [] => part.isEmpty
  | c :: cs => part.isPrefixOf (c :: cs) || containsChars part cs

/-- The text `part` occurs in `s`. -/
def contains (s part : String) : Bool :=
  containsChars part.toList s.toList

/-- The text starts with `start`. -/
def startsWith (s start : String) : Bool :=
  start.toList.isPrefixOf s.toList

/-- The texts, with `sep` between them. -/
def join (sep : String) : List String → String
  | [] => ""
  | [s] => s
  | s :: ss => s ++ sep ++ join sep ss

/-- The texts between angle brackets; no brackets without texts. -/
def angled (parts : List String) : String :=
  if parts.isEmpty then "" else "<" ++ join ", " parts ++ ">"

/-- `n` copies of a text. -/
def replicate (n : Nat) (s : String) : String :=
  match n with
  | 0 => ""
  | n + 1 => s ++ replicate n s

end Text

end SourceGen
