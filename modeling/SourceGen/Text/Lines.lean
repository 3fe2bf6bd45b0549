/-!
# Lines of a text

A line ends at a line feed, and a carriage return right before that line feed belongs to the line
end. A text that ends with a line feed has no further empty line after it.

## Main definitions

* `Text.lines`: the lines of a text.
* `Text.splitOn`: the parts of a text between occurrences of a character.
-/

namespace SourceGen

namespace Text

/-- Puts a character in front of the first part. -/
def consFirst (c : Char) : List (List Char) → List (List Char)
  | [] => [[c]]
  | p :: ps => (c :: p) :: ps

/-- The parts of a text between occurrences of `sep`; at least one. -/
def splitChars (sep : Char) : List Char → List (List Char)
  | [] => [[]]
  | c :: cs => if c = sep then [] :: splitChars sep cs else consFirst c (splitChars sep cs)

/-- The parts of a text between occurrences of `sep`; at least one. -/
def splitOn (sep : Char) (s : String) : List String :=
  (splitChars sep s.toList).map String.ofList

/-- Removes one carriage return from the end. -/
def dropReturn (cs : List Char) : List Char :=
  if cs.getLast? = some '\r' then cs.dropLast else cs

/-- Lines from the parts between line feeds: the last part has no line feed behind it, so it keeps
a carriage return, and is no line at all when it is empty. -/
def linesOfParts : List (List Char) → List (List Char)
  | [] => []
  | [p] => if p.isEmpty then [] else [p]
  | p :: ps => dropReturn p :: linesOfParts ps

/-- The lines of a text, without their ends. -/
def lines (s : String) : List String :=
  (linesOfParts (splitChars '\n' s.toList)).map String.ofList

end Text

end SourceGen
