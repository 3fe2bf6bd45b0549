import SourceGen.Json.Parser
import SourceGen.Tree.Decode

/-!
# Trees from text

A tree file is the text of one JSON value. Values nest at most 127 levels deep in what is read of
them; skipped fields may nest deeper.
-/

namespace SourceGen

/-- The greatest number of arrays and objects inside each other in a tree file. -/
def Program.maxLevels : Nat :=
  127

/-- The program of a tree file. -/
def Program.parse (text : String) : Option Program := do
  let v ← Json.parse text
  Program.decodeWithin Program.maxLevels v

end SourceGen
