/-!
# Generated units

The result of generating a unit.
-/

namespace SourceGen

/-- A generated unit. -/
structure Generated where
  source : String
  /-- What the unit imports, sorted, each once. -/
  imports : List String
  /-- The qualified name of the entry point. -/
  entryPoint : Option String
  deriving DecidableEq, Repr

/-- The unit imports the name. -/
def Generated.hasImport (g : Generated) (name : String) : Bool :=
  g.imports.contains name

end SourceGen
