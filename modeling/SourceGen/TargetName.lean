import SourceGen.Text.Ascii

/-!
# Names of targets

A target has an id and further names; all of them are compared up to the case of ASCII letters.
-/

namespace SourceGen

/-- The id of a target and its other names. -/
structure TargetName where
  id : String
  aliases : List String := []
  deriving DecidableEq, Repr

/-- The text is one of the names of the target. -/
def TargetName.accepts (target : TargetName) (name : String) : Bool :=
  Text.eqIgnoreCase target.id name || target.aliases.any (Text.eqIgnoreCase · name)

end SourceGen
