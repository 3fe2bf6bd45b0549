import SourceGen.Journal
import SourceGen.Layout.Code
import SourceGen.Scope
import SourceGen.TargetName
import SourceGen.Tree.Kind
import SourceGen.Vocabulary.Marker

/-!
# What a target leaves out

Not everything in a tree is written. A raw block may be meant for another target, a marked
declaration is provided from outside, and some statements have no place in a body. Whatever is left
out is reported; a type declared in a body ends the generation.

## Main definitions

* `TargetName.rawCode`: the code of a raw block, if it is meant for the target.
* `TargetName.skipMarked`: whether a declaration is marked.
* `TargetName.refuseInBody`: the report about a statement that has no place in a body.
-/

namespace SourceGen

namespace TargetName

/-- Raw text, unless it is written for another target. -/
def rawCode (target : TargetName) (raw : RawBlock) : Gen (List Code) :=
  match raw.target with
  | some name =>
    if target.accepts name then return [.verbatim raw.code]
    else do
      Gen.report ((Diagnostic.info ("raw block for `" ++ name ++ "` skipped")).withContext
        target.id)
      return []
  | none => return [.verbatim raw.code]

/-- Raw blocks one after the other. -/
def rawCodes (target : TargetName) : List RawBlock → Gen (List Code)
  | [] => return []
  | raw :: raws => return (← target.rawCode raw) ++ (← target.rawCodes raws)

/-- Raw blocks, with separators in front of them. -/
def separatedRawCodes (target : TargetName) : List RawBlock → Gen (List Code)
  | [] => return []
  | raw :: raws => return .separator :: (← target.rawCode raw) ++ (← target.separatedRawCodes raws)

/-- Reports a declaration with a marker; it is not written. -/
def skipMarked (target : TargetName) (kind name : String) (attributes : List Attribute) :
    Gen Bool :=
  match Marker.of? attributes with
  | some marker => do
    Gen.report ((Diagnostic.info (kind ++ " `" ++ name ++ "` is marked `" ++ marker.name ++
      "`; nothing emitted")).withContext target.id)
    return true
  | none => return false

/-- Reports and refuses a statement that cannot stand in a body. -/
def refuseInBody (target : TargetName) (scope : Scope) (s : Stmt) : Gen (List Code) := do
  Gen.report ((Diagnostic.warning
    (s.kindName ++ " is not allowed inside a function body; skipped")).withContext
    (scope.className.getD target.id))
  return []

end TargetName

/-- The warning about a function with a qualified name. -/
def Diagnostic.qualifiedFunction (name : String) : Diagnostic :=
  (Diagnostic.warning
    ("qualified function name `" ++ name ++ "` is not allowed here; skipped")).withHint
    ("mark it `" ++ Marker.foreignCall.name ++ "` if it maps onto a host API")

/-- The warning about a statement that cannot start a counted loop. -/
def Diagnostic.noLoopStart (s : Stmt) : Diagnostic :=
  Diagnostic.warning (s.kindName ++ " cannot initialize a for loop; dropped")

/-- The failure for a type declared in a body. -/
def Failure.typeInBody (scope : Scope) (name : String) : Failure :=
  .nestedType (scope.className.getD "function body") name

end SourceGen
