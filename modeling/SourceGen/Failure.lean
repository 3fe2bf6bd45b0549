/-!
# Failures

The reasons why no unit is generated, with their texts.

## Main definitions

* `Failure`: the four causes.
* `Failure.message`, `Failure.code`, `Failure.help`: what is said about each.
-/

namespace SourceGen

/-- Why no unit was generated. -/
inductive Failure where
  | unknownTarget (id : String)
  | missingEntryPoint (target entry : String)
  | nestedType (outer inner : String)
  | misplacedMember (target kind name : String)
  deriving DecidableEq, Repr

namespace Failure

/-- What went wrong. -/
def message : Failure → String
  | unknownTarget id => "unknown target `" ++ id ++ "`"
  | missingEntryPoint target _ => "no entry point found for " ++ target ++ " executable"
  | nestedType outer inner =>
    "type `" ++ inner ++ "` is declared inside type `" ++ outer ++ "`"
  | misplacedMember target kind name =>
    kind ++ " `" ++ name ++ "` cannot be declared at the top level of a " ++ target ++ " unit"

/-- The stable code of the cause. -/
def code : Failure → String
  | unknownTarget _ => "polyemit::unknown_target"
  | missingEntryPoint _ _ => "polyemit::missing_entry_point"
  | nestedType _ _ => "polyemit::nested_type"
  | misplacedMember _ _ _ => "polyemit::misplaced_member"

/-- What to do about it. -/
def help : Failure → String
  | unknownTarget _ => "run `polyemit targets` to list the registered backends"
  | missingEntryPoint _ entry =>
    "declare a top-level `" ++ entry ++
      "` function, add top-level statements, or generate a library"
  | nestedType _ inner => "move `" ++ inner ++ "` to the enclosing namespace or module"
  | misplacedMember _ _ name => "move `" ++ name ++ "` into a class, struct or module"

end Failure

end SourceGen
