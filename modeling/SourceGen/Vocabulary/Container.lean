import SourceGen.Vocabulary.Entry

/-!
# Generic containers

The generic type names of source trees and how many arguments each takes.

## Main definitions

* `Container`: the containers.
* `Arity`: an exact or least number of arguments.
* `Container.arity`: the arity of a container.
* `Container.fill`: arguments padded up to the arity.
-/

namespace SourceGen

/-- A generic source type; the last argument of a function type is its result. -/
inductive Container where
  | list | map | set | array | tuple | function | promise | optional
  deriving DecidableEq, Repr

/-- How many arguments a generic type takes. -/
inductive Arity where
  | exactly (n : Nat)
  | atLeast (n : Nat)
  deriving DecidableEq, Repr

namespace Arity

/-- The number of arguments fits. -/
def accepts : Arity → Nat → Bool
  | exactly n, count => count == n
  | atLeast n, count => n ≤ count

/-- The least number of arguments that fits. -/
def minimum : Arity → Nat
  | exactly n => n
  | atLeast n => n

end Arity

namespace Container

/-- The spellings of the containers. -/
def table : List (Vocabulary.Entry Container) :=
  [⟨list, "list", ["List"], "Growable sequence."⟩,
   ⟨map, "map", ["dict", "Map", "Dict"], "Key/value map."⟩,
   ⟨set, "set", ["Set"], "Unordered set of unique values."⟩,
   ⟨array, "array", ["Array"], "Sequence with array semantics."⟩,
   ⟨tuple, "tuple", ["Tuple"], "Fixed-length heterogeneous tuple."⟩,
   ⟨function, "function", ["fn", "func", "Function"],
     "Callable value; last argument is the result."⟩,
   ⟨promise, "promise", ["task", "future", "Promise"], "Value available asynchronously."⟩,
   ⟨optional, "optional", ["option", "Optional"], "Value that may be absent."⟩]

/-- The container with a spelling. -/
def ofName? (name : String) : Option Container :=
  Vocabulary.lookup table name

/-- The canonical spelling. -/
def name (c : Container) : String :=
  Vocabulary.canonical table c

theorem ofName?_name (c : Container) : ofName? c.name = some c := by
  cases c <;> decide

/-- How many arguments a container takes. -/
def arity : Container → Arity
  | list | set | array | promise | optional => .exactly 1
  | map => .exactly 2
  | tuple => .atLeast 2
  | function => .atLeast 1

/-- The arguments, with `filler` behind them up to the least number the container takes. -/
def fill (c : Container) (args : List String) (filler : String) : List String :=
  args ++ List.replicate (c.arity.minimum - args.length) filler

end Container

end SourceGen
