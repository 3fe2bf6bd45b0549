import SourceGen.Vocabulary.Entry

/-!
# Builtin functions

A bare call to one of these names is a call to a function that every target provides in its own
way.
-/

namespace SourceGen

/-- A builtin function. -/
inductive Builtin where
  | print | len | str | abs | min | max | sqrt
  deriving DecidableEq, Repr

namespace Builtin

/-- The spellings of the builtin functions. -/
def table : List (Vocabulary.Entry Builtin) :=
  [⟨print, "print", ["println"], "Print values to stdout, space separated."⟩,
   ⟨len, "len", [], "Length of a collection or string."⟩,
   ⟨str, "str", ["to_string"], "Convert a value to a string."⟩,
   ⟨abs, "abs", [], "Absolute value."⟩,
   ⟨min, "min", [], "Smaller of two values."⟩,
   ⟨max, "max", [], "Larger of two values."⟩,
   ⟨sqrt, "sqrt", [], "Square root."⟩]

/-- The builtin with a spelling. -/
def ofName? (name : String) : Option Builtin :=
  Vocabulary.lookup table name

/-- The canonical spelling. -/
def name (b : Builtin) : String :=
  Vocabulary.canonical table b

theorem ofName?_name (b : Builtin) : ofName? b.name = some b := by
  cases b <;> decide

end Builtin

end SourceGen
