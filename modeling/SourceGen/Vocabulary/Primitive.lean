import SourceGen.Vocabulary.Entry

/-!
# Primitive types

The primitive type names of source trees. Lookup is case-sensitive.
-/

namespace SourceGen

/-- A primitive source type. -/
inductive Primitive where
  | number | float | int | string | bool | char | void | any
  deriving DecidableEq, Repr

namespace Primitive

/-- The spellings of the primitive types. -/
def table : List (Vocabulary.Entry Primitive) :=
  [⟨number, "number", ["numeric"], "Float-capable numeric value."⟩,
   ⟨float, "float", ["double", "f64"], "64-bit floating point value."⟩,
   ⟨int, "int", ["integer", "long", "i64", "i32"], "64-bit signed integer."⟩,
   ⟨string, "string", ["str", "String"], "UTF-8 text."⟩,
   ⟨bool, "bool", ["boolean"], "Truth value."⟩,
   ⟨char, "char", [], "Single character."⟩,
   ⟨void, "void", ["unit"], "No value."⟩,
   ⟨any, "any", ["object", "dynamic"], "Value of any type."⟩]

/-- The primitive type with a spelling. -/
def ofName? (name : String) : Option Primitive :=
  Vocabulary.lookup table name

/-- The canonical spelling. -/
def name (p : Primitive) : String :=
  Vocabulary.canonical table p

theorem ofName?_name (p : Primitive) : ofName? p.name = some p := by
  cases p <;> decide

end Primitive

end SourceGen
