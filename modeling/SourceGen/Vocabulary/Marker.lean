import SourceGen.Vocabulary.Entry
import SourceGen.Tree.Basic

/-!
# Markers

A marker is an attribute that says a declaration is provided from outside. A marked declaration
never gets a body, and the marker itself is never written out.

## Main definitions

* `Marker`: the two markers.
* `Marker.of?`: the first marker among some attributes.
-/

namespace SourceGen

/-- A marker attribute. -/
inductive Marker where
  | hosted | foreignCall
  deriving DecidableEq, Repr

namespace Marker

/-- The spellings of the markers. -/
def table : List (Vocabulary.Entry Marker) :=
  [⟨hosted, "external", ["extern"], "Declared in the host runtime; no body to emit."⟩,
   ⟨foreignCall, "foreign_call", ["foreign-call"],
     "Maps onto a host-runtime API; referenced by qualified name only."⟩]

/-- The marker with a spelling. -/
def ofName? (name : String) : Option Marker :=
  Vocabulary.lookup table name

/-- The canonical spelling. -/
def name (m : Marker) : String :=
  Vocabulary.canonical table m

theorem ofName?_name (m : Marker) : ofName? m.name = some m := by
  cases m <;> decide

/-- The first marker among the attributes. -/
def of? (attributes : List Attribute) : Option Marker :=
  attributes.findSome? fun a => ofName? a.name

end Marker

/-- The marker of a callable. -/
def Function.marker (f : Function) : Option Marker :=
  Marker.of? f.attributes

/-- The marker of a field. -/
def Field.marker (f : Field) : Option Marker :=
  Marker.of? f.attributes

/-- The marker of a property. -/
def Property.marker (p : Property) : Option Marker :=
  Marker.of? p.attributes

end SourceGen
