import SourceGen.Json.Basic

/-!
# Reading JSON values

Small readers for the parts of a value, each `Json → Option α`. A reader that goes into an array
or an object takes the number of levels it may still open; at zero it refuses.

## Main definitions

* `Json.items`: the items of an array, one level down.
* `Json.required`, `Json.optional`, `Json.defaulted`: one field of an object.
* `Json.unitTag`: a constructor without data, as a string or as an object with a null.
-/

namespace SourceGen

namespace Json

/-- The content of a string. -/
def asString : Json → Option String
  | .string s => some s
  | _ => none

/-- The content of a truth value. -/
def asBool : Json → Option Bool
  | .bool b => some b
  | _ => none

/-- A string of exactly one character. -/
def asChar : Json → Option Char
  | .string s =>
    match s.toList with
    | [c] => some c
    | _ => none
  | _ => none

/-- The items of an array, each read by `read`; opening the array needs one of `levels`. -/
def items (levels : Nat) (read : Json → Option α) : Json → Option (List α)
  | .array vs => if levels = 0 then none else vs.mapM read
  | _ => none

/-- The one value of the field `name`; `some none` when there is no such field, and `none` when
there are several. -/
def unique? (fields : List (String × Json)) (name : String) : Option (Option Json) :=
  match fields.filter (·.1 == name) with
  | [] => some none
  | [(_, v)] => some (some v)
  | _ => none

/-- A field that must be there. -/
def required (fields : List (String × Json)) (name : String) (read : Json → Option α) :
    Option α :=
  match unique? fields name with
  | some (some v) => read v
  | _ => none

/-- A field that may be missing or null. -/
def optional (fields : List (String × Json)) (name : String) (read : Json → Option α) :
    Option (Option α) :=
  match unique? fields name with
  | some (some .null) => some none
  | some (some v) => (read v).map some
  | some none => some none
  | none => none

/-- A field that may be missing and then has the value `default`. -/
def defaulted (fields : List (String × Json)) (name : String) (default : α)
    (read : Json → Option α) : Option α :=
  match unique? fields name with
  | some (some v) => read v
  | some none => some default
  | none => none

/-- A value where `null` stands for absence. -/
def nullable (read : Json → Option α) : Json → Option (Option α)
  | .null => some none
  | v => (read v).map some

/-- A constructor without data: its name as a string, or an object that maps its name to null. -/
def unitTag (levels : Nat) (ofName : String → Option α) : Json → Option α
  | .string s => ofName s
  | .object [(s, .null)] => if levels = 0 then none else ofName s
  | _ => none

end Json

end SourceGen
