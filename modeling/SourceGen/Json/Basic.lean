/-!
# JSON values

Values of the interchange format of source trees. The fields of an object keep their order and
may repeat, so that a reader can refuse a repeated field. A number keeps its text, since no part
of a tree is a number.

## Main definitions

* `Json`: a value.
* `Json.depth`: how deep arrays and objects nest.
-/

namespace SourceGen

/-- A JSON value. `unreadable` stands for a well-formed string, or object key, with an unpaired
surrogate escape: it is a value, but no text is its content. -/
inductive Json where
  | null
  | bool (value : Bool)
  | number (text : String)
  | string (value : String)
  | array (items : List Json)
  | object (fields : List (String × Json))
  | unreadable
  deriving Repr, Inhabited

namespace Json

mutual

/-- The number of arrays and objects on the deepest path into a value. -/
def depth : Json → Nat
  | .array items => depthItems items + 1
  | .object fields => depthFields fields + 1
  | _ => 0

/-- The greatest depth among the items of an array. -/
def depthItems : List Json → Nat
  | [] => 0
  | v :: vs => max v.depth (depthItems vs)

/-- The greatest depth among the values of an object. -/
def depthFields : List (String × Json) → Nat
  | [] => 0
  | (_, v) :: vs => max v.depth (depthFields vs)

end

end Json

end SourceGen
