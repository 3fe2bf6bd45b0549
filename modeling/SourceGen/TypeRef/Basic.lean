/-!
# Type references

A type as it is written in source: a name and type arguments. When there are no arguments the name
may still hold unstructured text, such as `map<string, int>`, `int[]` or `string?`;
`TypeRef.normalize` takes such text apart.

## Main definitions

* `TypeRef`: a name with arguments.
* `TypeRef.display`: the text `name<arg, …>`.
-/

namespace SourceGen

/-- A type as written in source. -/
structure TypeRef where
  name : String
  args : List TypeRef := []
  deriving Repr, Inhabited

namespace TypeRef

/-- A reference without arguments. -/
def named (name : String) : TypeRef :=
  ⟨name, []⟩

mutual

/-- Equality of references is decidable, node by node. -/
def decideEq : (s t : TypeRef) → Decidable (s = t)
  | ⟨n, as⟩, ⟨m, bs⟩ =>
    match decEq n m, decideEqList as bs with
    | .isTrue hn, .isTrue has => .isTrue (by rw [hn, has])
    | .isFalse hn, _ => .isFalse (fun h => hn (by injection h))
    | _, .isFalse has => .isFalse (fun h => has (by injection h))

/-- Equality of argument lists is decidable. -/
def decideEqList : (ss ts : List TypeRef) → Decidable (ss = ts)
  | [], [] => .isTrue rfl
  | [], _ :: _ => .isFalse (by simp)
  | _ :: _, [] => .isFalse (by simp)
  | s :: ss, t :: ts =>
    match decideEq s t, decideEqList ss ts with
    | .isTrue hs, .isTrue hss => .isTrue (by rw [hs, hss])
    | .isFalse hs, _ => .isFalse (fun h => hs (by injection h))
    | _, .isFalse hss => .isFalse (fun h => hss (by injection h))

end

instance : DecidableEq TypeRef :=
  decideEq

mutual

/-- The text of a reference: its name, and its arguments between angle brackets if it has any. -/
def display : TypeRef → String
  | ⟨name, []⟩ => name
  | ⟨name, arg :: args⟩ => name ++ "<" ++ arg.display ++ displayTail args ++ ">"

/-- The texts of the arguments after the first, each behind a comma and a blank. -/
def displayTail : List TypeRef → String
  | [] => ""
  | arg :: args => ", " ++ arg.display ++ displayTail args

end

end TypeRef

end SourceGen
