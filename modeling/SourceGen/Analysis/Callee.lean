import SourceGen.Tree.Basic
import SourceGen.Vocabulary.Builtin

/-!
# Callees

What the callee of a call says about the call: a builtin, a plain name, a qualified name, a method
on a receiver, or any other expression.
-/

namespace SourceGen

/-- The form of a callee. -/
inductive Callee where
  | builtin (fn : Builtin) (name : String)
  | plain (name : String)
  | qualified (parts : List String)
  | method (receiver : Expr) (name : String)
  | other (callee : Expr)

/-- The form of a callee expression. -/
def Callee.of : Expr → Callee
  | .ident name =>
    match Builtin.ofName? name with
    | some fn => .builtin fn name
    | none => .plain name
  | .path parts => .qualified parts
  | .member receiver name => .method receiver name
  | callee => .other callee

end SourceGen
