import SourceGen.Tree.Basic

/-!
# Includes

An include stands for the statements of the included unit, in place.
-/

namespace SourceGen

namespace Stmt

mutual

/-- The statement with includes opened, also includes inside includes. -/
def flatten : Stmt → List Stmt
  | .includeDecl _ stmts => flattenAll stmts
  | stmt => [stmt]

/-- The statements with every include replaced by what it stands for. -/
def flattenAll : List Stmt → List Stmt
  | [] => []
  | s :: ss => s.flatten ++ flattenAll ss

end

/-- The statement is an include. -/
def isInclude : Stmt → Bool
  | .includeDecl _ _ => true
  | _ => false

theorem flattenAll_append (ss ts : List Stmt) :
    flattenAll (ss ++ ts) = flattenAll ss ++ flattenAll ts := by
  induction ss with
  | nil => rfl
  | cons s ss ih => simp [flattenAll, ih]

end Stmt

end SourceGen
