import SourceGen.Tree.Basic

/-!
# Nested types

Types may stand inside namespaces and modules, never inside a class, struct or interface.

## Main definitions

* `Stmt.findNestedType?`: the first violation, as the outer and the inner name.
-/

namespace SourceGen

namespace Stmt

/-- The name of a declared type, namespace or module. -/
def declaredName? : Stmt → Option String
  | .typeDecl _ decl => some decl.name
  | .enumDecl decl => some decl.name
  | .namespaceDecl name _ => some name
  | .moduleDecl decl => some decl.name
  | _ => none

mutual

/-- The first type inside a type in a statement. -/
def nestedType? : Stmt → Option (String × String)
  | .namespaceDecl _ members => findNestedType? members
  | .moduleDecl ⟨_, _, _, members⟩ => findNestedType? members
  | .typeDecl _ ⟨name, _, _, _, _, _, members⟩ =>
    (members.findSome? declaredName?).map fun inner => (name, inner)
  | _ => none

/-- The first type inside a type in some statements. -/
def findNestedType? : List Stmt → Option (String × String)
  | [] => none
  | s :: ss =>
    match s.nestedType? with
    | some found => some found
    | none => findNestedType? ss

end

end Stmt

end SourceGen
