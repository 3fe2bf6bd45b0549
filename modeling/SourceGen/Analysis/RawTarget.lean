import SourceGen.Tree.Basic

/-!
# Targets of raw blocks

The targets that the raw blocks of some statements are written for, in order of appearance.
-/

namespace SourceGen

mutual

/-- The targets named by the raw blocks in a statement. -/
def Stmt.rawTargets : Stmt → List String
  | .raw ⟨some target, _⟩ => [target]
  | .includeDecl _ stmts => Stmt.allRawTargets stmts
  | .namespaceDecl _ members => Stmt.allRawTargets members
  | .typeDecl _ ⟨_, _, _, _, _, _, members⟩ => Stmt.allRawTargets members
  | .moduleDecl ⟨_, _, _, members⟩ => Stmt.allRawTargets members
  | .functionDecl _ ⟨_, _, _, _, _, _, some body, _, _⟩ => Stmt.allRawTargets body
  | .ifThen _ thenBranch none => Stmt.allRawTargets thenBranch
  | .ifThen _ thenBranch (some elseBranch) =>
    Stmt.allRawTargets thenBranch ++ Stmt.allRawTargets elseBranch
  | .whileLoop _ body => Stmt.allRawTargets body
  | .forLoop _ _ _ body => Stmt.allRawTargets body
  | .forEach _ _ _ body => Stmt.allRawTargets body
  | .matchOn _ arms => MatchArm.allRawTargets arms
  | .switchOn _ cases => SwitchCase.allRawTargets cases
  | _ => []

/-- The targets named by the raw blocks in some statements. -/
def Stmt.allRawTargets : List Stmt → List String
  | [] => []
  | s :: ss => s.rawTargets ++ Stmt.allRawTargets ss

/-- The targets named by the raw blocks in block arms. -/
def MatchArm.allRawTargets : List MatchArm → List String
  | [] => []
  | ⟨_, .block stmts⟩ :: arms => Stmt.allRawTargets stmts ++ MatchArm.allRawTargets arms
  | ⟨_, .expr _⟩ :: arms => MatchArm.allRawTargets arms

/-- The targets named by the raw blocks in cases. -/
def SwitchCase.allRawTargets : List SwitchCase → List String
  | [] => []
  | ⟨_, body⟩ :: cases => Stmt.allRawTargets body ++ SwitchCase.allRawTargets cases

end

end SourceGen
