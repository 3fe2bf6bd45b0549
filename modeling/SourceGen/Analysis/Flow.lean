import SourceGen.Tree.Basic

/-!
# Flow of control in a block

What can be read off a block about how control leaves it: whether it ends with a return or a jump,
whether it returns a value, and whether it continues the loop around it.

## Main definitions

* `Stmt.endsWithReturn`, `Stmt.endsWithJump`: how a block ends.
* `Stmt.anyReturnsValue`: a value is returned somewhere.
* `Stmt.anyContinues`: the enclosing loop is continued somewhere.
-/

namespace SourceGen

namespace Stmt

/-- The statement is a return. -/
def isReturn : Stmt → Bool
  | .ret _ => true
  | _ => false

/-- The statement is a return, a break or a continue. -/
def isJump : Stmt → Bool
  | .ret _ | .breakLoop | .continueLoop => true
  | _ => false

/-- The last statement is a return. -/
def endsWithReturn (block : List Stmt) : Bool :=
  block.getLast?.any isReturn

/-- The last statement is a return, a break or a continue. -/
def endsWithJump (block : List Stmt) : Bool :=
  block.getLast?.any isJump

mutual

/-- The statement returns a value, in itself or in a branch, loop, arm or case. -/
def returnsValue : Stmt → Bool
  | .ret value => value.isSome
  | .ifThen _ thenBranch none => anyReturnsValue thenBranch
  | .ifThen _ thenBranch (some elseBranch) =>
    anyReturnsValue thenBranch || anyReturnsValue elseBranch
  | .whileLoop _ body => anyReturnsValue body
  | .forLoop _ _ _ body => anyReturnsValue body
  | .forEach _ _ _ body => anyReturnsValue body
  | .matchOn _ arms => anyArmReturnsValue arms
  | .switchOn _ cases => anyCaseReturnsValue cases
  | _ => false

/-- One of the statements returns a value. -/
def anyReturnsValue : List Stmt → Bool
  | [] => false
  | s :: ss => s.returnsValue || anyReturnsValue ss

/-- A block arm returns a value. -/
def anyArmReturnsValue : List MatchArm → Bool
  | [] => false
  | ⟨_, .block stmts⟩ :: arms => anyReturnsValue stmts || anyArmReturnsValue arms
  | ⟨_, .expr _⟩ :: arms => anyArmReturnsValue arms

/-- A case returns a value. -/
def anyCaseReturnsValue : List SwitchCase → Bool
  | [] => false
  | ⟨_, body⟩ :: cases => anyReturnsValue body || anyCaseReturnsValue cases

end

mutual

/-- The statement continues the loop around it, in itself or in a branch, arm or case. -/
def continues : Stmt → Bool
  | .continueLoop => true
  | .ifThen _ thenBranch none => anyContinues thenBranch
  | .ifThen _ thenBranch (some elseBranch) => anyContinues thenBranch || anyContinues elseBranch
  | .matchOn _ arms => anyArmContinues arms
  | .switchOn _ cases => anyCaseContinues cases
  | _ => false

/-- One of the statements continues the loop around the block. -/
def anyContinues : List Stmt → Bool
  | [] => false
  | s :: ss => s.continues || anyContinues ss

/-- A block arm continues the loop. -/
def anyArmContinues : List MatchArm → Bool
  | [] => false
  | ⟨_, .block stmts⟩ :: arms => anyContinues stmts || anyArmContinues arms
  | ⟨_, .expr _⟩ :: arms => anyArmContinues arms

/-- A case continues the loop. -/
def anyCaseContinues : List SwitchCase → Bool
  | [] => false
  | ⟨_, body⟩ :: cases => anyContinues body || anyCaseContinues cases

end

end Stmt

/-- The expression can stand as a statement: a call, an assignment, a construction, an increment
or a decrement. -/
def Expr.isEffect : Expr → Bool
  | .call _ _ | .assign _ _ _ | .construct _ _ => true
  | .unary op _ _ => op == .plusPlus || op == .minusMinus
  | _ => false

end SourceGen
