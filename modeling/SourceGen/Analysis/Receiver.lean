import SourceGen.Tree.Basic

/-!
# Changes through the receiver

Whether the body of a method changes the object it is called on, so that a target which tells
shared and exclusive receivers apart can choose.

## Main definitions

* `Expr.rootedInThis`: a chain of members and indices that starts at `this`.
* `Stmt.anyAssignsThis`: a block that changes something through `this`.
-/

namespace SourceGen

/-- The expression is `this`, or a member or index of such an expression. -/
def Expr.rootedInThis : Expr → Bool
  | .this => true
  | .member object _ => object.rootedInThis
  | .index object _ => object.rootedInThis
  | _ => false

/-- The call goes to a method of something inside `this`, which may change it. -/
def Expr.callsInsideThis : Expr → Bool
  | .member .this _ => false
  | .member object _ => object.rootedInThis
  | _ => false

mutual

/-- The statement changes something through `this`. -/
def Stmt.assignsThis : Stmt → Bool
  | .expr value => value.assignsThis
  | .binding ⟨_, _, some value, _⟩ => value.assignsThis
  | .ret (some value) => value.assignsThis
  | .ifThen condition thenBranch none =>
    condition.assignsThis || Stmt.anyAssignsThis thenBranch
  | .ifThen condition thenBranch (some elseBranch) =>
    condition.assignsThis || Stmt.anyAssignsThis thenBranch || Stmt.anyAssignsThis elseBranch
  | .whileLoop _ body => Stmt.anyAssignsThis body
  | .forLoop _ _ none body => Stmt.anyAssignsThis body
  | .forLoop _ _ (some step) body => step.assignsThis || Stmt.anyAssignsThis body
  | .forEach _ _ _ body => Stmt.anyAssignsThis body
  | .matchOn _ arms => MatchArm.anyAssignsThis arms
  | .switchOn _ cases => SwitchCase.anyAssignsThis cases
  | _ => false

/-- One of the statements changes something through `this`. -/
def Stmt.anyAssignsThis : List Stmt → Bool
  | [] => false
  | s :: ss => s.assignsThis || Stmt.anyAssignsThis ss

/-- One of the arms changes something through `this`. -/
def MatchArm.anyAssignsThis : List MatchArm → Bool
  | [] => false
  | ⟨_, .block stmts⟩ :: arms => Stmt.anyAssignsThis stmts || MatchArm.anyAssignsThis arms
  | ⟨_, .expr value⟩ :: arms => value.assignsThis || MatchArm.anyAssignsThis arms

/-- One of the cases changes something through `this`. -/
def SwitchCase.anyAssignsThis : List SwitchCase → Bool
  | [] => false
  | ⟨_, body⟩ :: cases => Stmt.anyAssignsThis body || SwitchCase.anyAssignsThis cases

/-- The expression changes something through `this`. -/
def Expr.assignsThis : Expr → Bool
  | .assign target _ value => target.rootedInThis || value.assignsThis
  | .unary op operand _ => (op == .plusPlus || op == .minusMinus) && operand.rootedInThis
  | .call callee args => callee.callsInsideThis || Expr.anyAssignsThis args
  | _ => false

/-- One of the expressions changes something through `this`. -/
def Expr.anyAssignsThis : List Expr → Bool
  | [] => false
  | e :: es => e.assignsThis || Expr.anyAssignsThis es

end

end SourceGen
