import SourceGen.Tree.Basic

/-!
# Arms of a match or switch

A match is written as a branching statement or as an expression, depending on where it stands. As
an expression, an arm that is a block has to become a closure that is called on the spot.

## Main definitions

* `MatchShape`: how a match is written.
* `MatchShape.of`: the shape by position and arms.
* `Pattern.anyDefault`, `Pattern.anyString`: what the patterns of all arms have.
-/

namespace SourceGen

/-- The expression is a string literal. -/
def Expr.isStringLiteral : Expr → Bool
  | .literal (.string _) => true
  | _ => false

/-- The arm yields a block. -/
def Body.isBlock : Body → Bool
  | .block _ => true
  | .expr _ => false

/-- The pattern selects everything. -/
def Pattern.isDefault : Pattern → Bool
  | .default => true
  | .values _ => false

/-- One of the values is a string literal. -/
def Pattern.hasString : Pattern → Bool
  | .default => false
  | .values vs => vs.any Expr.isStringLiteral

/-- One of the arms yields a block. -/
def MatchArm.anyBlock (arms : List MatchArm) : Bool :=
  arms.any (·.result.isBlock)

/-- One of the patterns selects everything. -/
def Pattern.anyDefault (patterns : List Pattern) : Bool :=
  patterns.any Pattern.isDefault

/-- One of the patterns is a string literal. -/
def Pattern.anyString (patterns : List Pattern) : Bool :=
  patterns.any Pattern.hasString

/-- How a match is written. -/
inductive MatchShape where
  | statement | statementWithBlocks | expression | expressionWithClosures
  deriving DecidableEq, Repr

namespace MatchShape

/-- The shape of a match by its position and its arms. -/
def of (inExpression : Bool) (arms : List MatchArm) : MatchShape :=
  match inExpression, MatchArm.anyBlock arms with
  | false, false => statement
  | false, true => statementWithBlocks
  | true, false => expression
  | true, true => expressionWithClosures

/-- The match is written as an expression. -/
def isExpression : MatchShape → Bool
  | expression | expressionWithClosures => true
  | statement | statementWithBlocks => false

end MatchShape

end SourceGen
