import SourceGen.Proofs.OwnReturns
import SourceGen.Rust.Body

/-!
# Returns in Rust bodies

Which returns in a tree leave the function that is written for it. As a block is a value in Rust, a
return in a block that stands for a value leaves the function, wherever the block stands. Only
closures keep their returns: those of lambdas, and those for the blocks in the arms of a match that
stands for a value.

## Main definitions

* `Rust.anyOwnReturn`: statements return a value from the function that they are written into.
* `Rust.exprOwnReturn`: an expression does.

## Main results

* `Rust.tells_expr`: the fragment of an expression returns a value where the expression does.
* `Rust.tells_stmts`: the code of statements does where the statements do.
-/

namespace SourceGen

open Text (isNoReturn isNoReturn_of_mem)

namespace Rust

open Fragment (text)

/-! ### Returns in a tree -/

mutual

/-- The expression has a return of a value from the function that it is written into. -/
def exprOwnReturn : Expr → Bool
  | .literal _ | .ident _ | .path _ | .this | .lambda _ _ => false
  | .member object _ => exprOwnReturn object
  | .index left right | .binary left _ right | .assign left _ right =>
    exprOwnReturn left || exprOwnReturn right
  | .unary _ operand _ => exprOwnReturn operand
  | .call callee args => exprOwnReturn callee || exprsOwnReturn args
  | .construct _ args => exprsOwnReturn args
  | .array elements _ => exprsOwnReturn elements
  | .range start stop _ => optionOwnReturn start || optionOwnReturn stop
  | .block block => valueOwnReturn block
  | .matchOn scrutinee arms => exprOwnReturn scrutinee || valueArmsOwnReturn arms

/-- One of the expressions has a return of a value from the function. -/
def exprsOwnReturn : List Expr → Bool
  | [] => false
  | e :: es => exprOwnReturn e || exprsOwnReturn es

/-- The optional expression has a return of a value from the function. -/
def optionOwnReturn : Option Expr → Bool
  | none => false
  | some e => exprOwnReturn e

/-- A block that stands for a value has a return of a value from the function around it. -/
def valueOwnReturn : List Stmt → Bool
  | [] => false
  | [.expr value] => exprOwnReturn value
  | s :: ss => ownReturn s || valueOwnReturn ss

/-- An arm of a match that stands for a value has a return of a value from the function; a block
becomes a closure. -/
def valueArmsOwnReturn : List MatchArm → Bool
  | [] => false
  | ⟨pattern, .expr value⟩ :: arms =>
    patternOwnReturn pattern || exprOwnReturn value || valueArmsOwnReturn arms
  | ⟨pattern, .block _⟩ :: arms => patternOwnReturn pattern || valueArmsOwnReturn arms

/-- The pattern has a return of a value from the function. -/
def patternOwnReturn : Pattern → Bool
  | .default => false
  | .values values => exprsOwnReturn values

/-- The statement returns a value from the function that it is written into. -/
def ownReturn : Stmt → Bool
  | .binding b => bindingOwnReturn b
  | .ifThen condition thenBranch elseBranch =>
    exprOwnReturn condition || anyOwnReturn thenBranch || blockOwnReturn elseBranch
  | .whileLoop condition body => exprOwnReturn condition || anyOwnReturn body
  | .forLoop start condition step body =>
    startOwnReturn start || optionOwnReturn condition || optionOwnReturn step || anyOwnReturn body
  | .forEach _ _ iterable body => exprOwnReturn iterable || anyOwnReturn body
  | .ret value => value.isSome
  | .matchOn scrutinee arms | .expr (.matchOn scrutinee arms) =>
    exprOwnReturn scrutinee || armsOwnReturn arms
  | .switchOn subject cases => exprOwnReturn subject || casesOwnReturn cases
  | .expr value => exprOwnReturn value
  | _ => false

/-- One of the statements returns a value from the function that they are written into. -/
def anyOwnReturn : List Stmt → Bool
  | [] => false
  | s :: ss => ownReturn s || anyOwnReturn ss

/-- The optional block returns a value from the function that it is written into. -/
def blockOwnReturn : Option (List Stmt) → Bool
  | none => false
  | some block => anyOwnReturn block

/-- The value of the variable has a return of a value from the function. -/
def bindingOwnReturn : Binding → Bool
  | ⟨_, _, value, _⟩ => optionOwnReturn value

/-- The first clause of a counted loop has a return of a value from the function. -/
def startOwnReturn : Option Stmt → Bool
  | some (.binding b) => bindingOwnReturn b
  | some (.expr value) => exprOwnReturn value
  | _ => false

/-- One of the arms of a match that stands as a statement returns a value from the function. -/
def armsOwnReturn : List MatchArm → Bool
  | [] => false
  | ⟨pattern, .expr value⟩ :: arms =>
    patternOwnReturn pattern || exprOwnReturn value || armsOwnReturn arms
  | ⟨pattern, .block block⟩ :: arms =>
    patternOwnReturn pattern || anyOwnReturn block || armsOwnReturn arms

/-- One of the cases returns a value from the function. -/
def casesOwnReturn : List SwitchCase → Bool
  | [] => false
  | ⟨pattern, block⟩ :: cases =>
    patternOwnReturn pattern || anyOwnReturn block || casesOwnReturn cases

end

section

-- The equations of the family are derived once, for everything that follows.
attribute [local simp] exprOwnReturn exprsOwnReturn optionOwnReturn valueOwnReturn
  valueArmsOwnReturn patternOwnReturn ownReturn anyOwnReturn blockOwnReturn bindingOwnReturn
  startOwnReturn armsOwnReturn casesOwnReturn

end

theorem anyOwnReturn_append (ss ts : List Stmt) :
    anyOwnReturn (ss ++ ts) = (anyOwnReturn ss || anyOwnReturn ts) := by
  induction ss with
  | nil => rw [anyOwnReturn, Bool.false_or, List.nil_append]
  | cons s ss ih => rw [List.cons_append, anyOwnReturn, anyOwnReturn, ih, Bool.or_assoc]

variable {env : Env} {place : Place} {plain seen : Bool} {f : Fragment}

/-! ### Parts of expressions -/

/-- Escaping an identifier makes no `return` of it. -/
@[grind →] theorem isNoReturn_ident {name : String} (h : isNoReturn name = true) :
    isNoReturn (ident name) = true := by
  unfold ident
  split
  · exact isNoReturn_of_mem '_' (by simp) (by decide)
  · split
    · exact isNoReturn_of_mem '#' (by simp) (by decide)
    · exact h

/-- A path of plain names does not read as a `return`. -/
theorem isNoReturn_path {parts : List String} (h : parts.all isNoReturn = true) :
    isNoReturn (path parts) = true := by
  match parts with
  | [] => decide
  | [part] =>
    rw [List.all_cons, Bool.and_eq_true] at h
    exact isNoReturn_ident h.1
  | part :: part' :: parts =>
    rw [path, List.map_cons, List.map_cons, Text.join]
    · exact isNoReturn_of_mem ':' (by simp) (by decide)
    · simp

/-- A literal does not read as a `return` unless its text does. -/
theorem isNoReturn_literal {value : Literal} (h : value.everyText isNoReturn = true) :
    isNoReturn (literal value) = true := by
  cases value with
  | number text => exact h
  | string value => exact isNoReturn_of_mem '"' (by simp [literal]) (by decide)
  | char value => exact isNoReturn_of_mem '\'' (by simp [literal]) (by decide)
  | bool value => cases value <;> decide
  | null => decide

/-- No unary operator reads as a `return`. -/
theorem isNoReturn_unaryOp (op : Token) : isNoReturn (unaryOp op) = true := by
  cases op <;> decide

/-- Parentheses where needed keep what an operand tells. -/
@[grind ←] theorem tells_grouped (e : Expr) (hf : f.Tells plain seen) :
    (grouped e f).Tells plain seen := by
  unfold grouped
  split
  · exact .parens hf.2.2
  · exact hf

/-- An owned value tells what the value tells. -/
theorem tells_owned (e : Expr) (hf : f.Tells plain seen) : (owned e f).Tells plain seen := by
  unfold owned
  split <;> grind -linarith

/-- A returned value tells what the value tells. -/
theorem tells_returned (e : Expr) (hf : f.Tells plain seen) : (returned e f).Tells plain seen := by
  have howned := tells_owned e hf
  unfold returned
  split
  · split <;> grind -linarith
  · exact howned

theorem tells_iterated (e : Expr) (hf : f.Tells plain seen) : (iterated e f).Tells plain seen := by
  unfold iterated
  split <;> grind -linarith

theorem anyOwnReturn_subjectText (e : Expr) (patterns : List Pattern) (f : Fragment) :
    Piece.anyOwnReturn (subjectText e patterns f) = Piece.anyOwnReturn f := by
  unfold subjectText grouped
  split <;> split <;> simp

@[simp, grind =] theorem anyOwnReturn_chainable (f : Fragment) :
    Piece.anyOwnReturn (chainable f) = Piece.anyOwnReturn f := by
  unfold chainable
  split
  · rfl
  · exact Piece.anyOwnReturn_parens f

/-- The head of a closure does not read as a `return`. -/
theorem isNoReturn_lambdaHead {scope : Scope} (params : List Parameter) :
    (lambdaHead env scope params).Always fun head => isNoReturn (head ++ " ") = true :=
  .after fun shown => .pure (isNoReturn_of_mem '|' (by simp) (by decide))

/-- A type is no expression with a return. -/
theorem not_exprOwnReturn_of_typeName {e : Expr} {name : String}
    (h : typeName? env e = some name) : exprOwnReturn e = false := by
  cases e with
  | ident _ => rw [exprOwnReturn]
  | _ => cases h

theorem tells_chainable (hf : f.Tells plain seen) : (chainable f).Tells plain seen := by
  unfold chainable
  split
  · exact hf
  · exact .parens hf.2.2

/-- Behind nothing at all, the method itself is the start. -/
theorem tells_method {method : String} (hmethod : isNoReturn method = true)
    (hstarts : plain = true → f.startsReturn = false)
    (hf : Tells plain seen (Piece.anyOwnReturn f)) :
    (chainable f ++ text method).Tells plain seen := by
  cases f with
  | nil =>
    exact ⟨List.cons_ne_nil _ _, fun _ => by simp [chainable, Fragment.allChars, hmethod],
      by grind -linarith⟩
  | cons p ps =>
    have hchain := tells_chainable ⟨List.cons_ne_nil p ps, hstarts, hf⟩
    grind -linarith

theorem startsReturn_join {sep : String} (hf : f ≠ []) (fs : List Fragment) :
    (Fragment.join sep (f :: fs)).startsReturn = f.startsReturn := by
  cases fs with
  | nil => rw [Fragment.join]
  | cons g gs =>
    rw [Fragment.join]
    · grind -linarith
    · simp

/-- A builtin call tells what its arguments tell. -/
theorem tells_builtinCall (fn : Builtin) {argCount : Nat} (hnone : argCount = 0 → f = [])
    (hstarts : plain = true → f.startsReturn = false)
    (hf : Tells plain seen (Piece.anyOwnReturn f)) :
    (builtinCall fn argCount f).Tells plain seen := by
  have hcall : ∀ front back : String, isNoReturn front = true →
      (text front ++ f ++ text back).Tells plain seen := by grind -linarith
  cases fn with
  | print =>
    rw [builtinCall]
    split
    · rename_i hzero
      have hprint : isNoReturn "println!()" = true := by decide
      obtain rfl := hnone hzero
      grind -linarith
    · exact hcall _ _ (isNoReturn_of_mem '!' (by simp) (by decide))
  | len | str => exact tells_method (by decide) hstarts hf
  | abs =>
    have hparens := Fragment.Tells.parens hf
    rw [builtinCall]
    grind -linarith
  | min | max | sqrt => exact hcall _ _ (by decide)

/-- A unary expression tells what its operand tells. -/
theorem tells_unaryText (op : Token) (trailing : Bool) (hf : f.Tells plain seen) :
    (unaryText op trailing f).Tells plain seen := by
  have hprev : isNoReturn "\x7b let __prev = " = true := by decide
  have hbrace : isNoReturn "\x7b " = true := by decide
  have hop := isNoReturn_unaryOp op
  unfold unaryText
  split
  · split <;> grind -linarith
  · split <;> grind -linarith

/-- A binary expression tells what its operands tell. -/
theorem tells_binaryText (left : Expr) (op : Token) {g : Fragment} {plain' seen' : Bool}
    (hf : f.Tells plain seen) (hg : g.Tells plain' seen') :
    (binaryText left op f g).Tells (plain && plain') (seen || seen') := by
  have hchain := tells_chainable hf
  unfold binaryText
  split
  · grind -linarith
  · split
    · grind -linarith
    · split <;> grind -linarith

/-- An array literal tells what its items tell. -/
theorem tells_arrayLiteral {scope : Scope} {isEmpty : Bool} {elementType : Option TypeRef}
    (hnone : isEmpty = true → f = []) (hf : Tells plain seen (Piece.anyOwnReturn f)) :
    (arrayLiteral env scope isEmpty f elementType).Always (Fragment.Tells plain seen) := by
  unfold arrayLiteral
  cases elementType with
  | none =>
    dsimp only
    split
    · rename_i hempty
      have hnew : isNoReturn "Vec::new()" = true := by decide
      obtain rfl := hnone hempty
      exact .pure (by grind -linarith)
    · have hvec : isNoReturn "vec![" = true := by decide
      exact .pure (by grind -linarith)
  | some type =>
    refine .after fun spelling => ?_
    split
    · rename_i hempty
      have hnew := isNoReturn_of_mem (s := "Vec::<" ++ spelling ++ ">::new()")
        ':' (by simp) (by decide)
      obtain rfl := hnone hempty
      exact .pure (by grind -linarith)
    · have hvec := isNoReturn_of_mem (s := "Vec::<" ++ spelling ++ ">::from([")
        ':' (by simp) (by decide)
      exact .pure (by grind -linarith)

/-- The arms that are added for the rest have no return. -/
theorem anyOwnReturn_matchCode (subject : Fragment) (patterns : List Pattern) (arms : List Code) :
    Code.anyOwnReturn [matchCode subject patterns arms] =
      (Piece.anyOwnReturn subject || Code.anyOwnReturn arms) := by
  unfold matchCode
  extract_lets rest
  have hrest : Code.anyOwnReturn rest = false := by
    dsimp only [rest]
    split <;> simp
  rw [Code.anyOwnReturn_block (by decide)]
  simp [hrest]

/-! ### Functions inside bodies -/

/-- Attributes have no returns. -/
theorem anyOwnReturn_attributeLines (attributes : List Attribute) :
    (attributeLines env place attributes).Always fun cs => Code.anyOwnReturn cs = false := by
  induction attributes with
  | nil =>
    rw [attributeLines]
    exact .pure (by grind -linarith)
  | cons a attributes ih =>
    obtain ⟨name, args⟩ := a
    rw [attributeLines]
    split
    · exact ih
    · refine .after fun rendered => ?_
      extract_lets shown
      have hshown : Piece.anyOwnReturn shown = false := by
        dsimp only [shown]
        split <;> simp
      split
      · refine .bind ih fun cs hcs => .pure ?_
        have hstart := isNoReturn_of_mem (s := "#[" ++ name) '#' (by simp) (by decide)
        have hline : (text ("#[" ++ name) ++ shown ++ text "]").isReturn = false := by
          rw [Fragment.isReturn]
          grind -linarith
        grind -linarith
      · refine .after fun _ => .bind ih fun cs hcs => .pure ?_
        have hstart : isNoReturn "// " = true := by decide
        have hline : (text "// " ++ (text ("@" ++ name) ++ shown)).isReturn = false := by
          rw [Fragment.isReturn]
          grind -linarith
        unfold Code.comment
        grind -linarith

/-- Nothing in a function leaves the function around it. -/
theorem anyOwnReturn_function {options : FunctionOptions} {prologue : Place → Gen (List Code)}
    (decl : Function) : (function env place options prologue decl).Always fun cs =>
      Code.anyOwnReturn cs = false := by
  obtain ⟨name, params, returnType, generics, modifiers, attributes, body, isConstructor,
    isStatic⟩ := decl
  rw [function]
  refine .after fun marked => ?_
  split
  · exact .pure (by grind -linarith)
  split
  · exact .after fun _ => .pure (by grind -linarith)
  refine .bind (anyOwnReturn_attributeLines _) fun ls hls => .after fun ps => ?_
  extract_lets +lift shown finish
  have hfinish : ∀ returns, (finish returns).Always fun cs => Code.anyOwnReturn cs = false := by
    intro returns
    refine .after fun bounds => ?_
    refine .bind (P := fun cs => Code.anyOwnReturn cs = false) ?_ fun cs hcs =>
      .pure (by grind -linarith)
    cases body with
    | none =>
      rw [functionBody]
      split
      · exact .pure (by grind -linarith)
      · exact .pure (by grind -linarith)
    | some body =>
      rw [functionBody]
      exact .after fun before => .after fun own => .pure (by grind -linarith)
  split
  · exact hfinish _
  · exact .after fun returns => hfinish returns

/-! ### The induction over the tree -/

mutual

/-- A written expression has an own return exactly where the scan of its syntax finds one. -/
theorem tells_expr (place : Place) (position : Position) : ∀ e : Expr,
    (expr env place position e).Always
      (Fragment.Tells (e.everyText target isNoReturn) (exprOwnReturn e))
  | .literal value => by
    rw [Expr.everyText, exprOwnReturn, expr]
    have hvalue := @isNoReturn_literal value
    exact .pure (by grind -linarith)
  | .ident name => by
    rw [Expr.everyText, exprOwnReturn, expr]
    exact .pure (by grind -linarith)
  | .path parts => by
    rw [Expr.everyText, exprOwnReturn, expr]
    have hparts := @isNoReturn_path parts
    exact .pure (by grind -linarith)
  | .this => by
    rw [exprOwnReturn, expr]
    have hthis : isNoReturn (if place.inConstructor then "instance" else "self") = true := by
      split <;> decide
    exact .pure (by grind -linarith)
  | .member object name => by
    rw [Expr.everyText, exprOwnReturn, expr]
    split
    · rename_i type htype
      rw [not_exprOwnReturn_of_typeName htype]
      have hstart := isNoReturn_of_mem (s := ident type ++ "::" ++ ident name)
        ':' (by simp) (by decide)
      exact .pure (by grind -linarith)
    · refine .bind (tells_expr place .value object) fun f hf => .pure ?_
      have hf := tells_grouped object hf
      grind -linarith
  | .index object i => by
    rw [Expr.everyText, exprOwnReturn, expr]
    refine .bind (tells_expr place .value object) fun f hf =>
      .bind (tells_expr place .value i) fun g hg => .pure ?_
    have hf := tells_grouped object hf
    grind -linarith
  | .binary left op right => by
    rw [Expr.everyText, exprOwnReturn, expr]
    exact .bind (tells_expr place .value left) fun f hf =>
      .bind (tells_expr place .value right) fun g hg =>
        .pure (tells_binaryText left op (tells_grouped left hf) (tells_grouped right hg))
  | .unary op operand trailing => by
    rw [Expr.everyText, exprOwnReturn, expr]
    refine .bind (tells_expr place .value operand) fun f hf => ?_
    split
    · exact .pure (by grind -linarith)
    · exact .pure (tells_unaryText op trailing (tells_grouped operand hf))
  | .assign left op value => by
    rw [Expr.everyText, exprOwnReturn, expr]
    exact .bind (tells_expr place .value left) fun f hf =>
      .bind (tells_expr place .value value) fun g hg => .pure (by grind -linarith)
  | .call callee args => by
    have hargs := tells_ownedExprs place args
    have hcallee := tells_expr place .value callee
    rw [Expr.everyText, exprOwnReturn]
    cases callee with
    | ident name =>
      rw [exprOwnReturn, expr]
      split
      · refine .bind (tells_exprs place args) fun fs hfs => .pure ?_
        obtain ⟨hnone, hstarts, hfs⟩ := hfs
        exact tells_builtinCall _ (by grind -linarith [Fragment.join]) (by grind -linarith)
          (by grind -linarith)
      · exact .bind hargs fun fs hfs => .pure (by grind -linarith)
    | path parts =>
      rw [exprOwnReturn, expr]
      exact .bind hargs fun fs hfs => .pure (by grind -linarith)
    | member receiver name =>
      rw [Expr.everyText, exprOwnReturn, expr]
      split
      · rename_i type htype
        rw [not_exprOwnReturn_of_typeName htype, pure_bind]
        exact .bind hargs fun fs hfs => .pure (by grind -linarith)
      · refine .bind (tells_expr place .value receiver) fun f hf => ?_
        rw [pure_bind]
        refine .bind hargs fun fs hfs => .pure ?_
        have hf := tells_grouped receiver hf
        grind -linarith
    | _ =>
      simp only [expr]
      refine .bind hcallee fun f hf => .bind hargs fun fs hfs => .pure ?_
      have hf := Fragment.Tells.parens hf.2.2
      grind -linarith
  | .construct type args => by
    rw [Expr.everyText, exprOwnReturn, expr]
    refine .after fun spelling => .bind (tells_ownedExprs place args) fun fs hfs => .pure ?_
    have hstart := isNoReturn_of_mem (s := associated spelling ++ "::new(")
      '(' (by simp) (by decide)
    grind -linarith
  | .array elements elementType => by
    rw [Expr.everyText, exprOwnReturn, expr]
    refine .bind (tells_ownedExprs place elements) fun fs hfs => ?_
    exact tells_arrayLiteral (by grind -linarith [Fragment.join]) (by grind -linarith)
  | .lambda params (.expr value) => by
    rw [exprOwnReturn, expr]
    refine .bind (isNoReturn_lambdaHead params) fun head hhead => .after fun f => .pure ?_
    grind -linarith
  | .lambda params (.block block) => by
    rw [exprOwnReturn, expr]
    refine .bind (isNoReturn_lambdaHead params) fun head hhead => .after fun cs => .pure ?_
    grind -linarith
  | .range start stop inclusive => by
    rw [Expr.everyText, exprOwnReturn, expr]
    refine .bind (tells_operandOption place start) fun o ho =>
      .bind (tells_operandOption place stop) fun p hp => ?_
    have hzero : isNoReturn "0" = true := by decide
    -- Without a start the range starts at a number, and without an end it just ends.
    have hfirst : (o.getD (text "0")).Tells (Expr.optionText target isNoReturn start)
        (optionOwnReturn start) := by
      cases o with
      | none => grind -linarith
      | some f => exact ho.1 f rfl
    cases p with
    | none => exact .pure (by grind -linarith)
    | some g => exact .pure (by grind -linarith)
  | .block block => by
    rw [Expr.everyText, exprOwnReturn, expr]
    refine .bind (tells_valueBlock place block) fun cs hcs =>
      .pure ⟨List.cons_ne_nil _ _, fun _ => rfl, ?_⟩
    grind -linarith
  | .matchOn scrutinee arms => by
    rw [Expr.everyText, exprOwnReturn, expr]
    refine .bind (tells_expr place .value scrutinee) fun f hf =>
      .bind (tells_matchArms place arms) fun fs hfs => .pure ?_
    have hmatch : isNoReturn "match " = true := by decide
    have hsubject := anyOwnReturn_subjectText scrutinee (arms.map (·.pattern)) f
    have hrest : Piece.armsOwnReturn (if Pattern.anyDefault (arms.map (·.pattern)) then [] else
        [text "_ => unreachable!()"]) = false := by
      split <;> simp
    grind -linarith

theorem tells_exprs (place : Place) : ∀ es : List Expr, (exprs env place es).Always fun fs =>
    (es.length = 0 → fs = []) ∧
      (Expr.allText target isNoReturn es = true →
        (Fragment.join ", " fs).startsReturn = false) ∧
      Tells (Expr.allText target isNoReturn es) (exprsOwnReturn es) (Piece.armsOwnReturn fs)
  | [] => by
    rw [exprsOwnReturn, exprs]
    exact .pure ⟨fun _ => rfl, fun _ => rfl, by grind -linarith⟩
  | e :: es => by
    rw [Expr.allText, exprsOwnReturn, exprs]
    refine .bind (tells_expr place .value e) fun f hf => .bind (tells_exprs place es) fun fs hfs =>
      .pure ⟨fun h => absurd h (Nat.succ_ne_zero _), fun h => ?_, by grind -linarith⟩
    rw [startsReturn_join hf.1]
    grind -linarith

theorem tells_ownedExprs (place : Place) : ∀ es : List Expr,
    (ownedExprs env place es).Always fun fs => (es.isEmpty = true → fs = []) ∧
      Tells (Expr.allText target isNoReturn es) (exprsOwnReturn es) (Piece.armsOwnReturn fs)
  | [] => by
    rw [exprsOwnReturn, ownedExprs]
    exact .pure ⟨fun _ => rfl, by grind -linarith⟩
  | e :: es => by
    rw [Expr.allText, exprsOwnReturn, ownedExprs]
    refine .bind (tells_expr place .value e) fun f hf => .bind (tells_ownedExprs place es)
      fun fs hfs => .pure ⟨fun h => absurd h Bool.false_ne_true, ?_⟩
    have hf := tells_owned e hf
    grind -linarith

theorem tells_operandOption (place : Place) : ∀ e : Option Expr,
    (operandOption env place e).Always fun o =>
      (∀ f, o = some f → f.Tells (Expr.optionText target isNoReturn e) (optionOwnReturn e)) ∧
        Tells (Expr.optionText target isNoReturn e) (optionOwnReturn e) (o.any Piece.anyOwnReturn)
  | none => by
    rw [optionOwnReturn, operandOption]
    exact .pure (by grind -linarith)
  | some e => by
    rw [Expr.optionText, optionOwnReturn, operandOption]
    refine .bind (tells_expr place .value e) fun f hf => .pure ?_
    have hf := tells_grouped e hf
    exact ⟨fun g hg => Option.some.inj hg ▸ hf, hf.2.2⟩

theorem tells_ownedOption (place : Place) : ∀ e : Option Expr,
    (ownedOption env place e).Always fun o =>
      Tells (Expr.optionText target isNoReturn e) (optionOwnReturn e) (o.any Piece.anyOwnReturn)
  | none => by
    rw [optionOwnReturn, ownedOption]
    exact .pure (by grind -linarith)
  | some e => by
    rw [Expr.optionText, optionOwnReturn, ownedOption]
    exact .bind (tells_expr place .value e) fun f hf => .pure (tells_owned e hf).2.2

/-- The same of a block that is a value. -/
theorem tells_valueBlock (place : Place) : ∀ block : List Stmt,
    (valueBlock env place block).Always fun cs =>
      Tells (Stmt.allText target isNoReturn block) (valueOwnReturn block) (Code.anyOwnReturn cs)
  | [] => by
    rw [valueOwnReturn, valueBlock]
    exact .pure (by grind -linarith)
  | [s] => by
    have hs := tells_stmt place s
    rw [Stmt.allText, Stmt.allText, Bool.and_true]
    cases s with
    | expr value =>
      rw [Stmt.everyText, valueOwnReturn, valueBlock]
      split
      · refine .bind (tells_expr place .statement value) fun f hf => .pure ?_
        have hline := hf.isReturn_line
        grind -linarith
      · refine .bind (tells_expr place .value value) fun f hf => .pure ?_
        have hline := fun h => hf.isReturn_line h []
        grind -linarith
    | _ =>
      simp only [valueOwnReturn, valueBlock, Bool.or_false, pure_bind]
      exact .bind hs fun cs hcs => .pure (by grind -linarith)
  | s :: s' :: ss => by
    rw [Stmt.allText]
    simp only [valueOwnReturn, valueBlock]
    exact .bind (tells_stmt place s) fun cs hcs => .bind (tells_valueBlock place (s' :: ss))
      fun ds hds => .pure (by grind -linarith)

theorem tells_matchArms (place : Place) : ∀ arms : List MatchArm,
    (matchArms env place arms).Always fun fs =>
      Tells (MatchArm.allText target isNoReturn arms) (valueArmsOwnReturn arms)
        (Piece.armsOwnReturn fs)
  | [] => by
    rw [valueArmsOwnReturn, matchArms]
    exact .pure (by grind -linarith)
  | ⟨pattern, .expr value⟩ :: arms => by
    rw [MatchArm.allText, Body.everyText, valueArmsOwnReturn, matchArms]
    refine .bind (tells_armPattern place pattern) fun f hf =>
      .bind (tells_expr place .value value) fun g hg => .bind (tells_matchArms place arms)
        fun fs hfs => .pure ?_
    have hg := tells_owned value hg
    grind -linarith
  | ⟨pattern, .block block⟩ :: arms => by
    rw [MatchArm.allText, valueArmsOwnReturn, matchArms]
    exact .bind (tells_armPattern place pattern) fun f hf => .after fun cs =>
      .bind (tells_matchArms place arms) fun fs hfs => .pure (by grind -linarith)

theorem tells_armPattern (place : Place) : ∀ pattern : Pattern,
    (armPattern env place pattern).Always fun f =>
      Tells (pattern.everyText target isNoReturn) (patternOwnReturn pattern)
        (Piece.anyOwnReturn f)
  | .default => by
    rw [patternOwnReturn, armPattern]
    exact .pure (by grind -linarith)
  | .values values => by
    rw [Pattern.everyText, patternOwnReturn, armPattern]
    exact .bind (tells_exprs place values) fun fs hfs => .pure (by grind -linarith)

/-- A written statement has an own return exactly where the scan of its syntax finds one. -/
theorem tells_stmt (place : Place) : ∀ s : Stmt, (stmt env place s).Always fun cs =>
    Tells (s.everyText target isNoReturn) (ownReturn s) (Code.anyOwnReturn cs)
  | .binding b => by
    rw [Stmt.everyText, ownReturn, stmt]
    refine .bind (tells_binding place false b) fun f hf => .pure ?_
    have hline := hf.isReturn_line
    grind -linarith
  | .ifThen condition thenBranch elseBranch => by
    rw [Stmt.everyText, ownReturn, stmt]
    exact .bind (tells_expr place .value condition) fun f hf =>
      .bind (tells_stmts place thenBranch) fun cs hcs =>
        .bind (tells_elseChain place elseBranch) fun ds hds => .pure (by grind -linarith)
  | .whileLoop condition body => by
    rw [Stmt.everyText, ownReturn, stmt]
    exact .bind (tells_expr place .value condition) fun f hf =>
      .bind (tells_stmts _ body) fun cs hcs => .pure (by grind -linarith)
  | .forLoop start condition step body => by
    rw [Stmt.everyText, ownReturn, stmt]
    refine .bind (tells_forClause place start) fun cs hcs =>
      .bind (tells_loopHeader place condition) fun f hf => ?_
    extract_lets +lift finish
    -- With a label or without, the loop has the returns of its body.
    have hfinish : ∀ inner, Tells (Stmt.allText target isNoReturn body) (anyOwnReturn body)
        (Code.anyOwnReturn inner) → (finish inner).Always fun cs =>
          Tells (Stmt.optionText target isNoReturn start &&
            Expr.optionText target isNoReturn condition && Expr.optionText target isNoReturn step &&
            Stmt.allText target isNoReturn body)
          (startOwnReturn start || optionOwnReturn condition || optionOwnReturn step ||
            anyOwnReturn body) (Code.anyOwnReturn cs) := by
      intro inner hinner
      refine .bind (tells_stepLine place step) fun ls hls => .pure ?_
      split
      · grind -linarith
      · rename_i hnone
        obtain rfl : start = none := by simpa using hnone
        rw [startOwnReturn]
        · grind -linarith
        · simp
        · simp
    split
    · exact .after fun label => .bind (tells_stmts _ body) fun ds hds => by
        rw [pure_bind]
        exact hfinish _ (by grind -linarith)
    · exact .bind (tells_stmts _ body) fun ds hds => hfinish ds hds
  | .forEach name type iterable body => by
    rw [Stmt.everyText, ownReturn, stmt]
    refine .bind (tells_expr place .value iterable) fun f hf =>
      .bind (tells_stmts _ body) fun cs hcs => .pure ?_
    have hf := tells_iterated iterable hf
    grind -linarith
  | .ret none => by
    rw [ownReturn, stmt]
    exact .pure (by grind -linarith)
  | .ret (some value) => by
    rw [ownReturn, stmt]
    refine .bind (tells_expr place .value value) fun f hf => .pure ?_
    -- The line itself is the own return.
    rw [Code.anyOwnReturn_return (tells_returned value hf).1]
    grind -linarith
  | .breakLoop | .continueLoop => by
    rw [stmt]
    exact .pure (by grind -linarith [ownReturn])
  | .matchOn scrutinee arms => by
    rw [Stmt.everyText, ownReturn, stmt]
    refine .bind (tells_expr place .value scrutinee) fun f hf =>
      .bind (tells_matchCases place arms) fun cs hcs => .pure ?_
    rw [anyOwnReturn_matchCode, anyOwnReturn_subjectText]
    grind -linarith
  | .switchOn subject cases => by
    rw [Stmt.everyText, ownReturn, stmt]
    refine .bind (tells_expr place .value subject) fun f hf =>
      .bind (tells_switchCases place cases) fun cs hcs => .pure ?_
    rw [anyOwnReturn_matchCode, anyOwnReturn_subjectText]
    grind -linarith
  | .expr value => by
    have hvalue := tells_expr place .statement value
    rw [Stmt.everyText]
    cases value with
    -- A match that stands as a statement is written in place, so its arms return for the function.
    | matchOn scrutinee arms =>
      rw [Expr.everyText, ownReturn, stmt]
      refine .bind (tells_expr place .value scrutinee) fun f hf =>
        .bind (tells_matchCases place arms) fun cs hcs => .pure ?_
      rw [anyOwnReturn_matchCode, anyOwnReturn_subjectText]
      grind -linarith
    | _ =>
      simp only [ownReturn, stmt]
      refine .bind hvalue fun f hf => .pure ?_
      have hline := hf.isReturn_line
      grind -linarith
  | .functionDecl _ decl => by
    simp only [ownReturn, stmt]
    exact .bind (anyOwnReturn_function decl) fun cs hcs => .pure (by grind -linarith)
  | .raw block => by
    simp only [ownReturn, stmt]
    exact (anyOwnReturn_rawCode _ block).mono (by grind -linarith)
  | .typeDecl _ _ | .enumDecl _ => by
    rw [stmt]
    exact Gen.Always.fail _
  | .importDecl _ | .includeDecl _ _ | .aliasDecl _ | .namespaceDecl _ _ | .moduleDecl _
  | .fieldDecl _ | .propertyDecl _ => by
    simp only [ownReturn, stmt]
    exact .after fun _ => .pure (by grind -linarith)

/-- The same of a block. -/
theorem tells_stmts (place : Place) : ∀ ss : List Stmt, (stmts env place ss).Always fun cs =>
    Tells (Stmt.allText target isNoReturn ss) (anyOwnReturn ss) (Code.anyOwnReturn cs)
  | [] => by
    rw [anyOwnReturn, stmts]
    exact .pure (by grind -linarith)
  | s :: ss => by
    rw [Stmt.allText, anyOwnReturn, stmts]
    exact .bind (tells_stmt place s) fun cs hcs => .bind (tells_stmts place ss)
      fun ds hds => .pure (by grind -linarith)

theorem tells_binding (place : Place) (forceMutable : Bool) : ∀ b : Binding,
    (binding env place forceMutable b).Always
      (Fragment.Tells (b.everyText target isNoReturn) (bindingOwnReturn b))
  | ⟨name, type, value, mutability⟩ => by
    rw [Binding.everyText, bindingOwnReturn, binding]
    generalize hkeyword : (if (forceMutable || decide (mutability = .mutable)) = true
      then "let mut " else "let ") = keyword
    have hkeyword : 'l' ∈ keyword.toList := by
      rw [← hkeyword]
      split <;> decide
    refine .after fun spelling => .bind (tells_ownedOption place value) fun o ho => .pure ?_
    have hstart := isNoReturn_of_mem (s := keyword ++ ident name ++ spelling.elim "" (": " ++ ·))
      'l' (by simp [hkeyword]) (by decide)
    grind -linarith

theorem tells_forClause (place : Place) : ∀ start : Option Stmt,
    (forClause env place start).Always fun cs =>
      Tells (Stmt.optionText target isNoReturn start) (startOwnReturn start)
        (Code.anyOwnReturn cs)
  | none => by
    simp only [startOwnReturn, forClause]
    exact .pure (by grind -linarith)
  | some s => by
    rw [Stmt.optionText]
    cases s with
    | binding b =>
      rw [Stmt.everyText, startOwnReturn, forClause]
      refine .bind (tells_binding place true b) fun f hf => .pure ?_
      have hline := hf.isReturn_line
      grind -linarith
    | expr value =>
      rw [Stmt.everyText, startOwnReturn, forClause]
      refine .bind (tells_expr place .statement value) fun f hf => .pure ?_
      have hline := hf.isReturn_line
      grind -linarith
    | _ =>
      simp only [startOwnReturn, forClause]
      exact .after fun _ => .pure (by grind -linarith)

theorem tells_loopHeader (place : Place) : ∀ condition : Option Expr,
    (loopHeader env place condition).Always fun f =>
      Tells (Expr.optionText target isNoReturn condition) (optionOwnReturn condition)
        (Piece.anyOwnReturn f)
  | none => by
    rw [optionOwnReturn, loopHeader]
    exact .pure (by grind -linarith)
  | some condition => by
    rw [Expr.optionText, optionOwnReturn, loopHeader]
    exact .bind (tells_expr place .value condition) fun f hf => .pure (by grind -linarith)

theorem tells_stepLine (place : Place) : ∀ step : Option Expr,
    (stepLine env place step).Always fun cs =>
      Tells (Expr.optionText target isNoReturn step) (optionOwnReturn step)
        (Code.anyOwnReturn cs)
  | none => by
    rw [optionOwnReturn, stepLine]
    exact .pure (by grind -linarith)
  | some step => by
    rw [Expr.optionText, optionOwnReturn, stepLine]
    refine .bind (tells_expr place .statement step) fun f hf => .pure ?_
    have hline := hf.isReturn_line
    grind -linarith

/-- The same of the branches behind an `if`. -/
theorem tells_elseChain (place : Place) : ∀ branch : Option (List Stmt),
    (elseChain env place branch).Always fun branches =>
      Tells (Stmt.blockText target isNoReturn branch) (blockOwnReturn branch)
        (Branch.anyOwnReturn branches)
  | none => by
    rw [blockOwnReturn, elseChain]
    exact .pure (by grind -linarith)
  | some [] => by
    simp only [blockOwnReturn, anyOwnReturn, elseChain, stmts, pure_bind]
    exact .pure (by grind -linarith)
  | some [s] => by
    have hs := tells_stmts place [s]
    rw [Stmt.blockText, blockOwnReturn]
    cases s with
    | ifThen condition thenBranch elseBranch =>
      simp only [Stmt.allText, Stmt.everyText, anyOwnReturn, ownReturn, elseChain]
      exact .bind (tells_expr place .value condition) fun f hf =>
        .bind (tells_stmts place thenBranch) fun cs hcs =>
          .bind (tells_elseChain place elseBranch) fun ds hds => .pure (by grind -linarith)
    | _ =>
      simp only [elseChain]
      exact .bind hs fun cs hcs => .pure (by grind -linarith)
  | some (s :: s' :: ss) => by
    rw [Stmt.blockText, blockOwnReturn]
    simp only [elseChain]
    exact .bind (tells_stmts place (s :: s' :: ss)) fun cs hcs => .pure (by grind -linarith)

/-- The same of the arms of a match statement. -/
theorem tells_matchCases (place : Place) : ∀ arms : List MatchArm,
    (matchCases env place arms).Always fun cs =>
      Tells (MatchArm.allText target isNoReturn arms) (armsOwnReturn arms) (Code.anyOwnReturn cs)
  | [] => by
    rw [armsOwnReturn, matchCases]
    exact .pure (by grind -linarith)
  | ⟨pattern, .expr value⟩ :: arms => by
    rw [MatchArm.allText, Body.everyText, armsOwnReturn, matchCases]
    refine .bind (tells_armPattern place pattern) fun f hf =>
      .bind (tells_expr place .statement value) fun g hg => .bind (tells_matchCases place arms)
        fun cs hcs => .pure ?_
    have hline := hg.isReturn_line
    grind -linarith
  | ⟨pattern, .block block⟩ :: arms => by
    rw [MatchArm.allText, Body.everyText, armsOwnReturn, matchCases]
    exact .bind (tells_armPattern place pattern) fun f hf => .bind (tells_stmts place block)
      fun cs hcs => .bind (tells_matchCases place arms) fun ds hds => .pure (by grind -linarith)

/-- The same of the cases of a switch. -/
theorem tells_switchCases (place : Place) : ∀ cases : List SwitchCase,
    (switchCases env place cases).Always fun cs =>
      Tells (SwitchCase.allText target isNoReturn cases) (casesOwnReturn cases)
        (Code.anyOwnReturn cs)
  | [] => by
    rw [casesOwnReturn, switchCases]
    exact .pure (by grind -linarith)
  | ⟨pattern, block⟩ :: cases => by
    rw [SwitchCase.allText, casesOwnReturn, switchCases]
    exact .bind (tells_armPattern place pattern) fun f hf => .bind (tells_stmts place block)
      fun cs hcs => .bind (tells_switchCases place cases) fun ds hds => .pure (by grind -linarith)

end

end Rust

end SourceGen
