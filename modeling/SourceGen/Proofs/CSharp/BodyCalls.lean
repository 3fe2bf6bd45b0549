import SourceGen.Proofs.BuiltinCalls
import SourceGen.Proofs.CSharp.BodyAlike
import SourceGen.Proofs.LooseCode

/-!
# Calls of builtins in C# bodies

A unit with definitions of the builtins calls them by their own names. Every call of a builtin in a
tree is then a call by that name in the code: in arguments and in operands, in closures and in the
functions inside a body.

## Main results

* `CSharp.shows_expr`, `CSharp.shows_stmts`, `CSharp.shows_function`: the code of a tree has its
  calls.
-/

namespace SourceGen

open Piece (anyCalls armsCall)

variable {fn : Builtin}

namespace CSharp

open Fragment (text)

variable {env : Env} {scope : Scope}

/-! ### Parts of expressions -/

/-- Parentheses hide no call. -/
@[grind ←] theorem anyCalls_grouped (e : Expr) {f : Fragment} (h : anyCalls fn f = true) :
    anyCalls fn (grouped e f) = true := by
  unfold grouped Fragment.parens
  split
  · simp [h]
  · exact h

@[grind ←] theorem anyCalls_getD {o : Option Fragment} {default : Fragment}
    (h : o.any (anyCalls fn) = true) : anyCalls fn (o.getD default) = true := by
  cases o with
  | none => cases h
  | some f => exact h

@[grind ←] theorem anyCalls_elim {o : Option Fragment} {front : String}
    (h : o.any (anyCalls fn) = true) : anyCalls fn (o.elim [] (text front ++ ·)) = true := by
  cases o with
  | none => cases h
  | some f =>
    rw [Option.any_some] at h
    simp [h]

/-- A bare call of a builtin is written under its own name. -/
theorem shows_builtinOrShim (hshims : env.config.emitShims) (argCount : Nat)
    (args : Fragment) (called : Builtin) :
    (builtinOrShim env called argCount args).Shows (called == fn || anyCalls fn args)
      (anyCalls fn) := by
  rw [builtinOrShim, if_pos hshims]
  refine .pure fun h => ?_
  rw [Piece.anyCalls_append, Piece.anyCalls_append]
  rw [Bool.or_eq_true] at h
  rcases h with h | h
  · obtain rfl : called = fn := by simpa using h
    have hstart : anyCalls called (text (called.name ++ "(")) = true := Piece.anyCalls_callStart
    rw [hstart, Bool.true_or, Bool.true_or]
  · rw [h, Bool.or_true, Bool.true_or]

/-- An array literal shows the calls in its items. -/
theorem shows_arrayLiteral (isEmpty : Bool) (items : Fragment) (elementType : Option TypeRef) :
    (arrayLiteral env scope isEmpty items elementType).Shows (anyCalls fn items) (anyCalls fn) := by
  -- A blank fragment is left out, but it has no calls.
  have hbody : anyCalls fn items = true →
      anyCalls fn (if items.isBlank then text "\x7b \x7d" else
        text "\x7b " ++ items ++ text " \x7d") = true := by
    intro h
    split
    · rename_i hblank
      rw [Piece.not_anyCalls_of_isBlank hblank] at h
      exact absurd h Bool.false_ne_true
    · simp [h]
  unfold arrayLiteral
  cases elementType with
  | none => exact .pure fun h => by rw [Piece.anyCalls_append, hbody h, Bool.or_true]
  | some type =>
    exact .after fun _ => .pure fun h => by rw [Piece.anyCalls_append, hbody h, Bool.or_true]

/-- An integer literal has no calls. -/
theorem not_inExpr_of_integer {e : Expr} (h : e.integer?.isSome = true) : fn.inExpr e = false := by
  fun_induction Expr.integer? e with
  | case1 text => rw [Builtin.inExpr]
  | case2 operand ih =>
    rw [Builtin.inExpr]
    refine ih ?_
    cases hn : operand.integer? with
    | none => simp [hn] at h
    | some n => rfl
  | case3 => cases h

/-- The count shows the calls in the end: an end that is not written is a literal. -/
theorem shows_rangeCount {r : Range} {start stop : Gen (Option Fragment)}
    (hstop : stop.Shows (fn.inExprOption r.stop) (·.any (anyCalls fn))) :
    (rangeCount r start stop).Shows (fn.inExprOption r.stop) (anyCalls fn) := by
  unfold rangeCount
  split
  · rename_i count hcount
    obtain ⟨hcount, -⟩ := Option.filter_eq_some_iff.mp hcount
    have hliteral := Range.hasLiteralBounds_of_count hcount
    rw [Range.hasLiteralBounds, Bool.and_eq_true] at hliteral
    refine .pure fun h => ?_
    cases hr : r.stop with
    | none =>
      rw [hr, Builtin.inExprOption] at h
      exact absurd h Bool.false_ne_true
    | some e =>
      rw [hr, Builtin.inExprOption, not_inExpr_of_integer (by simpa [hr] using hliteral.2)] at h
      exact absurd h Bool.false_ne_true
  · -- The optional parts of the number are written by continuations, the last one first here.
    extract_lets +lift finish subtract count
    have hfinish : ∀ f, (finish f).Shows (anyCalls fn f) (anyCalls fn) := by
      intro f
      refine .pure fun h => ?_
      split
      · simp [h]
      · exact h
    have hsubtract : ∀ f,
        (subtract f).Shows (anyCalls fn f) (anyCalls fn) := by
      intro f
      dsimp only [subtract]
      split
      · split
        · exact hfinish f
        · exact .after fun o => (hfinish _).mono fun g hg h => hg (by simp [h])
      · exact hfinish f
    have hcount : ∀ u, (count u).Shows (fn.inExprOption r.stop) (anyCalls fn) := by
      intro u
      dsimp only [count]
      split
      · rename_i e he
        exact .bind hstop fun o ho => (hsubtract _).mono fun g hg h =>
          hg (anyCalls_grouped e (anyCalls_getD (ho h)))
      · rename_i hnone
        refine (hsubtract _).mono fun g hg h => ?_
        rw [hnone, Builtin.inExprOption] at h
        exact absurd h Bool.false_ne_true
    split
    · exact .after fun u => hcount u
    · exact hcount ()

theorem anyCalls_labels {fs : List Fragment} (h : armsCall fn fs = true) :
    Code.anyCalls fn (fs.map fun v => .line (text "case " ++ v ++ text ":")) = true := by
  induction fs with
  | nil => rw [armsCall] at h; exact absurd h Bool.false_ne_true
  | cons f fs ih =>
    rw [armsCall, Bool.or_eq_true] at h
    rw [List.map_cons, Code.anyCalls_line, Bool.or_eq_true]
    exact h.imp (fun h => by simp [h]) ih

/-- A range shows the calls in its ends. -/
theorem shows_indexSequence {r : Range} {start stop : Gen (Option Fragment)}
    (hstart : start.Shows (fn.inExprOption r.start) (·.any (anyCalls fn)))
    (hstop : stop.Shows (fn.inExprOption r.stop) (·.any (anyCalls fn))) :
    (indexSequence r start stop).Shows (fn.inExprOption r.start || fn.inExprOption r.stop)
      (anyCalls fn) := by
  unfold indexSequence
  refine .after fun _ => .bind hstart fun o ho => .bind (shows_rangeCount hstop) fun g hg => ?_
  refine .pure fun h => ?_
  rw [Bool.or_eq_true] at h
  rcases h with h | h
  · simp [anyCalls_getD (ho h)]
  · simp [hg h]

/-- A body that is called at once shows its calls. -/
@[grind ←] theorem anyCalls_invoked {body : List Code} (h : Code.anyCalls fn body = true) :
    anyCalls fn (invoked body) = true := by
  simp [invoked, h]

@[grind ←] theorem anyCalls_loopCode {number : Nat} {header : Fragment} {body : List Code}
    (h : (anyCalls fn header || Code.anyCalls fn body) = true) :
    Code.anyCalls fn (loopCode number header body) = true := by
  rw [loopCode, Code.anyCalls_block, h, Bool.true_or]

@[grind ←] theorem anyCalls_effectLine (e : Expr) {f : Fragment} {cs : List Code}
    (h : anyCalls fn f = true) : Code.anyCalls fn (effectLine e f :: cs) = true := by
  unfold effectLine
  split <;> simp [h]

@[grind ←] theorem anyCalls_variableText (mutability : Mutability) (name : String)
    (type : Option String) {value : Option Fragment} (h : value.any (anyCalls fn) = true) :
    anyCalls fn (variableText mutability name type value) = true := by
  cases value with
  | none => cases h
  | some f =>
    rw [Option.any_some] at h
    cases type <;> simp [variableText, h]

@[grind ←] theorem anyCalls_caseBlock (block : List Stmt) {code : List Code}
    (h : Code.anyCalls fn code = true) : Code.anyCalls fn (caseBlock block code) = true := by
  unfold caseBlock
  extract_lets closed
  have hclosed : Code.anyCalls fn closed = true := by
    dsimp only [closed]
    split <;> simp [h]
  split <;> simp [hclosed]

/-! ### The induction over the tree -/

mutual

/-- A written expression shows the helper calls in its syntax, by induction on it. -/
theorem shows_expr (hshims : env.config.emitShims) (scope : Scope) :
    ∀ e : Expr, (expr env scope e).Shows (fn.inExpr e) (anyCalls fn)
  | .literal _ | .ident _ | .path _ | .this => by
    rw [Builtin.inExpr, expr]
    exact .nothing
  | .member object _ => by
    rw [Builtin.inExpr, expr]
    exact .bind (shows_expr hshims scope object) fun f hf => .pure (by grind -linarith)
  | .index object i => by
    rw [Builtin.inExpr, expr]
    exact .bind (shows_expr hshims scope object) fun f hf =>
      .bind (shows_expr hshims scope i) fun g hg => .pure (by grind -linarith)
  | .binary left op right => by
    rw [Builtin.inExpr, expr]
    refine .bind (shows_expr hshims scope left) fun f hf =>
      .bind (shows_expr hshims scope right) fun g hg => ?_
    split
    · exact .after fun _ => .pure (by grind -linarith)
    · exact .pure (by grind -linarith)
  | .unary _ operand _ => by
    rw [Builtin.inExpr, expr]
    exact .bind (shows_expr hshims scope operand) fun f hf => .pure (by grind -linarith)
  | .assign left _ value => by
    rw [Builtin.inExpr, expr]
    exact .bind (shows_expr hshims scope left) fun f hf =>
      .bind (shows_expr hshims scope value) fun g hg => .pure (by grind -linarith)
  | .call callee args => by
    have hargs := shows_exprs hshims scope args
    have hcallee := shows_expr hshims scope callee
    rw [Builtin.inExpr, Builtin.isCallee]
    -- The arguments are written first.
    cases callee with
    | ident name =>
      rw [Builtin.inExpr, expr]
      refine .bind hargs fun fs hfs => ?_
      cases Callee.of (.ident name) with
      | builtin called _ =>
        exact (@shows_builtinOrShim fn _ hshims _ _ called).mono (by grind -linarith)
      | _ => exact .pure (by grind -linarith)
    | path parts =>
      rw [Builtin.inExpr, expr, Callee.of]
      exact .bind hargs fun fs hfs => .pure (by grind -linarith)
    | member receiver name =>
      rw [Builtin.inExpr, expr, Callee.of]
      exact .bind hargs fun fs hfs => .bind (shows_expr hshims scope receiver) fun f hf =>
        .pure (by grind -linarith)
    | _ =>
      simp only [expr, Callee.of]
      exact .bind hargs fun fs hfs => .bind hcallee fun f hf => .pure (by grind -linarith)
  | .construct type args => by
    rw [Builtin.inExpr, expr]
    exact .after fun _ => .bind (shows_exprs hshims scope args) fun fs hfs =>
      .pure (by grind -linarith)
  | .array elements elementType => by
    rw [Builtin.inExpr, expr]
    exact .bind (shows_exprs hshims scope elements) fun fs hfs =>
      (@shows_arrayLiteral fn _ _ _ _ _).mono (by grind -linarith)
  | .lambda params (.expr value) => by
    rw [Builtin.inExpr, Builtin.inBody, expr]
    exact .after fun _ => .bind (shows_expr hshims scope value) fun f hf =>
      .pure (by grind -linarith)
  | .lambda params (.block block) => by
    rw [Builtin.inExpr, Builtin.inBody, expr]
    exact .after fun _ => .bind (shows_stmts hshims scope none block) fun cs hcs =>
      .pure (by grind -linarith)
  | .range start stop inclusive => by
    rw [Builtin.inExpr, expr]
    exact shows_indexSequence (shows_exprOption hshims scope start)
      (shows_exprOption hshims scope stop)
  | .block block => by
    rw [Builtin.inExpr, expr]
    exact .after fun _ => .bind (shows_valueBlock hshims scope block) fun cs hcs =>
      .pure (by grind -linarith)
  | .matchOn scrutinee arms => by
    rw [Builtin.inExpr, expr]
    exact .bind (shows_expr hshims scope scrutinee) fun f hf =>
      .bind (shows_switchArms hshims scope arms) fun fs hfs => .pure (by grind -linarith)

theorem shows_exprs (hshims : env.config.emitShims) (scope : Scope) :
    ∀ es : List Expr,
      (exprs env scope es).Shows (fn.inExprs es) (armsCall fn)
  | [] => by
    rw [Builtin.inExprs, exprs]
    exact .nothing
  | e :: es => by
    rw [Builtin.inExprs, exprs]
    exact .bind (shows_expr hshims scope e) fun f hf =>
      .bind (shows_exprs hshims scope es) fun fs hfs => .pure (by grind -linarith)

theorem shows_exprOption (hshims : env.config.emitShims) (scope : Scope) :
    ∀ e : Option Expr, (exprOption env scope e).Shows (fn.inExprOption e) (·.any (anyCalls fn))
  | none => by
    rw [Builtin.inExprOption, exprOption]
    exact .nothing
  | some e => by
    rw [Builtin.inExprOption, exprOption]
    exact .bind (shows_expr hshims scope e) fun f hf => .pure hf

/-- The same of a block that is a value. -/
theorem shows_valueBlock (hshims : env.config.emitShims) (scope : Scope) :
    ∀ block : List Stmt, (valueBlock env scope block).Shows (fn.inStmts block) (Code.anyCalls fn)
  | [] => by
    rw [Builtin.inStmts]
    exact .nothing
  | [s] => by
    have hs := shows_stmt hshims scope none s
    rw [Builtin.inStmts, Builtin.inStmts, Bool.or_false]
    cases s with
    | expr value =>
      rw [Builtin.inStmt, valueBlock]
      exact .bind (shows_expr hshims scope value) fun f hf => .pure (by grind -linarith)
    | _ =>
      simp only [valueBlock]
      exact .bind hs fun cs hcs => .pure (by grind -linarith)
  | s :: s' :: ss => by
    rw [Builtin.inStmts]
    simp only [valueBlock]
    exact .bind (shows_stmt hshims scope none s) fun cs hcs =>
      .bind (shows_valueBlock hshims scope (s' :: ss)) fun ds hds => .pure (by grind -linarith)

theorem shows_switchArms (hshims : env.config.emitShims) (scope : Scope) :
    ∀ arms : List MatchArm,
      (switchArms env scope arms).Shows (fn.inArms arms) (armsCall fn)
  | [] => by
    rw [Builtin.inArms, switchArms]
    exact .nothing
  | ⟨pattern, .expr value⟩ :: arms => by
    rw [Builtin.inArms, Builtin.inBody, switchArms]
    exact .bind (shows_armSelector hshims scope pattern) fun f hf =>
      .bind (shows_expr hshims scope value) fun g hg =>
        .bind (shows_switchArms hshims scope arms) fun fs hfs => .pure (by grind -linarith)
  | ⟨pattern, .block block⟩ :: arms => by
    rw [Builtin.inArms, Builtin.inBody, switchArms]
    exact .bind (shows_armSelector hshims scope pattern) fun f hf => .after fun _ =>
      .bind (shows_stmts hshims scope none block) fun cs hcs =>
        .bind (shows_switchArms hshims scope arms) fun fs hfs => .pure (by grind -linarith)

theorem shows_armSelector (hshims : env.config.emitShims) (scope : Scope) :
    ∀ pattern : Pattern,
      (armSelector env scope pattern).Shows (fn.inPattern pattern) (anyCalls fn)
  | .default => by
    rw [Builtin.inPattern]
    exact .nothing
  | .values values => by
    rw [Builtin.inPattern, armSelector]
    exact .bind (shows_exprs hshims scope values) fun fs hfs => .pure (by grind -linarith)

/-- A written statement shows the helper calls in its syntax. -/
theorem shows_stmt (hshims : env.config.emitShims) (scope : Scope) (loop : Option LoopFrame) :
    ∀ s : Stmt, (stmt env scope loop s).Shows (fn.inStmt s) (Code.anyCalls fn)
  | .binding b => by
    rw [Builtin.inStmt, stmt]
    exact .bind (shows_binding hshims scope b) fun f hf => .pure (by grind -linarith)
  | .ifThen condition thenBranch elseBranch => by
    rw [Builtin.inStmt, stmt]
    exact .bind (shows_expr hshims scope condition) fun f hf =>
      .bind (shows_stmts hshims scope loop thenBranch) fun cs hcs =>
        .bind (shows_elseChain hshims scope loop elseBranch) fun ds hds =>
          .pure (by grind -linarith)
  | .whileLoop condition body => by
    rw [Builtin.inStmt, stmt]
    exact .bind (shows_expr hshims scope condition) fun f hf => .after fun _ =>
      .bind (shows_stmts hshims scope _ body) fun cs hcs => .pure (by grind -linarith)
  | .forLoop start condition step body => by
    rw [Builtin.inStmt, stmt]
    exact .bind (shows_forClause hshims scope start) fun f hf =>
      .bind (shows_exprOption hshims scope condition) fun c hc =>
        .bind (shows_exprOption hshims scope step) fun o ho => .after fun _ =>
          .bind (shows_stmts hshims scope _ body) fun cs hcs => .pure (by grind -linarith)
  | .forEach name type iterable body => by
    have hiterable := shows_expr hshims scope iterable
    -- The header depends on what is iterated, the rest of the loop does not.
    have hloop : ∀ header : Fragment,
        (do
          let number ← Gen.freshLabel
          return loopCode number header (← stmts env scope (some ⟨number, false⟩) body) :
            Gen (List Code)).Shows (anyCalls fn header || fn.inStmts body) (Code.anyCalls fn) :=
      fun _ => .after fun _ => .bind (shows_stmts hshims scope _ body) fun cs hcs =>
        .pure (by grind -linarith)
    rw [Builtin.inStmt]
    cases iterable with
    | range start stop inclusive =>
      have hstart := shows_exprOption hshims scope start
      have hstop := shows_exprOption hshims scope stop
      rw [stmt, Builtin.inExpr]
      refine .after fun _ => ?_
      cases stop with
      | none =>
        rw [Builtin.inExprOption]
        exact .bind hstart fun o ho => (hloop _).mono (by grind -linarith)
      | some stop =>
        have hsequence := shows_indexSequence (r := ⟨start, some stop, inclusive⟩) hstart hstop
        exact .bind hsequence fun f hf => (hloop _).mono (by grind -linarith)
    | _ =>
      simp only [stmt]
      exact .after fun _ => .bind hiterable fun f hf => (hloop _).mono (by grind -linarith)
  | .ret none => by
    rw [Builtin.inStmt, Builtin.inExprOption]
    exact .nothing
  | .ret (some value) => by
    rw [Builtin.inStmt, Builtin.inExprOption, stmt]
    exact .bind (shows_expr hshims scope value) fun f hf => .pure (by grind -linarith)
  | .matchOn scrutinee arms => by
    rw [Builtin.inStmt, stmt]
    exact .bind (shows_expr hshims scope scrutinee) fun f hf =>
      .bind (shows_matchCases hshims scope _ arms) fun cs hcs => .pure (by grind -linarith)
  | .switchOn subject cases => by
    rw [Builtin.inStmt, stmt]
    exact .bind (shows_expr hshims scope subject) fun f hf =>
      .bind (shows_switchCases hshims scope _ cases) fun cs hcs => .pure (by grind -linarith)
  | .expr value => by
    have hvalue := shows_expr hshims scope value
    rw [Builtin.inStmt]
    cases value with
    | matchOn scrutinee arms =>
      rw [Builtin.inExpr, stmt]
      exact .bind (shows_expr hshims scope scrutinee) fun f hf =>
        .bind (shows_matchCases hshims scope _ arms) fun cs hcs => .pure (by grind -linarith)
    | _ =>
      simp only [stmt]
      exact .bind hvalue fun f hf => .pure (by grind -linarith)
  | .functionDecl _ decl => by
    rw [Builtin.inStmt, stmt]
    exact .bind (@shows_function hshims scope _ _ false (fun _ => .pure (by simp)) decl)
      fun cs hcs => .pure (by grind -linarith)
  | .typeDecl _ _ | .enumDecl _ | .breakLoop | .continueLoop | .raw _ | .importDecl _
  | .includeDecl _ _ | .aliasDecl _ | .namespaceDecl _ _ | .moduleDecl _ | .fieldDecl _
  | .propertyDecl _ => by
    rw [Builtin.inStmt]
    exact .nothing

/-- The same of a block. -/
theorem shows_stmts (hshims : env.config.emitShims) (scope : Scope) (loop : Option LoopFrame) :
    ∀ ss : List Stmt, (stmts env scope loop ss).Shows (fn.inStmts ss) (Code.anyCalls fn)
  | [] => by
    rw [Builtin.inStmts]
    exact .nothing
  | s :: ss => by
    rw [Builtin.inStmts, stmts]
    exact .bind (shows_stmt hshims scope loop s) fun cs hcs =>
      .bind (shows_stmts hshims scope loop ss) fun ds hds => .pure (by grind -linarith)

theorem shows_binding (hshims : env.config.emitShims) (scope : Scope) :
    ∀ b : Binding, (binding env scope b).Shows (fn.inBinding b) (anyCalls fn)
  | ⟨name, type, value, mutability⟩ => by
    rw [Builtin.inBinding, binding]
    exact .bind (shows_exprOption hshims scope value) fun o ho => .after fun _ =>
      .pure (by grind -linarith)

theorem shows_forClause (hshims : env.config.emitShims) (scope : Scope) :
    ∀ start : Option Stmt, (forClause env scope start).Shows (fn.inLoopStart start) (anyCalls fn)
  | none => by
    rw [Builtin.inLoopStart]
    · exact .nothing
    · simp
    · simp
  | some s => by
    cases s with
    | binding b =>
      rw [Builtin.inLoopStart, forClause]
      exact shows_binding hshims scope b
    | expr value =>
      rw [Builtin.inLoopStart, forClause]
      exact shows_expr hshims scope value
    | _ =>
      simp only [Builtin.inLoopStart]
      exact .nothing

theorem shows_elseChain (hshims : env.config.emitShims) (scope : Scope) (loop : Option LoopFrame) :
    ∀ branch : Option (List Stmt),
      (elseChain env scope loop branch).Shows (fn.inBlockOption branch) (Code.anyCalls fn)
  | none => by
    rw [Builtin.inBlockOption]
    exact .nothing
  | some [] => by
    rw [Builtin.inBlockOption, Builtin.inStmts]
    exact .nothing
  | some [s] => by
    have hs := shows_stmts hshims scope loop [s]
    rw [Builtin.inBlockOption]
    cases s with
    | ifThen condition thenBranch elseBranch =>
      rw [Builtin.inStmts, Builtin.inStmts, Bool.or_false, Builtin.inStmt, elseChain]
      exact .bind (shows_expr hshims scope condition) fun f hf =>
        .bind (shows_stmts hshims scope loop thenBranch) fun cs hcs =>
          .bind (shows_elseChain hshims scope loop elseBranch) fun ds hds =>
            .pure (by grind -linarith)
    | _ =>
      simp only [elseChain]
      exact .bind hs fun cs hcs => .pure (by grind -linarith)
  | some (s :: s' :: ss) => by
    rw [Builtin.inBlockOption]
    simp only [elseChain]
    exact .bind (shows_stmts hshims scope loop (s :: s' :: ss)) fun cs hcs =>
      .pure (by grind -linarith)

theorem shows_caseLabels (hshims : env.config.emitShims) (scope : Scope) :
    ∀ pattern : Pattern,
      (caseLabels env scope pattern).Shows (fn.inPattern pattern) (Code.anyCalls fn)
  | .default => by
    rw [Builtin.inPattern]
    exact .nothing
  | .values values => by
    rw [Builtin.inPattern, caseLabels]
    exact .bind (shows_exprs hshims scope values) fun fs hfs =>
      .pure fun h => anyCalls_labels (hfs h)

theorem shows_matchCases (hshims : env.config.emitShims) (scope : Scope) (loop : Option LoopFrame) :
    ∀ arms : List MatchArm,
      (matchCases env scope loop arms).Shows (fn.inArms arms) (Code.anyCalls fn)
  | [] => by
    rw [Builtin.inArms]
    exact .nothing
  | ⟨pattern, .expr value⟩ :: arms => by
    rw [Builtin.inArms, Builtin.inBody, matchCases]
    exact .bind (shows_caseLabels hshims scope pattern) fun ls hls =>
      .bind (shows_expr hshims scope value) fun f hf =>
        .bind (shows_matchCases hshims scope loop arms) fun cs hcs => .pure (by grind -linarith)
  | ⟨pattern, .block block⟩ :: arms => by
    rw [Builtin.inArms, Builtin.inBody, matchCases]
    exact .bind (shows_caseLabels hshims scope pattern) fun ls hls =>
      .bind (shows_stmts hshims scope loop block) fun cs hcs =>
        .bind (shows_matchCases hshims scope loop arms) fun ds hds => .pure (by grind -linarith)

theorem shows_switchCases (hshims : env.config.emitShims) (scope : Scope)
    (loop : Option LoopFrame) :
    ∀ cases : List SwitchCase,
      (switchCases env scope loop cases).Shows (fn.inCases cases) (Code.anyCalls fn)
  | [] => by
    rw [Builtin.inCases]
    exact .nothing
  | ⟨pattern, block⟩ :: cases => by
    rw [Builtin.inCases, switchCases]
    exact .bind (shows_caseLabels hshims scope pattern) fun ls hls =>
      .bind (shows_stmts hshims scope loop block) fun cs hcs =>
        .bind (shows_switchCases hshims scope loop cases) fun ds hds => .pure (by grind -linarith)

theorem shows_attributeLines (hshims : env.config.emitShims) (scope : Scope) :
    ∀ attributes : List Attribute,
      (attributeLines env scope attributes).Shows (fn.inAttributes attributes) (Code.anyCalls fn)
  | [] => by
    rw [Builtin.inAttributes]
    exact .nothing
  | ⟨name, args⟩ :: attributes => by
    rw [Builtin.inAttributes, attributeLines]
    split
    · rename_i hmarker
      rw [← Option.not_isSome, hmarker, Bool.not_true, Bool.false_and, Bool.false_or]
      exact shows_attributeLines hshims scope attributes
    · refine .bind (shows_exprs hshims scope args) fun fs hfs =>
        .bind (shows_attributeLines hshims scope attributes) fun cs hcs => .pure ?_
      cases args with
      | nil => rw [Builtin.inExprs]; grind -linarith
      | cons a as => grind -linarith

theorem shows_parameters (hshims : env.config.emitShims) (scope : Scope) :
    ∀ params : List Parameter,
      (parameters env scope params).Shows (fn.inParameters params) (armsCall fn)
  | [] => by
    rw [Builtin.inParameters]
    exact .nothing
  | ⟨name, type, default⟩ :: params => by
    rw [Builtin.inParameters, parameters]
    exact .after fun _ => .bind (shows_exprOption hshims scope default) fun o ho =>
      .bind (shows_parameters hshims scope params) fun fs hfs => .pure (by grind -linarith)

/-- What is written ahead of the body shows as well, if there is a body. -/
theorem shows_function (hshims : env.config.emitShims) (scope : Scope) (options : FunctionOptions)
    {prologue : Scope → Gen (List Code)} {before : Bool}
    (hprologue : ∀ scope, (prologue scope).Shows before (Code.anyCalls fn)) :
    ∀ decl : Function,
      (function env scope options prologue decl).Shows
        (fn.inFunction decl || (before && decl.isHost)) (Code.anyCalls fn)
  | ⟨name, params, returnType, generics, modifiers, attributes, body, isConstructor,
      isStatic⟩ => by
    rw [Builtin.inFunction, Function.isHost, Function.marker, function]
    refine .given (target.always_skipMarked _ _ _) fun marked hmarked => ?_
    rw [← Option.not_isSome, ← hmarked]
    split
    · exact .pure (by grind -linarith)
    split
    · exact .after fun _ => .pure (by grind -linarith)
    extract_lets makeStatic inner words
    refine .bind (shows_attributeLines hshims inner attributes) fun ls hls =>
      .bind (shows_parameters hshims inner params) fun ps hps => ?_
    -- The kinds of functions differ in their heads, but all have the parameters in them.
    extract_lets +lift shown finish named
    have hfinish : ∀ front back : Fragment, (finish (front ++ shown ++ back)).Shows
        (fn.inAttributes attributes || (fn.inParameters params || fn.inBlockOption body) ||
          (before && body.isSome)) (Code.anyCalls fn) := by
      intro front back
      have hshown : fn.inParameters params = true → anyCalls fn (front ++ shown ++ back) = true :=
        fun h => by simp [shown, Piece.anyCalls_join ", " (hps h)]
      exact .bind (shows_functionBody hshims _ hprologue _ body) fun cs hcs =>
        .pure (by grind -linarith)
    have hnamed : ∀ returns, (named returns).Shows
        (fn.inAttributes attributes || (fn.inParameters params || fn.inBlockOption body) ||
          (before && body.isSome)) (Code.anyCalls fn) :=
      fun _ => .after fun _ => hfinish _ _
    refine @Gen.Shows.mono _ _ (fn.inAttributes attributes ||
      (fn.inParameters params || fn.inBlockOption body) || (before && body.isSome)) _
      (Code.anyCalls fn) _ ?_ (by grind -linarith)
    split
    · exact hfinish _ _
    · split
      · exact hnamed _
      · exact .after fun _ => hnamed _

/-- The same of a body behind a prologue that shows its own. -/
theorem shows_functionBody (hshims : env.config.emitShims) (scope : Scope)
    {prologue : Scope → Gen (List Code)} {before : Bool}
    (hprologue : ∀ scope, (prologue scope).Shows before (Code.anyCalls fn)) (head : Fragment) :
    ∀ body : Option (List Stmt),
      (functionBody env scope prologue head body).Shows
        (anyCalls fn head || fn.inBlockOption body || (before && body.isSome)) (Code.anyCalls fn)
  | none => by
    rw [Builtin.inBlockOption, functionBody]
    exact .pure (by grind -linarith)
  | some body => by
    rw [Builtin.inBlockOption, functionBody]
    exact .bind (hprologue scope) fun cs hcs => .bind (shows_stmts hshims scope none body)
      fun ds hds => .pure (by grind -linarith)

end

end CSharp

end SourceGen
