import SourceGen.Proofs.Rust.JumpShape
import SourceGen.Proofs.Yields

/-!
# Rust bodies make the jumps of their traces

Everything that the generator writes for expressions, statements and functions makes the jumps that
the traces say, no more and no less. First come the parts that put only text around what they are
given, then one induction over the tree.

## Main results

* `Rust.shows_expr`: the fragments of expressions.
* `Rust.shows_stmts`: the code of statements.
* `Rust.shows_function`: the code of functions.
-/

namespace SourceGen

namespace Rust

open Fragment (text)

/-! ### Text around fragments -/

section Marks

variable (e : Expr) (f : Fragment)

@[simp] theorem allMarks_grouped : Piece.allMarks (grouped e f) = Piece.allMarks f := by
  unfold grouped
  split <;> simp

@[simp] theorem allMarks_owned : Piece.allMarks (owned e f) = Piece.allMarks f := by
  unfold owned
  split <;> simp

@[simp] theorem allMarks_chainable : Piece.allMarks (chainable f) = Piece.allMarks f := by
  unfold chainable
  split <;> simp

@[simp] theorem allMarks_binaryText (left : Expr) (op : Token) (l r : Fragment) :
    Piece.allMarks (binaryText left op l r) = Piece.allMarks l ++ Piece.allMarks r := by
  unfold binaryText
  split
  · simp
  split
  · simp
  split <;> simp

@[simp] theorem allMarks_subjectText (patterns : List Pattern) :
    Piece.allMarks (subjectText e patterns f) = Piece.allMarks f := by
  unfold subjectText
  split <;> simp

@[simp] theorem allMarks_returned : Piece.allMarks (returned e f) = Piece.allMarks f := by
  unfold returned
  split
  · split <;> simp
  · simp

@[simp] theorem allMarks_iterated : Piece.allMarks (iterated e f) = Piece.allMarks f := by
  unfold iterated
  split <;> simp

end Marks

variable {env : Env} {label : Option Nat} {t : JumpShape} {f : Fragment}

/-- The operand of a step is written twice. -/
theorem shows_unaryText {op : Token} {trailing : Bool} (h : Shows label t (Piece.allMarks f)) :
    Shows label t (Piece.allMarks (unaryText op trailing f)) := by
  unfold unaryText
  split
  · split
    · simpa using h.double
    · simpa using h.double
  · split <;> simpa using h

/-- A call without arguments may leave their fragment out. -/
theorem shows_builtinCall {fn : Builtin} {args : List Expr}
    (h : Shows label (Expr.allShape args) (Piece.allMarks f)) :
    Shows label (Expr.allShape args) (Piece.allMarks (builtinCall fn args.length f)) := by
  cases fn with
  | print =>
    simp only [builtinCall]
    split
    · rename_i hempty
      rw [List.length_eq_zero_iff.mp hempty, Expr.allShape, Piece.allMarks_text]
      exact .empty
    · simpa using h
  | _ => simpa [builtinCall] using h

/-- An array literal shows the shapes of its elements. -/
theorem shows_arrayLiteral {scope : Scope} {elements : List Expr} {elementType : Option TypeRef}
    (h : Shows label (Expr.allShape elements) (Piece.allMarks f)) :
    (arrayLiteral env scope elements.isEmpty f elementType).Always fun g =>
      Shows label (Expr.allShape elements) (Piece.allMarks g) := by
  have hempty : ∀ s : String, elements.isEmpty = true →
      Shows label (Expr.allShape elements) (Piece.allMarks (text s)) := by
    intro s hnil
    rw [List.isEmpty_iff.mp hnil, Expr.allShape, Piece.allMarks_text]
    exact .empty
  unfold arrayLiteral
  split
  · refine .after fun spelling => ?_
    split
    · exact .pure (hempty _ ‹_›)
    · exact .pure (by simpa using h)
  · split
    · exact .pure (hempty _ ‹_›)
    · exact .pure (by simpa using h)

/-- The name of a type has no jumps in it. -/
theorem shape_of_typeName? {object : Expr} {name : String} (h : typeName? env object = some name) :
    object.shape = .empty := by
  cases object <;> simp_all [typeName?, Expr.shape]

/-- A match shows the shape of its subject, then those of its arms. -/
theorem shows_matchCode {subject : Fragment} {patterns : List Pattern} {arms : List Code}
    {s t : JumpShape} (hs : Shows label s (Piece.allMarks subject))
    (ht : Shows label t (Code.allMarks arms)) :
    Shows label (s ++ t) (Code.allMarks [matchCode subject patterns arms]) := by
  have hrest : Code.allMarks (if Pattern.anyDefault patterns then []
      else [Code.text "_ => \x7b\x7d"]) = [] := by
    split <;> simp [Code.text]
  rw [Code.allMarks_singleton, matchCode, Code.marks_block rfl, Code.allMarks_append, hrest,
    List.append_nil, Piece.allMarks_append, Piece.allMarks_text, List.nil_append]
  exact hs.append ht.switch

/-- A raw block has no jumps that are known. -/
theorem allMarks_rawCode (raw : RawBlock) :
    (target.rawCode raw).Always fun cs => Code.allMarks cs = [] := by
  refine (Gen.Ensures.always fun n => (target.ensures_rawCode raw n).mono fun _ _ h => h.2).mono ?_
  rintro cs (rfl | rfl) <;> simp [Code.marks]

/-! ### Counted loops -/

/-- The body of a counted loop in front of its step. -/
def loopBody (env : Env) (place : Place) (hasStep : Bool) (body : List Stmt) : Gen (List Code) :=
  if hasStep && Stmt.anyContinues body then do
    let label ← Gen.freshLabel
    let code ← stmts env (place.inLoop (some label)) body
    return [.block (.labelled label) (text ("'body_" ++ toString label ++ ":")) code ""]
  else stmts env (place.inLoop none) body

/-- A counted loop in its parts. -/
theorem stmt_forLoop {place : Place} {start : Option Stmt} {condition step : Option Expr}
    {body : List Stmt} :
    stmt env place (.forLoop start condition step body) = do
      let first ← forClause env place start
      let header ← loopHeader env place condition
      let inner ← loopBody env place step.isSome body
      let last ← stepLine env place step
      let loop : Code := .block (.loop none) header (inner ++ last) ""
      return if start.isSome then [.braces (first ++ [loop])] else [loop] := by
  rw [stmt]
  by_cases h : (step.isSome && Stmt.anyContinues body) = true
  · simp only [loopBody, h, if_true, bind_assoc, pure_bind]
  · simp only [loopBody, h, Bool.false_eq_true, if_false]

/-- The body of a counted loop with a step is labelled, and any other is written as it stands. -/
theorem shows_loopBody {place : Place} {hasStep : Bool} {body : List Stmt}
    (hbody : ∀ label, (stmts env (place.inLoop label) body).Always fun cs =>
      Shows label (Stmt.allShape body) (Code.allMarks cs)) :
    (loopBody env place hasStep body).Always fun cs => Shows place.continueLabel
      (if hasStep && Stmt.anyContinues body then .labelled (Stmt.allShape body)
        else .loop (Stmt.allShape body)) ((Code.allMarks cs).map (Mark.under [.loop none])) := by
  unfold loopBody
  split
  · refine .after fun n => .bind (hbody (some n)) fun cs hcs => .pure ?_
    rw [Code.allMarks_singleton, Code.marks_block rfl, Piece.allMarks_text, List.nil_append,
      Mark.map_under_under]
    exact hcs.labelled
  · exact (hbody none).mono fun cs hcs => hcs.loop

/-! ### The induction over the tree -/

/-- The marks of an optional fragment. -/
def optionMarks : Option Fragment → List Mark
  | none => []
  | some f => Piece.allMarks f

mutual

/-- A written expression shows its shape, by induction on its syntax. -/
theorem shows_expr {place : Place} {position : Position} :
    ∀ e : Expr, (expr env place position e).Always fun f =>
      Shows place.continueLabel e.shape (Piece.allMarks f)
  | .literal _ | .ident _ | .path _ => by
    rw [expr, Expr.shape]
    exact .pure (by simpa using .empty)
  | .member object name => by
    have hobject : (expr env place .value object).Always fun f =>
        Shows place.continueLabel object.shape (Piece.allMarks f) := shows_expr object
    rw [expr, Expr.shape]
    split
    · -- A path to a member of a type leaves the object out.
      rename_i htype
      rw [shape_of_typeName? htype]
      exact .pure (by simpa using .empty)
    · exact .bind hobject fun f hf => .pure (by simpa using hf)
  | .index object i => by
    rw [expr, Expr.shape]
    exact .bind (shows_expr object) fun f hf => .bind (shows_expr i) fun g hg =>
      .pure (by simpa using hf.append hg)
  | .binary left op right => by
    rw [expr, Expr.shape]
    exact .bind (shows_expr left) fun f hf => .bind (shows_expr right) fun g hg =>
      .pure (by simpa using hf.append hg)
  | .unary op operand trailing => by
    rw [expr, Expr.shape]
    refine .bind (shows_expr operand) fun f hf => ?_
    split
    · exact .pure (by simpa using hf)
    · exact .pure (shows_unaryText (by simpa using hf))
  | .assign target op value => by
    rw [expr, Expr.shape]
    exact .bind (shows_expr target) fun f hf => .bind (shows_expr value) fun g hg =>
      .pure (by simpa using hf.append hg)
  | .call callee args => by
    have hcallee : (expr env place .value callee).Always fun f =>
        Shows place.continueLabel callee.shape (Piece.allMarks f) := shows_expr callee
    have hargs : (exprs env place args).Always fun fs =>
        Shows place.continueLabel (Expr.allShape args) (Piece.armMarks fs) := shows_exprs args
    have howned : (ownedExprs env place args).Always fun fs =>
        Shows place.continueLabel (Expr.allShape args) (Piece.armMarks fs) :=
      shows_ownedExprs args
    cases callee with
    | ident name =>
      rw [expr, Expr.shape, Expr.shape]
      split
      · exact .bind hargs fun fs hfs => .pure (shows_builtinCall (by simpa using hfs)).behindEmpty
      · exact .bind howned fun fs hfs => .pure (by simpa using hfs.behindEmpty)
    | path parts =>
      rw [expr, Expr.shape, Expr.shape]
      exact .bind howned fun fs hfs => .pure (by simpa using hfs.behindEmpty)
    | member receiver name =>
      have hreceiver : (expr env place .value receiver).Always fun f =>
          Shows place.continueLabel receiver.shape (Piece.allMarks f) := shows_expr receiver
      simp only [expr, Expr.shape, pure_bind]
      split
      · rename_i htype
        rw [shape_of_typeName? htype]
        exact .bind howned fun fs hfs => .pure (by simpa using hfs.behindEmpty)
      · exact .bind hreceiver fun f hf => .bind howned fun fs hfs =>
          .pure (by simpa using hf.append hfs)
    | _ =>
      simp only [expr]
      rw [Expr.shape]
      exact .bind hcallee fun f hf => .bind howned fun fs hfs =>
        .pure (by simpa using hf.append hfs)
  | .construct type args => by
    rw [expr, Expr.shape]
    exact .after fun spelling => .bind (shows_ownedExprs args) fun fs hfs =>
      .pure (by simpa using hfs)
  | .array elements elementType => by
    rw [expr, Expr.shape]
    exact .bind (shows_ownedExprs elements) fun fs hfs => shows_arrayLiteral (by simpa using hfs)
  | .lambda params (.expr value) => by
    rw [expr, Expr.shape]
    refine .after fun head => .bind (shows_expr value) fun f hf => .pure ?_
    simpa [Piece.marks] using hf.closed
  | .lambda params (.block block) => by
    rw [expr, Expr.shape]
    refine .after fun head => .bind (shows_stmts block) fun cs hcs => .pure ?_
    simpa [Piece.marks, NestedRole.walls] using hcs.closed
  | .range start stop inclusive => by
    rw [expr, Expr.shape]
    refine .bind (shows_operandOption start) fun o ho => ?_
    refine .bind (shows_operandOption stop) fun o' ho' => ?_
    -- An omitted start is written as a zero.
    have hfirst : Piece.allMarks (o.getD (text "0")) = optionMarks o := by
      cases o <;> simp [optionMarks]
    cases o' with
    | none => exact .pure (by simpa [hfirst, optionMarks] using ho.append ho')
    | some last => exact .pure (by simpa [hfirst, optionMarks] using ho.append ho')
  | .block block => by
    rw [expr, Expr.shape]
    exact .bind (shows_valueBlock block) fun cs hcs =>
      .pure (by simpa [Piece.marks, NestedRole.walls] using hcs)
  | .matchOn scrutinee arms => by
    rw [expr, Expr.shape]
    refine .bind (shows_expr scrutinee) fun f hf => .bind (shows_matchArms arms) fun fs hfs => ?_
    -- The arm that is added for everything else has no jumps.
    have hrest : Piece.armMarks (if Pattern.anyDefault (arms.map (·.pattern)) then []
        else [text "_ => unreachable!()"]) = [] := by
      split <;> simp [Piece.armMarks]
    exact .pure (by simpa [Piece.marks, hrest] using hf.append hfs)
  | .this => by
    rw [expr, Expr.shape]
    exact .pure (by simpa using .empty)

theorem shows_exprs {place : Place} :
    ∀ es : List Expr, (exprs env place es).Always fun fs =>
      Shows place.continueLabel (Expr.allShape es) (Piece.armMarks fs)
  | [] => by
    rw [exprs, Expr.allShape]
    exact .pure (by simpa [Piece.armMarks] using .empty)
  | e :: es => by
    rw [exprs, Expr.allShape]
    exact .bind (shows_expr e) fun f hf => .bind (shows_exprs es) fun fs hfs =>
      .pure (by simpa [Piece.armMarks] using hf.append hfs)

theorem shows_ownedExprs {place : Place} :
    ∀ es : List Expr, (ownedExprs env place es).Always fun fs =>
      Shows place.continueLabel (Expr.allShape es) (Piece.armMarks fs)
  | [] => by
    rw [ownedExprs, Expr.allShape]
    exact .pure (by simpa [Piece.armMarks] using .empty)
  | e :: es => by
    rw [ownedExprs, Expr.allShape]
    exact .bind (shows_expr e) fun f hf => .bind (shows_ownedExprs es) fun fs hfs =>
      .pure (by simpa [Piece.armMarks] using hf.append hfs)

theorem shows_operandOption {place : Place} :
    ∀ e : Option Expr, (operandOption env place e).Always fun o =>
      Shows place.continueLabel (Expr.optionShape e) (optionMarks o)
  | none => by
    rw [operandOption, Expr.optionShape]
    exact .pure .empty
  | some e => by
    rw [operandOption, Expr.optionShape]
    exact .bind (shows_expr e) fun f hf => .pure (by simpa [optionMarks] using hf)

theorem shows_ownedOption {place : Place} :
    ∀ e : Option Expr, (ownedOption env place e).Always fun o =>
      Shows place.continueLabel (Expr.optionShape e) (optionMarks o)
  | none => by
    rw [ownedOption, Expr.optionShape]
    exact .pure .empty
  | some e => by
    rw [ownedOption, Expr.optionShape]
    exact .bind (shows_expr e) fun f hf => .pure (by simpa [optionMarks] using hf)

/-- The same of a block that is a value. -/
theorem shows_valueBlock {place : Place} :
    ∀ block : List Stmt, (valueBlock env place block).Always fun cs =>
      Shows place.continueLabel (Stmt.valueShape block) (Code.allMarks cs)
  | [] => by
    rw [valueBlock, Stmt.valueShape]
    exact .pure (by simpa [Code.allMarks] using .empty)
  | [s] => by
    -- Only an expression at the end is the value of the block.
    have hs : (stmt env place s).Always fun cs =>
        Shows place.continueLabel s.shape (Code.allMarks cs) := shows_stmt s
    cases s with
    | expr value =>
      rw [valueBlock, Stmt.valueShape]
      split
      · exact .bind (shows_expr value) fun f hf => .pure (by simpa using hf)
      · exact .bind (shows_expr value) fun f hf => .pure (by simpa using hf)
    | _ =>
      simp only [valueBlock, Stmt.valueShape, pure_bind]
      exact .bind hs fun cs hcs => .pure (by simpa using hcs.beforeEmpty)
  | s :: s' :: ss => by
    simp only [valueBlock, Stmt.valueShape]
    exact .bind (shows_stmt s) fun cs hcs => .bind (shows_valueBlock (s' :: ss)) fun ds hds =>
      .pure (by simpa using hcs.append hds)

theorem shows_matchArms {place : Place} :
    ∀ arms : List MatchArm, (matchArms env place arms).Always fun fs =>
      Shows place.continueLabel (MatchArm.valueShape arms) (Piece.armMarks fs)
  | [] => by
    rw [matchArms, MatchArm.valueShape]
    exact .pure (by simpa [Piece.armMarks] using .empty)
  | ⟨pattern, .expr value⟩ :: arms => by
    rw [matchArms, MatchArm.valueShape]
    refine .bind (shows_armPattern pattern) fun f hf => .bind (shows_expr value) fun g hg => ?_
    exact .bind (shows_matchArms arms) fun fs hfs =>
      .pure (by simpa [Piece.armMarks] using (hf.append hg).append hfs)
  | ⟨pattern, .block block⟩ :: arms => by
    rw [matchArms, MatchArm.valueShape]
    refine .bind (shows_armPattern pattern) fun f hf => .bind (shows_stmts block) fun cs hcs => ?_
    -- The `return` at the end of a closure is no jump of a loop.
    have hclosed : Code.allMarks (if Stmt.endsWithReturn block then cs
        else cs ++ [.text "return Default::default();"]) = Code.allMarks cs := by
      split <;> simp [Code.marks, Code.text]
    refine .bind (shows_matchArms arms) fun fs hfs => .pure ?_
    simpa [Piece.armMarks, Piece.marks, NestedRole.walls, hclosed] using
      (hf.append hcs.closed).append hfs

theorem shows_armPattern {place : Place} :
    ∀ pattern : Pattern, (armPattern env place pattern).Always fun f =>
      Shows place.continueLabel pattern.shape (Piece.allMarks f)
  | .default => by
    rw [armPattern, Pattern.shape]
    exact .pure (by simpa using .empty)
  | .values values => by
    rw [armPattern, Pattern.shape]
    exact .bind (shows_exprs values) fun fs hfs => .pure (by simpa using hfs)

/-- A written statement shows its shape. -/
theorem shows_stmt {place : Place} :
    ∀ s : Stmt, (stmt env place s).Always fun cs =>
      Shows place.continueLabel s.shape (Code.allMarks cs)
  | .binding b => by
    obtain ⟨name, type, value, mutability⟩ := b
    rw [stmt, Stmt.shape]
    exact .bind (shows_binding ⟨name, type, value, mutability⟩) fun f hf =>
      .pure (by simpa using hf)
  | .ifThen condition thenBranch elseBranch => by
    rw [stmt, Stmt.shape]
    refine .bind (shows_expr condition) fun f hf => ?_
    refine .bind (shows_stmts thenBranch) fun cs hcs => ?_
    exact .bind (shows_elseChain elseBranch) fun bs hbs =>
      .pure (by simpa [Code.marks, Branch.allMarks] using (hf.append hcs).append hbs)
  | .whileLoop condition body => by
    rw [stmt, Stmt.shape]
    refine .bind (shows_expr condition) fun f hf => .bind (shows_stmts body) fun cs hcs => ?_
    exact .pure (by simpa [Code.marks_loop] using hf.append hcs.loop)
  | .forLoop start condition step body => by
    have hbody : ∀ label, (stmts env (place.inLoop label) body).Always fun cs =>
        Shows label (Stmt.allShape body) (Code.allMarks cs) := fun label => shows_stmts body
    rw [stmt_forLoop, Stmt.shape]
    refine .bind (shows_forClause start) fun first hfirst => ?_
    refine .bind (shows_loopHeader condition) fun header hheader => ?_
    refine .bind (shows_loopBody hbody) fun inner hinner => ?_
    refine .bind (shows_stepLine step) fun last hlast => .pure ?_
    -- The step is in the loop, but it is written with the label around the loop.
    cases start with
    | none =>
      rw [Stmt.startShape.eq_def]
      simpa [Code.marks_loop] using (hheader.behindEmpty.append hinner).append hlast.step
    | some s =>
      simpa [Code.marks_loop] using
        ((hfirst.append hheader).append hinner).append hlast.step
  | .forEach name type iterable body => by
    rw [stmt, Stmt.shape]
    refine .bind (shows_expr iterable) fun f hf => .bind (shows_stmts body) fun cs hcs => ?_
    exact .pure (by simpa [Code.marks_loop] using hf.append hcs.loop)
  | .ret none => by
    rw [stmt, Stmt.shape, Expr.optionShape]
    exact .pure (by simpa [Code.text] using .empty)
  | .ret (some value) => by
    rw [stmt, Stmt.shape, Expr.optionShape]
    exact .bind (shows_expr value) fun f hf => .pure (by simpa using hf)
  | .breakLoop => by
    rw [stmt, Stmt.shape]
    exact .pure (by simpa [Code.marks] using .leave)
  | .continueLoop => by
    rw [stmt, Stmt.shape]
    exact .pure (by simpa [Code.marks] using .next)
  | .matchOn scrutinee arms => by
    rw [stmt, Stmt.shape]
    exact .bind (shows_expr scrutinee) fun f hf => .bind (shows_matchCases arms) fun cs hcs =>
      .pure (shows_matchCode (by simpa using hf) hcs)
  | .switchOn subject cases => by
    rw [stmt, Stmt.shape]
    exact .bind (shows_expr subject) fun f hf => .bind (shows_switchCases cases) fun cs hcs =>
      .pure (shows_matchCode (by simpa using hf) hcs)
  | .expr value => by
    have hvalue : (expr env place .statement value).Always fun f =>
        Shows place.continueLabel value.shape (Piece.allMarks f) := shows_expr value
    cases value with
    | matchOn scrutinee arms =>
      -- Its arms are blocks here, while those of a match with a value are closures.
      rw [stmt, Stmt.shape]
      exact .bind (shows_expr scrutinee) fun f hf => .bind (shows_matchCases arms) fun cs hcs =>
        .pure (shows_matchCode (by simpa using hf) hcs)
    | _ =>
      simp only [stmt, Stmt.shape]
      exact .bind hvalue fun f hf => .pure (by simpa using hf)
  | .raw block => by
    rw [stmt, Stmt.shape.eq_def]
    exact (allMarks_rawCode block).mono fun cs hcs => by simpa [hcs] using .empty
  | .functionDecl kind decl => by
    -- The label of the loop is not in scope in the function.
    have hdecl : (function env place.closure { visibility := "" } (fun _ => return []) decl).Always
        fun cs => Shows place.continueLabel (decl.shape .empty) (Code.allMarks cs) :=
      shows_function _ decl rfl fun _ _ => .pure (by simpa using .empty)
    rw [stmt, Stmt.shape]
    exact .bind hdecl fun cs hcs => .pure (by simpa using hcs)
  | .typeDecl _ _ => by
    rw [stmt]
    exact .fail _
  | .enumDecl _ => by
    rw [stmt]
    exact .fail _
  | .importDecl _ | .includeDecl _ _ | .aliasDecl _ | .namespaceDecl _ _ | .moduleDecl _
  | .fieldDecl _ | .propertyDecl _ => by
    simp only [stmt, Stmt.shape]
    exact .after fun _ => .pure (by simpa using .empty)

/-- The same of a block. -/
theorem shows_stmts {place : Place} :
    ∀ ss : List Stmt, (stmts env place ss).Always fun cs =>
      Shows place.continueLabel (Stmt.allShape ss) (Code.allMarks cs)
  | [] => by
    rw [stmts, Stmt.allShape]
    exact .pure (by simpa [Code.allMarks] using .empty)
  | s :: ss => by
    rw [stmts, Stmt.allShape]
    exact .bind (shows_stmt s) fun cs hcs => .bind (shows_stmts ss) fun ds hds =>
      .pure (by simpa using hcs.append hds)

theorem shows_binding {place : Place} {forceMutable : Bool} :
    ∀ b : Binding, (binding env place forceMutable b).Always fun f =>
      Shows place.continueLabel (Expr.optionShape b.value) (Piece.allMarks f)
  | ⟨name, type, value, mutability⟩ => by
    rw [binding]
    refine .after fun spelling => .bind (shows_ownedOption value) fun o ho => .pure ?_
    cases o <;> simpa [optionMarks] using ho

theorem shows_forClause {place : Place} :
    ∀ start : Option Stmt, (forClause env place start).Always fun cs =>
      Shows place.continueLabel (Stmt.startShape start) (Code.allMarks cs)
  | none => by
    rw [forClause, Stmt.startShape.eq_def]
    exact .pure (by simpa using .empty)
  | some s => by
    cases s with
    | binding b =>
      obtain ⟨name, type, value, mutability⟩ := b
      rw [forClause, Stmt.startShape]
      exact .bind (shows_binding ⟨name, type, value, mutability⟩) fun f hf =>
        .pure (by simpa using hf)
    | expr value =>
      rw [forClause, Stmt.startShape]
      exact .bind (shows_expr value) fun f hf => .pure (by simpa using hf)
    | _ =>
      simp only [forClause, Stmt.startShape]
      exact .after fun _ => .pure (by simpa using .empty)

theorem shows_loopHeader {place : Place} :
    ∀ condition : Option Expr, (loopHeader env place condition).Always fun f =>
      Shows place.continueLabel (Expr.optionShape condition) (Piece.allMarks f)
  | none => by
    rw [loopHeader, Expr.optionShape]
    exact .pure (by simpa using .empty)
  | some condition => by
    rw [loopHeader, Expr.optionShape]
    exact .bind (shows_expr condition) fun f hf => .pure (by simpa using hf)

theorem shows_stepLine {place : Place} :
    ∀ step : Option Expr, (stepLine env place step).Always fun cs =>
      Shows place.continueLabel (Expr.optionShape step) (Code.allMarks cs)
  | none => by
    rw [stepLine, Expr.optionShape]
    exact .pure (by simpa using .empty)
  | some step => by
    rw [stepLine, Expr.optionShape]
    exact .bind (shows_expr step) fun f hf => .pure (by simpa using hf)

theorem shows_elseChain {place : Place} :
    ∀ branch : Option (List Stmt), (elseChain env place branch).Always fun bs =>
      Shows place.continueLabel (Stmt.optionShape branch) (Branch.allMarks bs)
  | none => by
    rw [elseChain, Stmt.optionShape]
    exact .pure (by simpa [Branch.allMarks] using .empty)
  | some [] => by
    simp only [elseChain, stmts, Stmt.optionShape, Stmt.allShape, pure_bind]
    exact .pure (by simpa [Branch.allMarks] using .empty)
  | some [s] => by
    -- An `if` alone continues the chain; any other statement is a block of its own.
    have hs : (stmts env place [s]).Always fun cs =>
        Shows place.continueLabel (Stmt.allShape [s]) (Code.allMarks cs) := shows_stmts [s]
    cases s with
    | ifThen condition thenBranch elseBranch =>
      rw [elseChain, Stmt.optionShape, Stmt.allShape, Stmt.allShape, Stmt.shape]
      refine .bind (shows_expr condition) fun f hf => ?_
      refine .bind (shows_stmts thenBranch) fun cs hcs => ?_
      exact .bind (shows_elseChain elseBranch) fun bs hbs =>
        .pure (by simpa [Branch.allMarks] using ((hf.append hcs).append hbs).beforeEmpty)
    | _ =>
      simp only [elseChain, Stmt.optionShape]
      exact .bind hs fun cs hcs => .pure (by simpa [Branch.allMarks] using hcs)
  | some (s :: s' :: ss) => by
    simp only [elseChain, Stmt.optionShape]
    exact .bind (shows_stmts (s :: s' :: ss)) fun cs hcs =>
      .pure (by simpa [Branch.allMarks] using hcs)

theorem shows_matchCases {place : Place} :
    ∀ arms : List MatchArm, (matchCases env place arms).Always fun cs =>
      Shows place.continueLabel (MatchArm.allShape arms) (Code.allMarks cs)
  | [] => by
    rw [matchCases, MatchArm.allShape]
    exact .pure (by simpa using .empty)
  | ⟨pattern, .expr value⟩ :: arms => by
    rw [matchCases, MatchArm.allShape]
    refine .bind (shows_armPattern pattern) fun f hf => .bind (shows_expr value) fun g hg => ?_
    refine .bind (shows_matchCases arms) fun cs hcs => .pure ?_
    simpa [Code.marks_plain] using (hf.append hg).append hcs
  | ⟨pattern, .block block⟩ :: arms => by
    rw [matchCases, MatchArm.allShape]
    refine .bind (shows_armPattern pattern) fun f hf => .bind (shows_stmts block) fun cs hcs => ?_
    exact .bind (shows_matchCases arms) fun ds hds =>
      .pure (by simpa [Code.marks_plain] using (hf.append hcs).append hds)

theorem shows_switchCases {place : Place} :
    ∀ cases : List SwitchCase, (switchCases env place cases).Always fun cs =>
      Shows place.continueLabel (SwitchCase.allShape cases) (Code.allMarks cs)
  | [] => by
    rw [switchCases, SwitchCase.allShape]
    exact .pure (by simpa using .empty)
  | ⟨pattern, block⟩ :: cases => by
    rw [switchCases, SwitchCase.allShape]
    refine .bind (shows_armPattern pattern) fun f hf => .bind (shows_stmts block) fun cs hcs => ?_
    exact .bind (shows_switchCases cases) fun ds hds =>
      .pure (by simpa [Code.marks_plain] using (hf.append hcs).append hds)

/-- Attributes are written outside of all labelled bodies. -/
theorem shows_attributeLines {place : Place} (label : Option Nat) :
    ∀ attributes : List Attribute, place.continueLabel = none →
      (attributeLines env place attributes).Always fun cs =>
        Shows label (Attribute.allShape attributes) (Code.allMarks cs)
  | [], _ => by
    rw [attributeLines, Attribute.allShape]
    exact .pure (by simpa using .empty)
  | ⟨name, args⟩ :: attributes, hplace => by
    have hargs : (exprs env place args).Always fun fs =>
        Shows none (Expr.allShape args) (Piece.armMarks fs) := hplace ▸ shows_exprs args
    have hrest : (attributeLines env place attributes).Always fun cs =>
        Shows label (Attribute.allShape attributes) (Code.allMarks cs) :=
      shows_attributeLines label attributes hplace
    rw [attributeLines, Attribute.allShape]
    split
    · exact hrest.mono fun cs hcs => hcs.behindEmpty
    · refine .bind hargs fun fs hfs => ?_
      extract_lets shown
      have hshown : Shows label (.closed (Expr.allShape args)) (Piece.allMarks shown) := by
        dsimp only [shown]
        split
        · rename_i hempty
          rw [List.isEmpty_iff.mp hempty, Expr.allShape, Piece.allMarks_nil]
          exact .closed .empty
        · simpa [Piece.marks] using hfs.closed
      split
      · exact .bind hrest fun cs hcs => .pure (by simpa using hshown.append hcs)
      · exact .after fun _ => .bind hrest fun cs hcs =>
          .pure (by simpa [Code.comment] using hshown.append hcs)

/-- A function is written outside of all labelled bodies, and nothing in it jumps out of it. -/
theorem shows_function {place : Place} (label : Option Nat) {options : FunctionOptions}
    {prologue : Place → Gen (List Code)} {before : JumpShape} :
    ∀ decl : Function, place.continueLabel = none →
      (∀ place : Place, place.continueLabel = none → (prologue place).Always fun cs =>
        Shows none before (Code.allMarks cs)) →
      (function env place options prologue decl).Always fun cs =>
        Shows label (decl.shape before) (Code.allMarks cs)
  | ⟨name, params, returnType, generics, modifiers, attributes, body, isConstructor, isStatic⟩,
      hplace, hprologue => by
    rw [function, Function.shape]
    refine .bind (TargetName.always_skipMarked _ _ _ _) fun skipped hskipped => ?_
    rw [← hskipped]
    -- A marked function and one with a qualified name are left out, as in the trace.
    split
    · rename_i h
      exact .pure (by simpa [h] using .empty)
    rename_i hmark
    split
    · rename_i h
      exact .after fun _ => .pure (by simpa [h] using .empty)
    rename_i hname
    rw [if_neg (by simp [hmark, hname])]
    refine .bind (shows_attributeLines label attributes hplace) fun ls hls => ?_
    refine .after fun params => ?_
    extract_lets +lift shown finish
    have hfinish : ∀ returns, (finish returns).Always fun cs => Shows label
        (Attribute.allShape attributes ++ .closed (Stmt.bodyShape before body))
        (Code.allMarks cs) := fun returns =>
      .after fun bounds => .bind (shows_functionBody label body hplace hprologue) fun cs hcs =>
        .pure (by simpa using hls.append hcs)
    split
    · exact hfinish _
    · exact .after hfinish

/-- A function body shows its shape closed: no jump in it leaves the function. -/
theorem shows_functionBody {place : Place} (label : Option Nat) {requireBody : Bool}
    {prologue : Place → Gen (List Code)} {before : JumpShape} {head : String} :
    ∀ body : Option (List Stmt), place.continueLabel = none →
      (∀ place : Place, place.continueLabel = none → (prologue place).Always fun cs =>
        Shows none before (Code.allMarks cs)) →
      (functionBody env place requireBody prologue head body).Always fun cs =>
        Shows label (.closed (Stmt.bodyShape before body)) (Code.allMarks cs)
  | none, _, _ => by
    rw [functionBody, Stmt.bodyShape]
    split
    · refine .pure ?_
      rw [Code.allMarks_singleton, Code.marks_block rfl, Piece.allMarks_text, List.nil_append]
      simpa [Code.text] using Shows.empty.closed
    · exact .pure (by simpa [Code.text] using Shows.empty.closed)
  | some body, hplace, hprologue => by
    have hbody : (stmts env place body).Always fun cs =>
        Shows none (Stmt.allShape body) (Code.allMarks cs) := hplace ▸ shows_stmts body
    rw [functionBody, Stmt.bodyShape]
    refine .bind (hprologue place hplace) fun cs hcs => .bind hbody fun ds hds => .pure ?_
    rw [Code.allMarks_singleton, Code.marks_block rfl, Piece.allMarks_text, List.nil_append,
      Code.allMarks_append]
    exact (hcs.append hds).closed

end

end Rust

end SourceGen
