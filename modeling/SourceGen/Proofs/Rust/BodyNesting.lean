import SourceGen.Proofs.Rust.BodyTracks
import SourceGen.Proofs.Rust.TypeNesting

/-!
# Rust bodies are nested

What the generator writes for plain expressions, statements and functions closes every delimiter
that it opens. First come the parts that have no statements or expressions of their own to write,
then one induction over the tree.

## Main results

* `Rust.clean_expr`: the fragments of expressions.
* `Rust.clean_stmts`: the code of statements.
* `Rust.clean_function`: the code of functions.
-/

namespace SourceGen

namespace Rust

open Fragment (text AllNested OptionNested)
open Text (isPlain NestedText)

variable {env : Env} {scope : Scope} {f args : Fragment}

/-! ### Parts of expressions -/

/-- An operand is nested, in parentheses or not. -/
theorem nested_grouped {e : Expr} (hf : f.Nested) : (grouped e f).Nested := by
  rw [grouped]
  split
  · exact fun _ => by simp [hf]
  · exact hf

/-- A value that is made an owned one is nested. -/
theorem nested_owned {e : Expr} (hf : f.Nested) : (owned e f).Nested := by
  rw [owned]
  split
  · exact fun _ => by simp [hf]
  · exact hf

/-- A receiver is nested, in parentheses or not. -/
theorem nested_chainable (hf : f.Nested) : (chainable f).Nested := by
  rw [chainable]
  split
  · exact hf
  · exact fun _ => by simp [hf]

/-- The operator of an increment has no delimiters. -/
theorem isPlain_stepOp (op : Token) : isPlain (stepOp op) = true := by
  unfold stepOp
  split <;> rfl

/-- A unary expression is nested; an increment becomes an assignment. -/
theorem nested_unaryText {op : Token} {trailing : Bool} (hf : f.Nested) :
    (unaryText op trailing f).Nested := by
  have hstep := isPlain_stepOp op
  unfold unaryText
  split
  · split
    · exact fun _ => by simp [hf, hstep]
    · exact fun _ => by simp [hf, hstep]
  · split
    · exact hf
    · exact fun _ => by simp [hf]

/-- A binary expression is nested, with a power as a call. -/
theorem nested_binaryText {left : Expr} {op : Token} {g : Fragment} (hf : f.Nested)
    (hg : g.Nested) : (binaryText left op f g).Nested := by
  have hchain := nested_chainable hf
  unfold binaryText
  split
  · exact fun _ => by simp [hchain, hg]
  · split
    · exact fun _ => by simp [hf, hg]
    · split
      · exact fun _ => by simp [hf, hg]
      · exact fun _ => by simp [hf, hg]

/-- A call of a builtin is nested in its arguments, as a macro, a method or a function. -/
theorem nested_builtinCall {fn : Builtin} {argCount : Nat} (hargs : args.Nested) :
    (builtinCall fn argCount args).Nested := by
  have hchain := nested_chainable hargs
  -- The braces of a format string are closed one by one.
  have hholes : NestedText (Text.join " " (List.replicate argCount "\x7b\x7d")) := by
    refine Text.nested_join rfl fun s hs => ?_
    obtain rfl := List.eq_of_mem_replicate hs
    exact fun _ => by simp
  unfold builtinCall
  split
  · split
    · exact fun _ => by simp
    · exact fun _ => by simp [hholes, hargs]
  · exact fun _ => by simp [hchain]
  · exact fun _ => by simp [hchain]
  · exact fun _ => by simp [hargs]
  · exact fun _ => by simp [hargs]
  · exact fun _ => by simp [hargs]
  · exact fun _ => by simp [hargs]

/-- The type in front of a static member is a name of the tree. -/
theorem isPlain_of_typeName? {e : Expr} {type : String} (h : typeName? env e = some type)
    (he : e.everyText target isPlain = true) : isPlain type = true := by
  unfold typeName? at h
  split at h
  · split at h
    · cases h
      rwa [Expr.everyText] at he
    · cases h
  · cases h

/-- An array is nested, and so is the type of an empty one. -/
theorem clean_arrayLiteral {isEmpty : Bool} {elementType : Option TypeRef} (hargs : args.Nested)
    (h : elementType.all (TypeRef.everyText isPlain) = true) :
    (arrayLiteral env scope isEmpty args elementType).Clean Fragment.Nested := by
  unfold arrayLiteral
  cases elementType with
  | none =>
    dsimp only
    split
    · exact .pure fun _ => by simp
    · exact .pure fun _ => by simp [hargs]
  | some type =>
    refine .bind (clean_mapType h) fun spelling hspelling => ?_
    split
    · exact .pure fun _ => by simp [hspelling]
    · exact .pure fun _ => by simp [hspelling, hargs]

/-- What is matched is nested; text is matched as a slice. -/
theorem nested_subjectText {e : Expr} (patterns : List Pattern) (hf : f.Nested) :
    (subjectText e patterns f).Nested := by
  have hgrouped := nested_grouped (e := e) hf
  unfold subjectText
  split
  · exact fun _ => by simp [hgrouped]
  · exact hgrouped

/-- A call is nested if its callee and its arguments are. -/
theorem nested_call {fs : List Fragment} (hf : f.Nested) (hfs : AllNested fs) :
    Fragment.Nested (f ++ text "(" ++ Fragment.join ", " fs ++ text ")") := by
  have hjoin : Fragment.Nested (Fragment.join ", " fs) := hfs.join rfl
  exact fun _ => by simp [hf, hjoin]

/-! ### Parts of statements -/

/-- The value of a `return` is nested. -/
theorem nested_returned {e : Expr} (hf : f.Nested) : (returned e f).Nested := by
  have howned := nested_owned (e := e) hf
  unfold returned
  split
  · split
    · exact fun _ => by simp [howned]
    · exact howned
  · exact howned

/-- What a loop runs over is nested; a range has parentheses there. -/
theorem nested_iterated {e : Expr} (hf : f.Nested) : (iterated e f).Nested := by
  unfold iterated
  split
  · exact fun _ => by simp [hf]
  · exact fun _ => by simp [hf]
  · exact hf

/-- A match is nested, with the arm for everything else if it has one. -/
theorem nested_matchCode {patterns : List Pattern} {arms : List Code} (hf : f.Nested)
    (harms : Code.Nested arms) : Code.Nested [matchCode f patterns arms] := by
  unfold matchCode
  extract_lets rest
  have hrest : Code.Nested rest := by
    dsimp only [rest]
    split
    · exact fun _ => by simp
    · exact fun _ => by simp
  exact fun _ => by simp [hf, harms, hrest]

/-- The body of a counted loop is nested, in the labelled block or without it. -/
theorem clean_loopBody {place : Place} {hasStep : Bool} {body : List Stmt}
    (hbody : ∀ label, (stmts env (place.inLoop label) body).Clean Code.Nested) :
    (loopBody env place hasStep body).Clean Code.Nested := by
  unfold loopBody
  split
  · exact .freshLabel fun label => .bind (hbody (some label)) fun cs hcs =>
      .pure fun _ => by simp [hcs]
  · exact hbody none

/-- Behind the first branch of a chain, one brace is open. -/
abbrev NestedRest (branches : List Branch) : Prop :=
  ∀ stack, Text.scan ('\x7b' :: stack) (Branch.flatRest branches) = some ('\x7b' :: stack)

/-- An `else` continues a chain. -/
theorem nestedRest_else {body : List Code} (hbody : Code.Nested body) :
    NestedRest [.mk (text "else") body] :=
  fun _ => by simp [hbody]

/-! ### The induction over the tree -/

mutual

/-- An expression is nested if no text in its tree has delimiters. -/
theorem clean_expr {place : Place} {position : Position} :
    ∀ e : Expr, e.everyText target isPlain = true →
      (expr env place position e).Clean Fragment.Nested
  | .literal value, h => by
    rw [Expr.everyText] at h
    have hvalue := isPlain_literal h
    rw [expr]
    exact .pure fun _ => by simp [hvalue]
  | .ident name, h => by
    rw [Expr.everyText] at h
    rw [expr]
    exact .pure fun _ => by simp [h]
  | .path parts, h => by
    rw [Expr.everyText] at h
    have hparts := isPlain_path h
    rw [expr]
    exact .pure fun _ => by simp [hparts]
  | .member object name, h => by
    rw [Expr.everyText, Bool.and_eq_true] at h
    rw [expr]
    split
    · rename_i htype
      have htype := isPlain_of_typeName? htype h.1
      exact .pure fun _ => by simp [htype, h.2]
    · refine .bind (clean_expr object h.1) fun f hf => .pure ?_
      have hobject := nested_grouped (e := object) hf
      exact fun _ => by simp [hobject, h.2]
  | .index object i, h => by
    rw [Expr.everyText, Bool.and_eq_true] at h
    rw [expr]
    refine .bind (clean_expr object h.1) fun f hf => .bind (clean_expr i h.2) fun g hg => .pure ?_
    have hobject := nested_grouped (e := object) hf
    exact fun _ => by simp [hobject, hg]
  | .binary left op right, h => by
    rw [Expr.everyText, Bool.and_eq_true] at h
    rw [expr]
    exact .bind (clean_expr left h.1) fun f hf => .bind (clean_expr right h.2) fun g hg =>
      .pure (nested_binaryText (nested_grouped hf) (nested_grouped hg))
  | .unary op operand trailing, h => by
    rw [Expr.everyText] at h
    rw [expr]
    refine .bind (clean_expr operand h) fun f hf => ?_
    split
    · have hstep := isPlain_stepOp op
      exact .pure fun _ => by simp [hf, hstep]
    · exact .pure (nested_unaryText (nested_grouped hf))
  | .assign left op value, h => by
    rw [Expr.everyText, Bool.and_eq_true] at h
    rw [expr]
    exact .bind (clean_expr left h.1) fun f hf => .bind (clean_expr value h.2) fun g hg =>
      .pure fun _ => by simp [hf, hg]
  | .call callee args, h => by
    rw [Expr.everyText, Bool.and_eq_true] at h
    have hargs : (exprs env place args).Clean AllNested := clean_exprs args h.2
    have howned : (ownedExprs env place args).Clean AllNested := clean_ownedExprs args h.2
    have hcallee : (expr env place .value callee).Clean Fragment.Nested := clean_expr callee h.1
    cases callee with
    | ident name =>
      rw [Expr.everyText] at h
      rw [expr]
      split
      · -- Builtins borrow their arguments.
        exact .bind hargs fun fs hfs => .pure (nested_builtinCall (hfs.join rfl))
      · refine .bind howned fun fs hfs => .pure ?_
        have hjoin : Fragment.Nested (Fragment.join ", " fs) := hfs.join rfl
        exact fun _ => by simp [hjoin, h.1]
    | path parts =>
      rw [Expr.everyText] at h
      have hparts := isPlain_path h.1
      rw [expr]
      refine .bind howned fun fs hfs => .pure ?_
      have hjoin : Fragment.Nested (Fragment.join ", " fs) := hfs.join rfl
      exact fun _ => by simp [hjoin, hparts]
    | member receiver name =>
      rw [Expr.everyText, Bool.and_eq_true] at h
      simp only [expr, pure_bind]
      split
      · rename_i htype
        have htype := isPlain_of_typeName? htype h.1.1
        refine .bind howned fun fs hfs => .pure ?_
        have hjoin : Fragment.Nested (Fragment.join ", " fs) := hfs.join rfl
        exact fun _ => by simp [hjoin, htype, h.1.2]
      · refine .bind (clean_expr receiver h.1.1) fun f hf => .bind howned fun fs hfs => .pure ?_
        have hjoin : Fragment.Nested (Fragment.join ", " fs) := hfs.join rfl
        have hobject := nested_grouped (e := receiver) hf
        exact fun _ => by simp [hjoin, hobject, h.1.2]
    | _ =>
      simp only [expr]
      exact .bind hcallee fun f hf => .bind howned fun fs hfs =>
        .pure (nested_call (fun _ => by simp [hf]) hfs)
  | .construct type args, h => by
    rw [Expr.everyText, Bool.and_eq_true] at h
    rw [expr]
    refine .bind (clean_mapType h.1) fun spelling hspelling => ?_
    refine .bind (clean_ownedExprs args h.2) fun fs hfs => .pure ?_
    have hassociated := nested_associated hspelling
    have hjoin : Fragment.Nested (Fragment.join ", " fs) := hfs.join rfl
    exact fun _ => by simp [hassociated, hjoin]
  | .array elements elementType, h => by
    rw [Expr.everyText, Bool.and_eq_true] at h
    rw [expr]
    exact .bind (clean_ownedExprs elements h.1) fun fs hfs => clean_arrayLiteral (hfs.join rfl) h.2
  | .lambda params (.expr value), h => by
    rw [Expr.everyText, Body.everyText, Bool.and_eq_true] at h
    rw [expr]
    refine .bind (clean_lambdaHead h.1) fun head hhead => ?_
    exact .bind (clean_expr value h.2) fun f hf => .pure fun _ => by simp [hhead, hf]
  | .lambda params (.block block), h => by
    rw [Expr.everyText, Body.everyText, Bool.and_eq_true] at h
    rw [expr]
    refine .bind (clean_lambdaHead h.1) fun head hhead => ?_
    exact .bind (clean_stmts block h.2) fun cs hcs => .pure fun _ => by simp [hhead, hcs]
  | .range start stop inclusive, h => by
    rw [Expr.everyText, Bool.and_eq_true] at h
    rw [expr]
    refine .bind (clean_operandOption start h.1) fun o ho => ?_
    refine .bind (clean_operandOption stop h.2) fun o' ho' => ?_
    have hfirst : Fragment.Nested (o.getD (text "0")) := ho.getD fun _ => by simp
    cases o' with
    | none => exact .pure fun _ => by simp [hfirst]
    | some last =>
      have hlast := ho' last rfl
      refine .pure fun _ => ?_
      cases inclusive <;> simp [hfirst, hlast]
  | .block block, h => by
    rw [Expr.everyText] at h
    rw [expr]
    exact .bind (clean_valueBlock block h) fun cs hcs => .pure fun _ => by simp [hcs]
  | .matchOn scrutinee arms, h => by
    rw [Expr.everyText, Bool.and_eq_true] at h
    rw [expr]
    refine .bind (clean_expr scrutinee h.1) fun f hf => .bind (clean_matchArms arms h.2)
      fun fs hfs => ?_
    extract_lets rest
    have hsubject := nested_subjectText (e := scrutinee) (arms.map (·.pattern)) hf
    have harms := hfs.arms
    have hrest : Text.Nested (Piece.flatArms rest) := by
      dsimp only [rest]
      split
      · exact fun _ => by simp
      · exact fun _ => by simp
    exact .pure fun _ => by simp [hsubject, harms, hrest]
  | .this, _ => by
    rw [expr]
    refine .pure fun _ => ?_
    cases place.inConstructor <;> simp

theorem clean_exprs {place : Place} :
    ∀ es : List Expr, Expr.allText target isPlain es = true →
      (exprs env place es).Clean AllNested
  | [], _ => by
    rw [exprs]
    exact .pure nofun
  | e :: es, h => by
    rw [Expr.allText, Bool.and_eq_true] at h
    rw [exprs]
    exact .bind (clean_expr e h.1) fun f hf => .bind (clean_exprs es h.2) fun fs hfs =>
      .pure (.cons hf hfs)

/-- The arguments of a call are nested one by one. -/
theorem clean_ownedExprs {place : Place} :
    ∀ es : List Expr, Expr.allText target isPlain es = true →
      (ownedExprs env place es).Clean AllNested
  | [], _ => by
    rw [ownedExprs]
    exact .pure nofun
  | e :: es, h => by
    rw [Expr.allText, Bool.and_eq_true] at h
    rw [ownedExprs]
    exact .bind (clean_expr e h.1) fun f hf => .bind (clean_ownedExprs es h.2) fun fs hfs =>
      .pure (.cons (nested_owned hf) hfs)

theorem clean_operandOption {place : Place} :
    ∀ e : Option Expr, Expr.optionText target isPlain e = true →
      (operandOption env place e).Clean OptionNested
  | none, _ => by
    rw [operandOption]
    exact .pure nofun
  | some e, h => by
    rw [Expr.optionText] at h
    rw [operandOption]
    exact .bind (clean_expr e h) fun f hf => .pure (by rintro _ ⟨⟩; exact nested_grouped hf)

theorem clean_ownedOption {place : Place} :
    ∀ e : Option Expr, Expr.optionText target isPlain e = true →
      (ownedOption env place e).Clean OptionNested
  | none, _ => by
    rw [ownedOption]
    exact .pure nofun
  | some e, h => by
    rw [Expr.optionText] at h
    rw [ownedOption]
    exact .bind (clean_expr e h) fun f hf => .pure (by rintro _ ⟨⟩; exact nested_owned hf)

/-- A block with a value is nested; its last expression is a line without a semicolon. -/
theorem clean_valueBlock {place : Place} :
    ∀ block : List Stmt, Stmt.allText target isPlain block = true →
      (valueBlock env place block).Clean Code.Nested
  | [], _ => by
    rw [valueBlock]
    exact .pure fun _ => by simp
  | [s], h => by
    rw [Stmt.allText, Bool.and_eq_true] at h
    have hs : (stmt env place s).Clean Code.Nested := clean_stmt s h.1
    -- Only an expression at the end is the value of the block.
    cases s with
    | expr value =>
      rw [Stmt.everyText] at h
      rw [valueBlock]
      split
      · exact .bind (clean_expr value h.1) fun f hf => .pure fun _ => by simp [hf]
      · exact .bind (clean_expr value h.1) fun f hf => .pure fun _ => by simp [hf]
    | _ =>
      simp only [valueBlock, pure_bind, List.append_nil]
      exact .bind hs fun cs hcs => .pure hcs
  | s :: s' :: ss, h => by
    rw [Stmt.allText, Bool.and_eq_true] at h
    simp only [valueBlock]
    exact .bind (clean_stmt s h.1) fun cs hcs => .bind (clean_valueBlock (s' :: ss) h.2)
      fun ds hds => .pure fun _ => by simp [hcs, hds]

/-- The arms of a match that stands for a value are nested one by one. -/
theorem clean_matchArms {place : Place} :
    ∀ arms : List MatchArm, MatchArm.allText target isPlain arms = true →
      (matchArms env place arms).Clean AllNested
  | [], _ => by
    rw [matchArms]
    exact .pure nofun
  | ⟨pattern, .expr value⟩ :: arms, h => by
    rw [MatchArm.allText, Body.everyText, Bool.and_eq_true, Bool.and_eq_true] at h
    rw [matchArms]
    refine .bind (clean_armPattern pattern h.1.1) fun f hf => ?_
    refine .bind (clean_expr value h.1.2) fun g hg => ?_
    have hresult := nested_owned (e := value) hg
    exact .bind (clean_matchArms arms h.2) fun fs hfs =>
      .pure (.cons (fun _ => by simp [hf, hresult]) hfs)
  | ⟨pattern, .block block⟩ :: arms, h => by
    rw [MatchArm.allText, Body.everyText, Bool.and_eq_true, Bool.and_eq_true] at h
    rw [matchArms]
    refine .bind (clean_armPattern pattern h.1.1) fun f hf => ?_
    refine .bind (clean_stmts block h.1.2) fun cs hcs => ?_
    extract_lets closed
    have hclosed : Code.Nested closed := by
      dsimp only [closed]
      split
      · exact hcs
      · exact fun _ => by simp [hcs]
    exact .bind (clean_matchArms arms h.2) fun fs hfs =>
      .pure (.cons (fun _ => by simp [hf, hclosed]) hfs)

theorem clean_armPattern {place : Place} :
    ∀ pattern : Pattern, pattern.everyText target isPlain = true →
      (armPattern env place pattern).Clean Fragment.Nested
  | .default, _ => by
    rw [armPattern]
    exact .pure fun _ => by simp
  | .values values, h => by
    rw [Pattern.everyText] at h
    rw [armPattern]
    exact .bind (clean_exprs values h) fun fs hfs => .pure (hfs.join rfl)

/-- A statement is nested if no text in its tree has delimiters; raw text is passed through as it
is. -/
theorem clean_stmt {place : Place} :
    ∀ s : Stmt, s.everyText target isPlain = true → (stmt env place s).Clean Code.Nested
  | .binding b, h => by
    rw [Stmt.everyText] at h
    rw [stmt]
    exact .bind (clean_binding b h) fun f hf => .pure fun _ => by simp [hf]
  | .ifThen condition thenBranch elseBranch, h => by
    rw [Stmt.everyText, Bool.and_eq_true, Bool.and_eq_true] at h
    rw [stmt]
    refine .bind (clean_expr condition h.1.1) fun f hf => ?_
    refine .bind (clean_stmts thenBranch h.1.2) fun cs hcs => ?_
    exact .bind (clean_elseChain elseBranch h.2) fun bs hbs =>
      .pure fun _ => by simp [hf, hcs, hbs]
  | .whileLoop condition body, h => by
    rw [Stmt.everyText, Bool.and_eq_true] at h
    rw [stmt]
    exact .bind (clean_expr condition h.1) fun f hf => .bind (clean_stmts body h.2) fun cs hcs =>
      .pure fun _ => by simp [hf, hcs]
  | .forLoop start condition step body, h => by
    rw [Stmt.everyText, Bool.and_eq_true, Bool.and_eq_true, Bool.and_eq_true] at h
    obtain ⟨⟨⟨hstart, hcondition⟩, hstep⟩, hbody⟩ := h
    rw [stmt_forLoop]
    refine .bind (clean_forClause start hstart) fun first hfirst => ?_
    refine .bind (clean_loopHeader condition hcondition) fun header hheader => ?_
    refine .bind (clean_loopBody fun label => clean_stmts body hbody) fun inner hinner => ?_
    refine .bind (clean_stepLine step hstep) fun last hlast => .pure ?_
    split
    · exact fun _ => by simp [hfirst, hheader, hinner, hlast]
    · exact fun _ => by simp [hheader, hinner, hlast]
  | .forEach name type iterable body, h => by
    rw [Stmt.everyText, Bool.and_eq_true, Bool.and_eq_true, Bool.and_eq_true] at h
    obtain ⟨⟨⟨hname, -⟩, hiterable⟩, hbody⟩ := h
    -- The type of the variable is not written.
    rw [stmt]
    refine .bind (clean_expr iterable hiterable) fun f hf => ?_
    have hcollection := nested_iterated (e := iterable) hf
    exact .bind (clean_stmts body hbody) fun cs hcs =>
      .pure fun _ => by simp [hname, hcollection, hcs]
  | .ret none, _ => by
    rw [stmt]
    exact .pure fun _ => by simp
  | .ret (some value), h => by
    rw [Stmt.everyText, Expr.optionText] at h
    rw [stmt]
    refine .bind (clean_expr value h) fun f hf => .pure ?_
    have hshown := nested_returned (e := value) hf
    exact fun _ => by simp [hshown]
  | .breakLoop, _ => by
    rw [stmt]
    exact .pure fun _ => by simp
  | .continueLoop, _ => by
    rw [stmt]
    exact .pure fun _ => by simp
  | .matchOn scrutinee arms, h => by
    rw [Stmt.everyText, Bool.and_eq_true] at h
    rw [stmt]
    exact .bind (clean_expr scrutinee h.1) fun f hf => .bind (clean_matchCases arms h.2)
      fun cs hcs => .pure (nested_matchCode (nested_subjectText _ hf) hcs)
  | .switchOn subject cases, h => by
    rw [Stmt.everyText, Bool.and_eq_true] at h
    rw [stmt]
    exact .bind (clean_expr subject h.1) fun f hf => .bind (clean_switchCases cases h.2)
      fun cs hcs => .pure (nested_matchCode (nested_subjectText _ hf) hcs)
  | .expr value, h => by
    rw [Stmt.everyText] at h
    have hvalue : (expr env place .statement value).Clean Fragment.Nested := clean_expr value h
    cases value with
    | matchOn scrutinee arms =>
      rw [Expr.everyText, Bool.and_eq_true] at h
      rw [stmt]
      exact .bind (clean_expr scrutinee h.1) fun f hf => .bind (clean_matchCases arms h.2)
        fun cs hcs => .pure (nested_matchCode (nested_subjectText _ hf) hcs)
    | _ =>
      simp only [stmt]
      exact .bind hvalue fun f hf => .pure fun _ => by simp [hf]
  | .raw block, h => by
    rw [Stmt.everyText] at h
    rw [stmt]
    exact target.clean_rawCode h
  | .functionDecl _ decl, h => by
    rw [Stmt.everyText] at h
    rw [stmt]
    exact .bind (clean_function { visibility := "" } _ (fun _ => by simp) nofun nofun
      (fun _ => .pure fun _ => by simp) decl h) fun cs hcs => .pure fun _ => by simp [hcs]
  | .typeDecl _ _, _ => by
    rw [stmt]
    exact .fail _
  | .enumDecl _, _ => by
    rw [stmt]
    exact .fail _
  | .importDecl _, _ | .includeDecl _ _, _ | .aliasDecl _, _ | .namespaceDecl _ _, _
  | .moduleDecl _, _ | .fieldDecl _, _ | .propertyDecl _, _ => by
    simp only [stmt]
    exact target.clean_refuseInBody place.toScope _

theorem clean_stmts {place : Place} :
    ∀ ss : List Stmt, Stmt.allText target isPlain ss = true →
      (stmts env place ss).Clean Code.Nested
  | [], _ => by
    rw [stmts]
    exact .pure fun _ => by simp
  | s :: ss, h => by
    rw [Stmt.allText, Bool.and_eq_true] at h
    rw [stmts]
    exact .bind (clean_stmt s h.1) fun cs hcs => .bind (clean_stmts ss h.2) fun ds hds =>
      .pure fun _ => by simp [hcs, hds]

theorem clean_binding {place : Place} {forceMutable : Bool} :
    ∀ b : Binding, b.everyText target isPlain = true →
      (binding env place forceMutable b).Clean Fragment.Nested
  | ⟨name, type, value, mutability⟩, h => by
    rw [Binding.everyText, Bool.and_eq_true, Bool.and_eq_true] at h
    obtain ⟨⟨hname, htype⟩, hvalue⟩ := h
    have hspelling : (type.mapM (mapType env.known place.toScope)).Clean
        fun a => ∀ s ∈ a, NestedText s := by
      refine .optionMapM fun t ht => clean_mapType ?_
      cases ht
      exact htype
    have hkeyword : isPlain (if forceMutable || mutability = .mutable then "let mut " else "let ") =
        true := by
      split <;> rfl
    rw [binding]
    generalize (if forceMutable || mutability = .mutable then "let mut " else "let ") = keyword
      at hkeyword ⊢
    refine .bind hspelling fun spelling hspelling => ?_
    refine .bind (clean_ownedOption value hvalue) fun o ho => .pure ?_
    have hshown : Fragment.Nested (o.elim [] (text " = " ++ ·)) := ho.elim rfl
    cases spelling with
    | none => exact fun _ => by simp [hkeyword, hname, hshown]
    | some s =>
      have hs := hspelling s rfl
      exact fun _ => by simp [hkeyword, hname, hs, hshown]

/-- The first clause of a counted loop is a statement ahead of it. -/
theorem clean_forClause {place : Place} :
    ∀ start : Option Stmt, Stmt.optionText target isPlain start = true →
      (forClause env place start).Clean Code.Nested
  | none, _ => by
    rw [forClause]
    exact .pure fun _ => by simp
  | some s, h => by
    rw [Stmt.optionText] at h
    cases s with
    | binding b =>
      rw [Stmt.everyText] at h
      rw [forClause]
      exact .bind (clean_binding b h) fun f hf => .pure fun _ => by simp [hf]
    | expr value =>
      rw [Stmt.everyText] at h
      rw [forClause]
      exact .bind (clean_expr value h) fun f hf => .pure fun _ => by simp [hf]
    | _ =>
      simp only [forClause]
      exact .reporting (.pure fun _ => by simp)

theorem clean_loopHeader {place : Place} :
    ∀ condition : Option Expr, Expr.optionText target isPlain condition = true →
      (loopHeader env place condition).Clean Fragment.Nested
  | none, _ => by
    rw [loopHeader]
    exact .pure fun _ => by simp
  | some condition, h => by
    rw [Expr.optionText] at h
    rw [loopHeader]
    exact .bind (clean_expr condition h) fun f hf => .pure fun _ => by simp [hf]

/-- The last clause of a counted loop is a line at the end of its body. -/
theorem clean_stepLine {place : Place} :
    ∀ step : Option Expr, Expr.optionText target isPlain step = true →
      (stepLine env place step).Clean Code.Nested
  | none, _ => by
    rw [stepLine]
    exact .pure fun _ => by simp
  | some step, h => by
    rw [Expr.optionText] at h
    rw [stepLine]
    exact .bind (clean_expr step h) fun f hf => .pure fun _ => by simp [hf]

/-- The branches behind an `if` continue its chain. -/
theorem clean_elseChain {place : Place} :
    ∀ branch : Option (List Stmt), Stmt.blockText target isPlain branch = true →
      (elseChain env place branch).Clean NestedRest
  | none, _ => by
    rw [elseChain]
    exact .pure fun _ => by simp
  | some [], _ => by
    simp only [elseChain, stmts, pure_bind]
    exact .pure (nestedRest_else fun _ => by simp)
  | some [s], h => by
    rw [Stmt.blockText] at h
    have hs : (stmts env place [s]).Clean Code.Nested := clean_stmts [s] h
    -- An `if` alone continues the chain; any other statement is a block of its own.
    cases s with
    | ifThen condition thenBranch elseBranch =>
      rw [Stmt.allText, Bool.and_eq_true, Stmt.everyText, Bool.and_eq_true, Bool.and_eq_true] at h
      rw [elseChain]
      refine .bind (clean_expr condition h.1.1.1) fun f hf => ?_
      refine .bind (clean_stmts thenBranch h.1.1.2) fun cs hcs => ?_
      exact .bind (clean_elseChain elseBranch h.1.2) fun bs hbs =>
        .pure fun _ => by simp [hf, hcs, hbs]
    | _ =>
      simp only [elseChain]
      exact .bind hs fun cs hcs => .pure (nestedRest_else hcs)
  | some (s :: s' :: ss), h => by
    rw [Stmt.blockText] at h
    simp only [elseChain]
    exact .bind (clean_stmts (s :: s' :: ss) h) fun cs hcs => .pure (nestedRest_else hcs)

theorem clean_matchCases {place : Place} :
    ∀ arms : List MatchArm, MatchArm.allText target isPlain arms = true →
      (matchCases env place arms).Clean Code.Nested
  | [], _ => by
    rw [matchCases]
    exact .pure fun _ => by simp
  | ⟨pattern, .expr value⟩ :: arms, h => by
    rw [MatchArm.allText, Body.everyText, Bool.and_eq_true, Bool.and_eq_true] at h
    rw [matchCases]
    refine .bind (clean_armPattern pattern h.1.1) fun f hf => ?_
    refine .bind (clean_expr value h.1.2) fun g hg => ?_
    exact .bind (clean_matchCases arms h.2) fun cs hcs => .pure fun _ => by simp [hf, hg, hcs]
  | ⟨pattern, .block block⟩ :: arms, h => by
    rw [MatchArm.allText, Body.everyText, Bool.and_eq_true, Bool.and_eq_true] at h
    rw [matchCases]
    refine .bind (clean_armPattern pattern h.1.1) fun f hf => ?_
    refine .bind (clean_stmts block h.1.2) fun cs hcs => ?_
    exact .bind (clean_matchCases arms h.2) fun ds hds => .pure fun _ => by simp [hf, hcs, hds]

theorem clean_switchCases {place : Place} :
    ∀ cases : List SwitchCase, SwitchCase.allText target isPlain cases = true →
      (switchCases env place cases).Clean Code.Nested
  | [], _ => by
    rw [switchCases]
    exact .pure fun _ => by simp
  | ⟨pattern, block⟩ :: cases, h => by
    rw [SwitchCase.allText, Bool.and_eq_true, Bool.and_eq_true] at h
    rw [switchCases]
    refine .bind (clean_armPattern pattern h.1.1) fun f hf => ?_
    refine .bind (clean_stmts block h.1.2) fun cs hcs => ?_
    exact .bind (clean_switchCases cases h.2) fun ds hds => .pure fun _ => by simp [hf, hcs, hds]

theorem clean_attributeLines {place : Place} :
    ∀ attributes : List Attribute, Attribute.allText target isPlain attributes = true →
      (attributeLines env place attributes).Clean Code.Nested
  | [], _ => by
    rw [attributeLines]
    exact .pure fun _ => by simp
  | ⟨name, args⟩ :: attributes, h => by
    rw [Attribute.allText, Bool.and_eq_true, Bool.and_eq_true] at h
    obtain ⟨⟨hname, hargs⟩, hattributes⟩ := h
    have hrest : (attributeLines env place attributes).Clean Code.Nested :=
      clean_attributeLines attributes hattributes
    rw [attributeLines]
    split
    · exact hrest
    · refine .bind (clean_exprs args hargs) fun fs hfs => ?_
      extract_lets shown
      have hjoin : Fragment.Nested (Fragment.join ", " fs) := hfs.join rfl
      have hshown : shown.Nested := by
        dsimp only [shown]
        split
        · exact fun _ => by simp
        · exact fun _ => by simp [hjoin]
      split
      · exact .bind hrest fun ds hds => .pure fun _ => by simp [hname, hshown, hds]
      · exact .reporting (.bind hrest fun ds hds => .pure fun _ => by simp [hname, hshown, hds])

/-- A function is nested if what is written ahead of its own body is, and the texts in its options
are. -/
theorem clean_function {place : Place} (options : FunctionOptions)
    (prologue : Place → Gen (List Code)) (hvisibility : NestedText options.visibility)
    (hname : ∀ name ∈ options.name, isPlain name = true)
    (hreturns : ∀ returns ∈ options.returns, NestedText returns)
    (hprologue : ∀ place, (prologue place).Clean Code.Nested) :
    ∀ decl : Function, decl.everyText target isPlain = true →
      (function env place options prologue decl).Clean Code.Nested
  | ⟨name, params, returnType, generics, modifiers, attributes, body, isConstructor, isStatic⟩,
      h => by
    rw [function]
    refine target.clean_unlessMarked fun hmark => ?_
    obtain ⟨hown, hparams, htype, hgenerics, hattributes, hbody⟩ :=
      Function.texts_of_unmarked hmark h
    split
    · exact .reporting (.pure fun _ => by simp)
    refine .bind (clean_attributeLines attributes hattributes) fun ls hls => ?_
    refine .bind (clean_parameters hparams) fun ss hss => ?_
    extract_lets +lift shown finish
    have hshown : NestedText (Text.join ", " shown) :=
      Text.nested_join rfl (List.forall_mem_append.mpr ⟨nested_receiver _, hss⟩)
    have hname : isPlain (options.name.getD name) = true := by
      cases hoption : options.name with
      | none => exact hown
      | some other => exact hname other hoption
    -- The options may give the return type; what follows is the same.
    have hfinish : ∀ returns, NestedText returns → (finish returns).Clean Code.Nested := by
      intro returns hreturns
      refine .bind (clean_genericParams hgenerics) fun bounds hbounds => ?_
      have hclause := nested_returnClause hreturns
      refine .bind (clean_functionBody prologue hprologue ?_ body hbody) fun cs hcs =>
        .pure fun _ => by simp [hls, hcs]
      exact fun _ => by simp [hvisibility, hname, hbounds, hshown, hclause]
    split
    · rename_i returns hoption
      exact hfinish returns (hreturns returns hoption)
    · exact .bind (clean_returnSpelling htype) hfinish

/-- A body is nested behind a nested head. -/
theorem clean_functionBody {place : Place} {requireBody : Bool}
    (prologue : Place → Gen (List Code))
    (hprologue : ∀ place, (prologue place).Clean Code.Nested) {head : String}
    (hhead : NestedText head) :
    ∀ body : Option (List Stmt), Stmt.blockText target isPlain body = true →
      (functionBody env place requireBody prologue head body).Clean Code.Nested
  | none, _ => by
    rw [functionBody]
    split
    · exact .pure fun _ => by simp [hhead]
    · exact .pure fun _ => by simp [hhead]
  | some body, h => by
    rw [Stmt.blockText] at h
    rw [functionBody]
    refine .bind (hprologue place) fun cs hcs => ?_
    exact .bind (clean_stmts body h) fun ds hds => .pure fun _ => by simp [hhead, hcs, hds]

end

end Rust

end SourceGen
