import SourceGen.Proofs.CSharp.TypeNesting

/-!
# C# bodies are nested

What the generator writes for plain expressions, statements and functions closes every delimiter
that it opens. First come the parts that have no statements or expressions of their own to write,
then one induction over the tree.

## Main definitions

* `CSharp.PlainAround`: the texts that come from around a piece of code are plain.

## Main results

* `CSharp.clean_expr`: the fragments of expressions.
* `CSharp.clean_stmts`: the code of statements.
* `CSharp.clean_function`: the code of functions.
-/

namespace SourceGen

namespace CSharp

open Fragment (text AllNested OptionNested)
open Text (isPlain NestedText)

/-- What may be written besides the texts of the tree has no delimiters: the spellings of the
resolver, and the name of the type around the code, which a constructor repeats. -/
structure PlainAround (env : Env) (scope : Scope) : Prop where
  resolver : env.resolver.IsPlain
  className : ∀ name ∈ scope.className, isPlain name = true

/-- Outside of all types there is no name to repeat. -/
theorem PlainAround.space {env : Env} (h : env.resolver.IsPlain) : PlainAround env {} :=
  ⟨h, nofun⟩

/-- Inside of a type its name is the only one around the code. -/
theorem PlainAround.type {env : Env} {scope : Scope} {name : String} (h : env.resolver.IsPlain)
    (hname : isPlain name = true) (hscope : scope.className = some name) :
    PlainAround env scope := by
  refine ⟨h, fun other hother => ?_⟩
  rw [hscope] at hother
  cases hother
  exact hname

variable {env : Env} {scope : Scope} {f args : Fragment}

/-! ### Parts of expressions -/

/-- An operand is nested, in parentheses or not. -/
theorem nested_grouped {e : Expr} (hf : f.Nested) : (grouped e f).Nested := by
  rw [grouped]
  split
  · exact fun _ => by simp [hf]
  · exact hf

/-- A call of a builtin is nested in its arguments, under its own name or as a method. -/
theorem clean_builtinOrShim {fn : Builtin} {argCount : Nat} (hargs : args.Nested) :
    (builtinOrShim env fn argCount args).Clean Fragment.Nested := by
  unfold builtinOrShim
  split
  · have hname := isPlain_builtin fn
    exact .pure fun _ => by simp [hname, hargs]
  · refine .importing rfl ?_
    cases fn with
    | print =>
      dsimp only
      split
      · exact .pure fun _ => by simp [hargs]
      · exact .pure fun _ => by simp [hargs]
    | len => exact .importing rfl (.pure fun _ => by simp [hargs])
    | str | abs | min | max | sqrt => exact .pure fun _ => by simp [hargs]

/-- An array is nested in its elements and in its element type. -/
theorem clean_arrayLiteral {isEmpty : Bool} {elementType : Option TypeRef}
    (hresolver : env.resolver.IsPlain) (hargs : args.Nested)
    (h : elementType.all (TypeRef.everyText isPlain) = true) :
    (arrayLiteral env scope isEmpty args elementType).Clean Fragment.Nested := by
  unfold arrayLiteral
  extract_lets body
  have hbody : body.Nested := by
    dsimp only [body]
    split
    · exact fun _ => by simp
    · exact fun _ => by simp [hargs]
  cases elementType with
  | none =>
    refine .pure fun _ => ?_
    cases isEmpty <;> simp [hbody]
  | some type =>
    refine .bind (clean_mapType hresolver h) fun spelling hspelling => .pure fun _ => ?_
    simp [hspelling, hbody]

/-- A variable is nested in its type and its value, each of which may be missing. -/
theorem nested_variableText {mutability : Mutability} {name : String} {type : Option String}
    {value : Option Fragment} (hname : isPlain name = true) (htype : ∀ s ∈ type, NestedText s)
    (hvalue : OptionNested value) : (variableText mutability name type value).Nested := by
  cases type with
  | none =>
    cases value with
    | none => exact fun _ => by simp [variableText, untyped, hname]
    | some f =>
      have hf := hvalue f rfl
      exact fun _ => by simp [variableText, hname, hf]
  | some s =>
    have hs := htype s rfl
    cases value with
    | none => exact fun _ => by simp [variableText, hname, hs]
    | some f =>
      have hf := hvalue f rfl
      refine fun _ => ?_
      by_cases hconstant : mutability = .constant
      · simp [variableText, hname, hs, hf, hconstant]
      · simp [variableText, hname, hs, hf, hconstant]

section Range

variable {r : Range} {start stop : Gen (Option Fragment)} (hstart : start.Clean OptionNested)
  (hstop : stop.Clean OptionNested)

include hstart hstop

/-- The number of elements of a range is nested in the bounds of the range. -/
theorem clean_rangeCount : (rangeCount r start stop).Clean Fragment.Nested := by
  have hnil : Fragment.Nested [] := fun _ => by simp
  unfold rangeCount
  split
  · exact .pure fun _ => by simp
  · -- The optional parts of the number are written by continuations, the last one first here.
    extract_lets +lift finish subtract count
    have hfinish : ∀ f : Fragment, f.Nested → (finish f).Clean Fragment.Nested := by
      intro f hf
      refine .pure ?_
      split
      · exact fun _ => by simp [hf]
      · exact hf
    have hsubtract : ∀ f : Fragment, f.Nested → (subtract f).Clean Fragment.Nested := by
      intro f hf
      dsimp only [subtract]
      split
      · rename_i e _
        split
        · exact hfinish f hf
        · refine .bind hstart fun o ho => hfinish _ ?_
          have hfirst := nested_grouped (e := e) (ho.getD hnil)
          exact fun _ => by simp [hf, hfirst]
      · exact hfinish f hf
    have hcount : ∀ u, (count u).Clean Fragment.Nested := by
      intro u
      dsimp only [count]
      split
      · exact .bind hstop fun o ho => hsubtract _ (nested_grouped (ho.getD hnil))
      · exact hsubtract _ fun _ => by simp
    split
    · exact .reporting (hcount ())
    · exact hcount ()

/-- A range as a sequence is nested in its bounds. -/
theorem clean_indexSequence : (indexSequence r start stop).Clean Fragment.Nested := by
  unfold indexSequence
  refine .importing rfl (.bind hstart fun o ho => ?_)
  refine .bind (clean_rangeCount hstart hstop) fun count hcount => .pure ?_
  have hfirst : Fragment.Nested (o.getD (text "0")) := ho.getD fun _ => by simp
  exact fun _ => by simp [hfirst, hcount]

end Range

/-- A closure that is called on the spot is nested if its code is. -/
theorem nested_invoked {cs : List Code} (hcs : Code.Nested cs) : (invoked cs).Nested :=
  fun _ => by simp [invoked, hcs]

/-- A call is nested if its callee and its arguments are. -/
theorem nested_call {fs : List Fragment} (hf : f.Nested) (hfs : AllNested fs) :
    Fragment.Nested (f ++ text "(" ++ Fragment.join ", " fs ++ text ")") := by
  have hjoin : Fragment.Nested (Fragment.join ", " fs) := hfs.join rfl
  exact fun _ => by simp [hf, hjoin]

/-! ### Parts of statements -/

/-- A loop is nested with the label behind it or without one. -/
theorem nested_loopCode {number : Nat} {header : Fragment} {body : List Code}
    (hheader : header.Nested) (hbody : Code.Nested body) :
    Code.Nested (loopCode number header body) := by
  unfold loopCode
  split
  · exact fun _ => by simp [hheader, hbody]
  · exact fun _ => by simp [hheader, hbody]

/-- An expression as a statement is nested, discarded or not. -/
theorem nested_effectLine {e : Expr} (hf : f.Nested) : Code.Nested [effectLine e f] := by
  unfold effectLine
  split
  · exact fun _ => by simp [hf]
  · exact fun _ => by simp [hf]

/-- A switch is nested in what it selects by and in its cases. -/
theorem nested_switch {cases : List Code} (hf : f.Nested) (hcases : Code.Nested cases) :
    Code.Nested [.block .switch (text "switch (" ++ f ++ text ")") cases ""] :=
  fun _ => by simp [hf, hcases]

/-- An `else` is a nested block if its body is nested. -/
theorem nested_else {body : List Code} (hbody : Code.Nested body) :
    Code.Nested [.block .plain (text "else") body ""] :=
  fun _ => by simp [hbody]

/-- The header of a loop over a sequence is nested in the sequence. -/
theorem nested_forEachHeader {spelling name : String} (hspelling : NestedText spelling)
    (hname : isPlain name = true) (hf : f.Nested) :
    Fragment.Nested
      (text ("foreach (" ++ spelling ++ " " ++ ident name ++ " in ") ++ f ++ text ")") :=
  fun _ => by simp [hspelling, hname, hf]

/-- A block with a value ends with a return. -/
theorem nested_returning (returns : Bool) {body : List Code} (hbody : Code.Nested body) :
    Code.Nested (if returns then body else body ++ [Code.text "return null;"]) := by
  split
  · exact hbody
  · exact fun _ => by simp [hbody]

/-- The body of a case is nested, in braces or not. -/
theorem nested_caseBlock (block : List Stmt) {code : List Code} (hcode : Code.Nested code) :
    Code.Nested (caseBlock block code) := by
  unfold caseBlock
  extract_lets closed
  have hclosed : Code.Nested closed := by
    dsimp only [closed]
    split
    · exact hcode
    · exact fun _ => by simp [hcode]
  split
  · exact fun _ => by simp [hclosed]
  · exact hclosed

/-! ### The induction over the tree -/

mutual

/-- An expression is nested if no text in its tree has delimiters. -/
theorem clean_expr {scope : Scope} (hplain : PlainAround env scope) :
    ∀ e : Expr, e.everyText target isPlain = true → (expr env scope e).Clean Fragment.Nested
  | .literal value, h => by
    rw [Expr.everyText] at h
    have hvalue := isPlain_literal h
    rw [expr]
    exact .pure fun _ => by simp [hvalue]
  | .ident name, h => by
    rw [Expr.everyText] at h
    rw [expr]
    exact .pure fun _ => by simp [h]
  | .path parts, h => by
    rw [Expr.everyText] at h
    have hparts := isPlain_path h
    rw [expr]
    exact .pure fun _ => by simp [hparts]
  | .member object name, h => by
    rw [Expr.everyText, Bool.and_eq_true] at h
    rw [expr]
    refine .bind (clean_expr hplain object h.1) fun f hf => .pure ?_
    have hobject := nested_grouped (e := object) hf
    exact fun _ => by simp [hobject, h.2]
  | .index object i, h => by
    rw [Expr.everyText, Bool.and_eq_true] at h
    rw [expr]
    refine .bind (clean_expr hplain object h.1) fun f hf => ?_
    refine .bind (clean_expr hplain i h.2) fun g hg => .pure ?_
    have hobject := nested_grouped (e := object) hf
    exact fun _ => by simp [hobject, hg]
  | .binary left op right, h => by
    rw [Expr.everyText, Bool.and_eq_true] at h
    rw [expr]
    refine .bind (clean_expr hplain left h.1) fun f hf => ?_
    refine .bind (clean_expr hplain right h.2) fun g hg => ?_
    have hl := nested_grouped (e := left) hf
    have hr := nested_grouped (e := right) hg
    split
    · exact .importing rfl (.pure fun _ => by simp [hl, hr])
    · exact .pure fun _ => by simp [hl, hr]
  | .unary op operand trailing, h => by
    rw [Expr.everyText] at h
    rw [expr]
    refine .bind (clean_expr hplain operand h) fun f hf => .pure ?_
    have hinner := nested_grouped (e := operand) hf
    split
    · exact fun _ => by simp [hinner]
    · exact fun _ => by simp [hinner]
  | .assign left op value, h => by
    rw [Expr.everyText, Bool.and_eq_true] at h
    rw [expr]
    refine .bind (clean_expr hplain left h.1) fun f hf => ?_
    exact .bind (clean_expr hplain value h.2) fun g hg => .pure fun _ => by simp [hf, hg]
  | .call callee args, h => by
    rw [Expr.everyText, Bool.and_eq_true] at h
    have hargs : (exprs env scope args).Clean AllNested := clean_exprs hplain args h.2
    have hcallee : (expr env scope callee).Clean Fragment.Nested := clean_expr hplain callee h.1
    -- What is written of a callee depends on its form.
    cases callee with
    | ident name =>
      rw [Expr.everyText] at h
      rw [expr]
      refine .bind hargs fun fs hfs => ?_
      have hjoin : Fragment.Nested (Fragment.join ", " fs) := hfs.join rfl
      split
      · exact clean_builtinOrShim hjoin
      · exact .pure fun _ => by simp [hjoin, h.1]
    | path parts =>
      rw [Expr.everyText] at h
      have hparts := isPlain_path h.1
      rw [expr]
      refine .bind hargs fun fs hfs => .pure ?_
      have hjoin : Fragment.Nested (Fragment.join ", " fs) := hfs.join rfl
      exact fun _ => by simp [hjoin, hparts]
    | member receiver name =>
      rw [Expr.everyText, Bool.and_eq_true] at h
      rw [expr]
      refine .bind hargs fun fs hfs => ?_
      refine .bind (clean_expr hplain receiver h.1.1) fun f hf => .pure ?_
      have hjoin : Fragment.Nested (Fragment.join ", " fs) := hfs.join rfl
      have hobject := nested_grouped (e := receiver) hf
      exact fun _ => by simp [hjoin, hobject, h.1.2]
    | _ =>
      simp only [expr]
      exact .bind hargs fun fs hfs => .bind hcallee fun f hf =>
        .pure (nested_call (nested_grouped hf) hfs)
  | .construct type args, h => by
    rw [Expr.everyText, Bool.and_eq_true] at h
    rw [expr]
    refine .bind (clean_mapType hplain.resolver h.1) fun spelling hspelling => ?_
    refine .bind (clean_exprs hplain args h.2) fun fs hfs => .pure ?_
    have hjoin : Fragment.Nested (Fragment.join ", " fs) := hfs.join rfl
    exact fun _ => by simp [hspelling, hjoin]
  | .array elements elementType, h => by
    rw [Expr.everyText, Bool.and_eq_true] at h
    rw [expr]
    exact .bind (clean_exprs hplain elements h.1) fun fs hfs =>
      clean_arrayLiteral hplain.resolver (hfs.join rfl) h.2
  | .lambda params (.expr value), h => by
    rw [Expr.everyText, Body.everyText, Bool.and_eq_true] at h
    rw [expr]
    refine .bind (clean_lambdaHead hplain.resolver h.1) fun head hhead => ?_
    exact .bind (clean_expr hplain value h.2) fun f hf => .pure fun _ => by simp [hhead, hf]
  | .lambda params (.block block), h => by
    rw [Expr.everyText, Body.everyText, Bool.and_eq_true] at h
    rw [expr]
    refine .bind (clean_lambdaHead hplain.resolver h.1) fun head hhead => ?_
    exact .bind (clean_stmts hplain none block h.2) fun cs hcs =>
      .pure fun _ => by simp [hhead, hcs]
  | .range start stop inclusive, h => by
    rw [Expr.everyText, Bool.and_eq_true] at h
    rw [expr]
    exact clean_indexSequence (clean_exprOption hplain start h.1)
      (clean_exprOption hplain stop h.2)
  | .block block, h => by
    rw [Expr.everyText] at h
    rw [expr]
    exact .importing rfl (.bind (clean_valueBlock hplain block h) fun cs hcs =>
      .pure (nested_invoked hcs))
  | .matchOn scrutinee arms, h => by
    rw [Expr.everyText, Bool.and_eq_true] at h
    rw [expr]
    refine .bind (clean_expr hplain scrutinee h.1) fun f hf => ?_
    refine .bind (clean_switchArms hplain arms h.2) fun fs hfs => .pure ?_
    have hsubject := nested_grouped (e := scrutinee) hf
    have harms := hfs.arms
    exact fun _ => by simp [hsubject, harms]
  | .this, _ => by
    rw [expr]
    exact .pure fun _ => by simp

theorem clean_exprs {scope : Scope} (hplain : PlainAround env scope) :
    ∀ es : List Expr, Expr.allText target isPlain es = true →
      (exprs env scope es).Clean AllNested
  | [], _ => by
    rw [exprs]
    exact .pure nofun
  | e :: es, h => by
    rw [Expr.allText, Bool.and_eq_true] at h
    rw [exprs]
    exact .bind (clean_expr hplain e h.1) fun f hf =>
      .bind (clean_exprs hplain es h.2) fun fs hfs => .pure (.cons hf hfs)

theorem clean_exprOption {scope : Scope} (hplain : PlainAround env scope) :
    ∀ e : Option Expr, Expr.optionText target isPlain e = true →
      (exprOption env scope e).Clean OptionNested
  | none, _ => by
    rw [exprOption]
    exact .pure nofun
  | some e, h => by
    rw [Expr.optionText] at h
    rw [exprOption]
    exact .bind (clean_expr hplain e h) fun f hf => .pure (by rintro _ ⟨⟩; exact hf)

/-- A block with a value is nested; its last expression becomes a `return`. -/
theorem clean_valueBlock {scope : Scope} (hplain : PlainAround env scope) :
    ∀ block : List Stmt, Stmt.allText target isPlain block = true →
      (valueBlock env scope block).Clean Code.Nested
  | [], _ => by
    rw [valueBlock]
    exact .pure fun _ => by simp
  | [s], h => by
    rw [Stmt.allText, Bool.and_eq_true] at h
    have hs : (stmt env scope none s).Clean Code.Nested := clean_stmt hplain none s h.1
    -- Only an expression at the end is the value of the block.
    cases s with
    | expr value =>
      rw [Stmt.everyText] at h
      rw [valueBlock]
      exact .bind (clean_expr hplain value h.1) fun f hf => .pure fun _ => by simp [hf]
    | _ =>
      simp only [valueBlock]
      exact .bind hs fun cs hcs => .pure (nested_returning _ hcs)
  | s :: s' :: ss, h => by
    rw [Stmt.allText, Bool.and_eq_true] at h
    simp only [valueBlock]
    exact .bind (clean_stmt hplain none s h.1) fun cs hcs =>
      .bind (clean_valueBlock hplain (s' :: ss) h.2) fun ds hds =>
        .pure fun _ => by simp [hcs, hds]

/-- The arms of a switch expression are nested one by one; a block becomes a closure. -/
theorem clean_switchArms {scope : Scope} (hplain : PlainAround env scope) :
    ∀ arms : List MatchArm, MatchArm.allText target isPlain arms = true →
      (switchArms env scope arms).Clean AllNested
  | [], _ => by
    rw [switchArms]
    exact .pure nofun
  | ⟨pattern, .expr value⟩ :: arms, h => by
    rw [MatchArm.allText, Body.everyText, Bool.and_eq_true, Bool.and_eq_true] at h
    rw [switchArms]
    refine .bind (clean_armSelector hplain pattern h.1.1) fun f hf => ?_
    refine .bind (clean_expr hplain value h.1.2) fun g hg => ?_
    exact .bind (clean_switchArms hplain arms h.2) fun fs hfs =>
      .pure (.cons (fun _ => by simp [hf, hg]) hfs)
  | ⟨pattern, .block block⟩ :: arms, h => by
    rw [MatchArm.allText, Body.everyText, Bool.and_eq_true, Bool.and_eq_true] at h
    rw [switchArms]
    refine .bind (clean_armSelector hplain pattern h.1.1) fun f hf => .importing rfl ?_
    refine .bind (clean_stmts hplain none block h.1.2) fun cs hcs => ?_
    have hinvoked := nested_invoked (nested_returning (Stmt.endsWithReturn block) hcs)
    exact .bind (clean_switchArms hplain arms h.2) fun fs hfs =>
      .pure (.cons (fun _ => by simp [hf, hinvoked]) hfs)

theorem clean_armSelector {scope : Scope} (hplain : PlainAround env scope) :
    ∀ pattern : Pattern, pattern.everyText target isPlain = true →
      (armSelector env scope pattern).Clean Fragment.Nested
  | .default, _ => by
    rw [armSelector]
    exact .pure fun _ => by simp
  | .values values, h => by
    rw [Pattern.everyText] at h
    rw [armSelector]
    exact .bind (clean_exprs hplain values h) fun fs hfs => .pure (hfs.join rfl)

/-- A statement is nested if no text in its tree has delimiters, in any loop. -/
theorem clean_stmt {scope : Scope} (hplain : PlainAround env scope) (loop : Option LoopFrame) :
    ∀ s : Stmt, s.everyText target isPlain = true → (stmt env scope loop s).Clean Code.Nested
  | .binding b, h => by
    rw [Stmt.everyText] at h
    rw [stmt]
    exact .bind (clean_binding hplain b h) fun f hf => .pure fun _ => by simp [hf]
  | .ifThen condition thenBranch elseBranch, h => by
    rw [Stmt.everyText, Bool.and_eq_true, Bool.and_eq_true] at h
    rw [stmt]
    refine .bind (clean_expr hplain condition h.1.1) fun f hf => ?_
    refine .bind (clean_stmts hplain loop thenBranch h.1.2) fun cs hcs => ?_
    exact .bind (clean_elseChain hplain loop elseBranch h.2) fun ds hds =>
      .pure fun _ => by simp [hf, hcs, hds]
  | .whileLoop condition body, h => by
    rw [Stmt.everyText, Bool.and_eq_true] at h
    rw [stmt]
    refine .bind (clean_expr hplain condition h.1) fun f hf => .freshLabel fun number => ?_
    exact .bind (clean_stmts hplain (some ⟨number, false⟩) body h.2) fun cs hcs =>
      .pure (nested_loopCode (fun _ => by simp [hf]) hcs)
  | .forLoop start condition step body, h => by
    rw [Stmt.everyText, Bool.and_eq_true, Bool.and_eq_true, Bool.and_eq_true] at h
    obtain ⟨⟨⟨hstart, hcondition⟩, hstep⟩, hbody⟩ := h
    rw [stmt]
    refine .bind (clean_forClause hplain start hstart) fun f hf => ?_
    refine .bind (clean_exprOption hplain condition hcondition) fun o ho => ?_
    refine .bind (clean_exprOption hplain step hstep) fun o' ho' => .freshLabel fun number => ?_
    refine .bind (clean_stmts hplain (some ⟨number, false⟩) body hbody) fun cs hcs => .pure ?_
    have hsecond : Fragment.Nested (o.elim [] (text " " ++ ·)) := ho.elim rfl
    have hthird : Fragment.Nested (o'.elim [] (text " " ++ ·)) := ho'.elim rfl
    exact nested_loopCode (fun _ => by simp [hf, hsecond, hthird]) hcs
  | .forEach name type iterable body, h => by
    rw [Stmt.everyText, Bool.and_eq_true, Bool.and_eq_true, Bool.and_eq_true] at h
    obtain ⟨⟨⟨hname, htype⟩, hiterable⟩, hbody⟩ := h
    have hsequence : (expr env scope iterable).Clean Fragment.Nested :=
      clean_expr hplain iterable hiterable
    -- The header depends on what is iterated, the rest of the loop does not.
    have hloop : ∀ header : Fragment, header.Nested → (do
        let number ← Gen.freshLabel
        return loopCode number header (← stmts env scope (some ⟨number, false⟩) body) :
          Gen (List Code)).Clean Code.Nested := fun header hheader =>
      .freshLabel fun number =>
        .bind (clean_stmts hplain (some ⟨number, false⟩) body hbody) fun cs hcs =>
          .pure (nested_loopCode hheader hcs)
    cases iterable with
    | range start stop inclusive =>
      rw [Expr.everyText, Bool.and_eq_true] at hiterable
      have hstart : (exprOption env scope start).Clean OptionNested :=
        clean_exprOption hplain start hiterable.1
      have hstop : (exprOption env scope stop).Clean OptionNested :=
        clean_exprOption hplain stop hiterable.2
      rw [stmt]
      refine .bind (clean_mapTypeOr hplain.resolver rfl htype) fun spelling hspelling => ?_
      -- A range without an end counts up in a `for`, any other one is a sequence.
      split
      · refine .bind hstart fun o ho => hloop _ ?_
        have hfirst : Fragment.Nested (o.getD (text "0")) := ho.getD fun _ => by simp
        exact fun _ => by simp [hspelling, hname, hfirst]
      · exact .bind (clean_indexSequence hstart hstop) fun f hf =>
          hloop _ (nested_forEachHeader hspelling hname hf)
    | _ =>
      simp only [stmt]
      refine .bind (clean_mapTypeOr hplain.resolver rfl htype) fun spelling hspelling => ?_
      exact .bind hsequence fun f hf => hloop _ (nested_forEachHeader hspelling hname hf)
  | .ret none, _ => by
    rw [stmt]
    exact .pure fun _ => by simp
  | .ret (some value), h => by
    rw [Stmt.everyText, Expr.optionText] at h
    rw [stmt]
    exact .bind (clean_expr hplain value h) fun f hf => .pure fun _ => by simp [hf]
  | .breakLoop, _ => by
    rw [stmt]
    exact .pure fun _ => by simp
  | .continueLoop, _ => by
    rw [stmt]
    exact .pure fun _ => by simp
  | .matchOn scrutinee arms, h => by
    rw [Stmt.everyText, Bool.and_eq_true] at h
    rw [stmt]
    refine .bind (clean_expr hplain scrutinee h.1) fun f hf => ?_
    exact .bind (clean_matchCases hplain _ arms h.2) fun cs hcs =>
      .pure (nested_switch hf hcs)
  | .switchOn subject cases, h => by
    rw [Stmt.everyText, Bool.and_eq_true] at h
    rw [stmt]
    refine .bind (clean_expr hplain subject h.1) fun f hf => ?_
    exact .bind (clean_switchCases hplain _ cases h.2) fun cs hcs =>
      .pure (nested_switch hf hcs)
  | .expr value, h => by
    rw [Stmt.everyText] at h
    have hvalue : (expr env scope value).Clean Fragment.Nested := clean_expr hplain value h
    cases value with
    | matchOn scrutinee arms =>
      -- A match that is no value of anything is written as a switch statement.
      rw [Expr.everyText, Bool.and_eq_true] at h
      rw [stmt]
      refine .bind (clean_expr hplain scrutinee h.1) fun f hf => ?_
      exact .bind (clean_matchCases hplain _ arms h.2) fun cs hcs =>
        .pure (nested_switch hf hcs)
    | _ =>
      simp only [stmt]
      exact .bind hvalue fun f hf => .pure (nested_effectLine hf)
  | .raw block, h => by
    rw [Stmt.everyText] at h
    rw [stmt]
    exact target.clean_rawCode h
  | .functionDecl _ decl, h => by
    rw [Stmt.everyText] at h
    rw [stmt]
    refine .bind (clean_function hplain { isLocal := true } _ nofun nofun
      (fun _ _ => .pure fun _ => by simp) decl h) fun cs hcs => .pure fun _ => by simp [hcs]
  | .typeDecl _ _, _ => by
    rw [stmt]
    exact .fail _
  | .enumDecl _, _ => by
    rw [stmt]
    exact .fail _
  | .importDecl _, _ | .includeDecl _ _, _ | .aliasDecl _, _ | .namespaceDecl _ _, _
  | .moduleDecl _, _ | .fieldDecl _, _ | .propertyDecl _, _ => by
    simp only [stmt]
    exact target.clean_refuseInBody scope _

theorem clean_stmts {scope : Scope} (hplain : PlainAround env scope) (loop : Option LoopFrame) :
    ∀ ss : List Stmt, Stmt.allText target isPlain ss = true →
      (stmts env scope loop ss).Clean Code.Nested
  | [], _ => by
    rw [stmts]
    exact .pure fun _ => by simp
  | s :: ss, h => by
    rw [Stmt.allText, Bool.and_eq_true] at h
    rw [stmts]
    exact .bind (clean_stmt hplain loop s h.1) fun cs hcs =>
      .bind (clean_stmts hplain loop ss h.2) fun ds hds => .pure fun _ => by simp [hcs, hds]

theorem clean_binding {scope : Scope} (hplain : PlainAround env scope) :
    ∀ b : Binding, b.everyText target isPlain = true → (binding env scope b).Clean Fragment.Nested
  | ⟨name, type, value, mutability⟩, h => by
    rw [Binding.everyText, Bool.and_eq_true, Bool.and_eq_true] at h
    obtain ⟨⟨hname, htype⟩, hvalue⟩ := h
    rw [binding]
    refine .bind (clean_exprOption hplain value hvalue) fun o ho => ?_
    have hspelling : (type.mapM (mapType env scope)).Clean fun a => ∀ s ∈ a, NestedText s := by
      refine .optionMapM fun t ht => clean_mapType hplain.resolver ?_
      cases ht
      exact htype
    refine .bind hspelling fun spelling hspelling => .pure ?_
    exact nested_variableText (by rw [isPlain_ident]; exact hname) hspelling ho

theorem clean_forClause {scope : Scope} (hplain : PlainAround env scope) :
    ∀ start : Option Stmt, Stmt.optionText target isPlain start = true →
      (forClause env scope start).Clean Fragment.Nested
  | none, _ => by
    rw [forClause]
    exact .pure fun _ => by simp
  | some s, h => by
    rw [Stmt.optionText] at h
    cases s with
    | binding b =>
      rw [Stmt.everyText] at h
      rw [forClause]
      exact clean_binding hplain b h
    | expr value =>
      rw [Stmt.everyText] at h
      rw [forClause]
      exact clean_expr hplain value h
    | _ =>
      simp only [forClause]
      exact .reporting (.pure fun _ => by simp)

/-- The branches behind an `if` are nested blocks of their own. -/
theorem clean_elseChain {scope : Scope} (hplain : PlainAround env scope)
    (loop : Option LoopFrame) :
    ∀ branch : Option (List Stmt), Stmt.blockText target isPlain branch = true →
      (elseChain env scope loop branch).Clean Code.Nested
  | none, _ => by
    rw [elseChain]
    exact .pure fun _ => by simp
  | some [], _ => by
    simp only [elseChain, stmts, pure_bind]
    exact .pure (nested_else fun _ => by simp)
  | some [s], h => by
    rw [Stmt.blockText] at h
    have hs : (stmts env scope loop [s]).Clean Code.Nested := clean_stmts hplain loop [s] h
    -- An `if` alone continues the chain; any other statement is a block of its own.
    cases s with
    | ifThen condition thenBranch elseBranch =>
      rw [Stmt.allText, Bool.and_eq_true, Stmt.everyText, Bool.and_eq_true, Bool.and_eq_true] at h
      rw [elseChain]
      refine .bind (clean_expr hplain condition h.1.1.1) fun f hf => ?_
      refine .bind (clean_stmts hplain loop thenBranch h.1.1.2) fun cs hcs => ?_
      exact .bind (clean_elseChain hplain loop elseBranch h.1.2) fun ds hds =>
        .pure fun _ => by simp [hf, hcs, hds]
    | _ =>
      simp only [elseChain]
      exact .bind hs fun cs hcs => .pure (nested_else hcs)
  | some (s :: s' :: ss), h => by
    rw [Stmt.blockText] at h
    simp only [elseChain]
    exact .bind (clean_stmts hplain loop (s :: s' :: ss) h) fun cs hcs => .pure (nested_else hcs)

/-- The labels of a case are lines without delimiters. -/
theorem clean_caseLabels {scope : Scope} (hplain : PlainAround env scope) :
    ∀ pattern : Pattern, pattern.everyText target isPlain = true →
      (caseLabels env scope pattern).Clean Code.Nested
  | .default, _ => by
    rw [caseLabels]
    exact .pure fun _ => by simp
  | .values values, h => by
    rw [Pattern.everyText] at h
    rw [caseLabels]
    exact .bind (clean_exprs hplain values h) fun fs hfs =>
      .pure (hfs.lines fun f hf _ => by simp [hf])

theorem clean_matchCases {scope : Scope} (hplain : PlainAround env scope)
    (loop : Option LoopFrame) :
    ∀ arms : List MatchArm, MatchArm.allText target isPlain arms = true →
      (matchCases env scope loop arms).Clean Code.Nested
  | [], _ => by
    rw [matchCases]
    exact .pure fun _ => by simp
  | ⟨pattern, .expr value⟩ :: arms, h => by
    rw [MatchArm.allText, Body.everyText, Bool.and_eq_true, Bool.and_eq_true] at h
    rw [matchCases]
    refine .bind (clean_caseLabels hplain pattern h.1.1) fun ls hls => ?_
    refine .bind (clean_expr hplain value h.1.2) fun f hf => ?_
    refine .bind (clean_matchCases hplain loop arms h.2) fun ds hds => .pure ?_
    have hline := nested_effectLine (e := value) hf
    rw [Code.Nested, Code.flatAll, Code.flatAll, List.append_nil] at hline
    exact fun _ => by simp [hls, hline, hds]
  | ⟨pattern, .block block⟩ :: arms, h => by
    rw [MatchArm.allText, Body.everyText, Bool.and_eq_true, Bool.and_eq_true] at h
    rw [matchCases]
    refine .bind (clean_caseLabels hplain pattern h.1.1) fun ls hls => ?_
    refine .bind (clean_stmts hplain loop block h.1.2) fun cs hcs => ?_
    refine .bind (clean_matchCases hplain loop arms h.2) fun ds hds => .pure ?_
    have hbody := nested_caseBlock block hcs
    exact fun _ => by simp [hls, hbody, hds]

theorem clean_switchCases {scope : Scope} (hplain : PlainAround env scope)
    (loop : Option LoopFrame) :
    ∀ cases : List SwitchCase, SwitchCase.allText target isPlain cases = true →
      (switchCases env scope loop cases).Clean Code.Nested
  | [], _ => by
    rw [switchCases]
    exact .pure fun _ => by simp
  | ⟨pattern, block⟩ :: cases, h => by
    rw [SwitchCase.allText, Bool.and_eq_true, Bool.and_eq_true] at h
    rw [switchCases]
    refine .bind (clean_caseLabels hplain pattern h.1.1) fun ls hls => ?_
    refine .bind (clean_stmts hplain loop block h.1.2) fun cs hcs => ?_
    refine .bind (clean_switchCases hplain loop cases h.2) fun ds hds => .pure ?_
    have hbody := nested_caseBlock block hcs
    exact fun _ => by simp [hls, hbody, hds]

theorem clean_attributeLines {scope : Scope} (hplain : PlainAround env scope) :
    ∀ attributes : List Attribute, Attribute.allText target isPlain attributes = true →
      (attributeLines env scope attributes).Clean Code.Nested
  | [], _ => by
    rw [attributeLines]
    exact .pure fun _ => by simp
  | ⟨name, args⟩ :: attributes, h => by
    rw [Attribute.allText, Bool.and_eq_true, Bool.and_eq_true] at h
    obtain ⟨⟨hname, hargs⟩, hattributes⟩ := h
    rw [attributeLines]
    split
    · exact clean_attributeLines hplain attributes hattributes
    · refine .bind (clean_exprs hplain args hargs) fun fs hfs => ?_
      extract_lets shown
      have hjoin : Fragment.Nested (Fragment.join ", " fs) := hfs.join rfl
      have hshown : Fragment.Nested shown := by
        dsimp only [shown]
        split
        · exact fun _ => by simp
        · exact fun _ => by simp [hjoin]
      exact .bind (clean_attributeLines hplain attributes hattributes) fun ds hds =>
        .pure fun _ => by simp [hname, hshown, hds]

theorem clean_parameters {scope : Scope} (hplain : PlainAround env scope) :
    ∀ params : List Parameter, Parameter.allText target isPlain params = true →
      (parameters env scope params).Clean AllNested
  | [], _ => by
    rw [parameters]
    exact .pure nofun
  | ⟨name, type, default⟩ :: params, h => by
    rw [Parameter.allText, Bool.and_eq_true, Bool.and_eq_true, Bool.and_eq_true] at h
    obtain ⟨⟨⟨hname, htype⟩, hdefault⟩, hparams⟩ := h
    rw [parameters]
    refine .bind (clean_mapTypeOr hplain.resolver rfl htype) fun spelling hspelling => ?_
    refine .bind (clean_exprOption hplain default hdefault) fun o ho => ?_
    refine .bind (clean_parameters hplain params hparams) fun fs hfs => .pure ?_
    have hvalue : Fragment.Nested (o.elim [] (text " = " ++ ·)) := ho.elim rfl
    exact .cons (fun _ => by simp [hspelling, hname, hvalue]) hfs

/-- A function is nested if what is written ahead of its own body is, and the texts in its options
are. -/
theorem clean_function {scope : Scope} (hplain : PlainAround env scope)
    (options : FunctionOptions) (prologue : Scope → Gen (List Code))
    (hname : ∀ name ∈ options.name, isPlain name = true)
    (hreturns : ∀ returns ∈ options.returns, isPlain returns = true)
    (hprologue : ∀ scope, PlainAround env scope → (prologue scope).Clean Code.Nested) :
    ∀ decl : Function, decl.everyText target isPlain = true →
      (function env scope options prologue decl).Clean Code.Nested
  | ⟨name, params, returnType, generics, modifiers, attributes, body, isConstructor, isStatic⟩,
      h => by
    rw [function]
    refine target.clean_unlessMarked fun hmark => ?_
    obtain ⟨hown, hparams, htype, hgenerics, hattributes, hbody⟩ :=
      Function.texts_of_unmarked hmark h
    split
    · exact .reporting (.pure fun _ => by simp)
    extract_lets makeStatic inner words
    have hinner : PlainAround env inner := ⟨hplain.resolver, hplain.className⟩
    refine .bind (clean_attributeLines hinner attributes hattributes) fun ls hls => ?_
    refine .bind (clean_parameters hinner params hparams) fun fs hfs => ?_
    -- The kinds of functions differ in the text around the parameters.
    extract_lets +lift shown finish named
    have hshown : shown.Nested := hfs.join rfl
    have hwords : NestedText words := by
      dsimp only [words]
      split
      · exact Text.nested_of_isPlain rfl
      · exact nested_modifierText _ _ _ _
    have hfinish : ∀ head : Fragment, head.Nested → (finish head).Clean Code.Nested := by
      intro head hhead
      have hlast : PlainAround env { inner with
          inConstructor := scope.inConstructor || isConstructor } :=
        ⟨hplain.resolver, hplain.className⟩
      exact .bind (clean_functionBody hlast prologue hprologue hhead body hbody) fun cs hcs =>
        .pure fun _ => by simp [hls, hcs]
    have hnamed : ∀ returns, NestedText returns → (named returns).Clean Code.Nested := by
      intro returns hreturns
      refine .bind (clean_whereClauses hplain.resolver generics hgenerics) fun clauses hclauses =>
        hfinish _ ?_
      have hname : isPlain (options.name.getD name) = true := by
        cases hoption : options.name with
        | none => exact hown
        | some other => exact hname other hoption
      have hlist := nested_genericList hgenerics
      exact fun _ => by simp [hwords, hreturns, hname, hlist, hshown, hclauses]
    split
    · have hclass : isPlain (scope.className.getD name) = true := by
        cases hoption : scope.className with
        | none => exact hown
        | some other => exact hplain.className other hoption
      exact hfinish _ fun _ => by simp [hwords, hclass, hshown]
    · split
      · rename_i returns hoption
        exact hnamed returns (Text.nested_of_isPlain (hreturns returns hoption))
      · exact .bind (clean_returnSpelling hplain.resolver htype) hnamed

/-- A body is nested behind a nested head. -/
theorem clean_functionBody {scope : Scope} (hplain : PlainAround env scope)
    (prologue : Scope → Gen (List Code))
    (hprologue : ∀ scope, PlainAround env scope → (prologue scope).Clean Code.Nested)
    {head : Fragment} (hhead : head.Nested) :
    ∀ body : Option (List Stmt), Stmt.blockText target isPlain body = true →
      (functionBody env scope prologue head body).Clean Code.Nested
  | none, _ => by
    rw [functionBody]
    exact .pure fun _ => by simp [hhead]
  | some body, h => by
    rw [Stmt.blockText] at h
    rw [functionBody]
    refine .bind (hprologue scope hplain) fun cs hcs => ?_
    exact .bind (clean_stmts hplain none body h) fun ds hds =>
      .pure fun _ => by simp [hhead, hcs, hds]

end

end CSharp

end SourceGen
