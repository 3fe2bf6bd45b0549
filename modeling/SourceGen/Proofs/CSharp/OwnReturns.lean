import SourceGen.CSharp.Body
import SourceGen.Proofs.OwnReturns

/-!
# Returns in C# bodies

Which returns in a tree leave the function that is written for it. All branches, loops and cases are
written into the function, and so are the arms of a match that stands as a statement. A block or a
match that stands for a value becomes a closure or has closures in it, so nothing in an expression
leaves the function.

## Main definitions

* `CSharp.anyOwnReturn`: statements return a value from the function that they are written into.

## Main results

* `CSharp.tells_expr`: no return stands in the fragment of an expression.
* `CSharp.tells_stmts`: the code of statements returns a value where the statements do.
-/

namespace SourceGen

open Text (isNoReturn isNoReturn_of_mem)

namespace CSharp

open Fragment (text)

/-! ### Returns in a tree -/

mutual

/-- The statement returns a value from the function that it is written into. -/
def ownReturn : Stmt → Bool
  | .ret value => value.isSome
  | .ifThen _ thenBranch elseBranch => anyOwnReturn thenBranch || blockOwnReturn elseBranch
  | .whileLoop _ body | .forLoop _ _ _ body | .forEach _ _ _ body => anyOwnReturn body
  | .matchOn _ arms | .expr (.matchOn _ arms) => armsOwnReturn arms
  | .switchOn _ cases => casesOwnReturn cases
  | _ => false

/-- One of the statements returns a value from the function that they are written into. -/
def anyOwnReturn : List Stmt → Bool
  | [] => false
  | s :: ss => ownReturn s || anyOwnReturn ss

/-- The optional block returns a value from the function that it is written into. -/
def blockOwnReturn : Option (List Stmt) → Bool
  | none => false
  | some block => anyOwnReturn block

/-- One of the arms is a block that returns a value from the function. -/
def armsOwnReturn : List MatchArm → Bool
  | [] => false
  | ⟨_, .block block⟩ :: arms => anyOwnReturn block || armsOwnReturn arms
  | ⟨_, .expr _⟩ :: arms => armsOwnReturn arms

/-- One of the cases returns a value from the function. -/
def casesOwnReturn : List SwitchCase → Bool
  | [] => false
  | ⟨_, block⟩ :: cases => anyOwnReturn block || casesOwnReturn cases

end

theorem anyOwnReturn_append (ss ts : List Stmt) :
    anyOwnReturn (ss ++ ts) = (anyOwnReturn ss || anyOwnReturn ts) := by
  induction ss with
  | nil => rw [anyOwnReturn, Bool.false_or, List.nil_append]
  | cons s ss ih => rw [List.cons_append, anyOwnReturn, anyOwnReturn, ih, Bool.or_assoc]

variable {env : Env} {scope : Scope} {plain seen : Bool} {f : Fragment}

/-! ### Parts of expressions -/

/-- Escaping an identifier makes no `return` of it. -/
@[grind →] theorem isNoReturn_ident {name : String} (h : isNoReturn name = true) :
    isNoReturn (ident name) = true := by
  unfold ident
  split
  · exact isNoReturn_of_mem '@' (by simp) (by decide)
  · exact h

/-- A path of plain names does not read as a `return`. -/
theorem isNoReturn_path {parts : List String} (h : parts.all isNoReturn = true) :
    isNoReturn (path parts) = true := by
  match parts with
  | [] => decide
  | [part] =>
    rw [List.all_cons, Bool.and_eq_true] at h
    exact isNoReturn_ident h.1
  | part :: part' :: parts =>
    rw [path, List.map_cons, List.map_cons, Text.join]
    · exact isNoReturn_of_mem '.' (by simp) (by decide)
    · simp

/-- A literal does not read as a `return` unless its text does. -/
theorem isNoReturn_literal {value : Literal} (h : value.everyText isNoReturn = true) :
    isNoReturn (literal value) = true := by
  cases value with
  | number text => exact h
  | string value => exact isNoReturn_of_mem '"' (by simp [literal]) (by decide)
  | char value => exact isNoReturn_of_mem '\'' (by simp [literal]) (by decide)
  | bool value => cases value <;> decide
  | null => decide

/-- No unary operator reads as a `return`. -/
theorem isNoReturn_unaryOp (op : Token) : isNoReturn (unaryOp op) = true := by
  cases op <;> decide

/-- Parentheses where needed keep what an operand tells. -/
@[grind ←] theorem tells_grouped (e : Expr) (hf : f.Tells plain seen) :
    (grouped e f).Tells plain seen := by
  unfold grouped
  split
  · exact .parens hf.2.2
  · exact hf

@[simp, grind =] theorem anyOwnReturn_grouped (e : Expr) (f : Fragment) :
    Piece.anyOwnReturn (grouped e f) = Piece.anyOwnReturn f := by
  unfold grouped
  split
  · exact Piece.anyOwnReturn_parens f
  · rfl

@[simp, grind =] theorem anyOwnReturn_getD (o : Option Fragment) (s : String) :
    Piece.anyOwnReturn (o.getD (text s)) = o.any Piece.anyOwnReturn := by
  cases o with
  | none => exact Piece.anyOwnReturn_text s
  | some f => rfl

@[simp, grind =] theorem anyOwnReturn_getD_nil (o : Option Fragment) :
    Piece.anyOwnReturn (o.getD []) = o.any Piece.anyOwnReturn := by
  cases o with
  | none => exact Piece.anyOwnReturn_nil
  | some f => rfl

/-- A builtin call tells what its arguments tell. -/
theorem tells_builtinOrShim {fn : Builtin} {argCount : Nat} {args : Fragment}
    (hargs : Tells plain false (Piece.anyOwnReturn args)) :
    (builtinOrShim env fn argCount args).Always (Fragment.Tells plain false) := by
  have hcall : ∀ front back : String, isNoReturn front = true →
      (text front ++ args ++ text back).Tells plain false := by grind -linarith
  unfold builtinOrShim builtinCall
  split
  · exact .pure (hcall _ _ (Text.isNoReturn_call _))
  · refine .after fun _ => ?_
    cases fn with
    | print =>
      dsimp only
      split
      · exact .pure (hcall _ _ (by decide))
      · exact .pure (hcall _ _ (by decide))
    | len => exact .after fun _ => .pure (hcall _ _ (by decide))
    | _ => exact .pure (hcall _ _ (by decide))

/-- An array literal tells what its items tell. -/
theorem tells_arrayLiteral {isEmpty : Bool} {items : Fragment} {elementType : Option TypeRef}
    (hitems : Tells plain false (Piece.anyOwnReturn items)) :
    (arrayLiteral env scope isEmpty items elementType).Always (Fragment.Tells plain false) := by
  unfold arrayLiteral
  extract_lets body
  have hbody : Tells plain false (Piece.anyOwnReturn body) := by
    dsimp only [body]
    split <;> grind -linarith
  cases elementType with
  | none =>
    have hstart : isNoReturn (if isEmpty then "new object[] " else "new[] ") = true := by
      cases isEmpty <;> decide
    exact .pure (by grind -linarith)
  | some type =>
    refine .after fun spelling => .pure ?_
    have hstart := isNoReturn_of_mem (s := "new " ++ spelling ++ "[] ") 'w' (by simp) (by decide)
    grind -linarith

/-- Neither the parts of the number nor the number have a return. -/
theorem tells_rangeCount {r : Range} {start stop : Gen (Option Fragment)}
    (hstart : start.Always fun o => Tells plain false (o.any Piece.anyOwnReturn))
    (hstop : stop.Always fun o => Tells plain false (o.any Piece.anyOwnReturn)) :
    (rangeCount r start stop).Always fun f => Tells plain false (Piece.anyOwnReturn f) := by
  unfold rangeCount
  split
  · exact .pure (by grind -linarith)
  · -- The optional parts of the number are written by continuations, the last one first here.
    extract_lets +lift finish subtract count
    have hfinish : ∀ f, Tells plain false (Piece.anyOwnReturn f) →
        (finish f).Always fun f => Tells plain false (Piece.anyOwnReturn f) := by
      intro f hf
      refine .pure ?_
      split <;> grind -linarith
    have hsubtract : ∀ f, Tells plain false (Piece.anyOwnReturn f) →
        (subtract f).Always fun f => Tells plain false (Piece.anyOwnReturn f) := by
      intro f hf
      dsimp only [subtract]
      split
      · split
        · exact hfinish f hf
        · exact .bind hstart fun o ho => hfinish _ (by grind -linarith)
      · exact hfinish f hf
    have hcount : ∀ u, (count u).Always fun f => Tells plain false (Piece.anyOwnReturn f) := by
      intro u
      dsimp only [count]
      split
      · exact .bind hstop fun o ho => hsubtract _ (by grind -linarith)
      · exact hsubtract _ (by grind -linarith)
    split
    · exact .after fun u => hcount u
    · exact hcount ()

/-- A range tells what its ends tell. -/
theorem tells_indexSequence {r : Range} {start stop : Gen (Option Fragment)}
    (hstart : start.Always fun o => Tells plain false (o.any Piece.anyOwnReturn))
    (hstop : stop.Always fun o => Tells plain false (o.any Piece.anyOwnReturn)) :
    (indexSequence r start stop).Always (Fragment.Tells plain false) := by
  unfold indexSequence
  refine .after fun _ => .bind hstart fun o ho => .bind (tells_rangeCount hstart hstop)
    fun g hg => .pure ?_
  have hcall := Text.isNoReturn_of_mem (s := "Enumerable.Range(") '(' (by decide) (by decide)
  grind -linarith

/-! ### Expressions -/

mutual

/-- Unless its text reads as one, an expression has no own return: each block in it is a lambda. -/
theorem tells_expr (scope : Scope) : ∀ e : Expr,
    (expr env scope e).Always (Fragment.Tells (e.everyText target isNoReturn) false)
  | .literal value => by
    rw [Expr.everyText, expr]
    have hvalue := @isNoReturn_literal value
    exact .pure (by grind -linarith)
  | .ident name => by
    rw [Expr.everyText, expr]
    exact .pure (by grind -linarith)
  | .path parts => by
    rw [Expr.everyText, expr]
    have hparts := @isNoReturn_path parts
    exact .pure (by grind -linarith)
  | .this => by
    rw [expr]
    have hthis : isNoReturn "this" = true := by decide
    exact .pure (by grind -linarith)
  | .member object name => by
    rw [Expr.everyText, expr]
    refine .bind (tells_expr scope object) fun f hf => .pure ?_
    have hf := tells_grouped object hf
    grind -linarith
  | .index object i => by
    rw [Expr.everyText, expr]
    refine .bind (tells_expr scope object) fun f hf => .bind (tells_expr scope i) fun g hg =>
      .pure ?_
    have hf := tells_grouped object hf
    grind -linarith
  | .binary left op right => by
    rw [Expr.everyText, expr]
    refine .bind (tells_expr scope left) fun f hf => .bind (tells_expr scope right) fun g hg => ?_
    have hf := tells_grouped left hf
    split
    · have hcall : isNoReturn "Math.Pow(" = true := by decide
      exact .after fun _ => .pure (by grind -linarith)
    · exact .pure (by grind -linarith)
  | .unary op operand trailing => by
    rw [Expr.everyText, expr]
    refine .bind (tells_expr scope operand) fun f hf => .pure ?_
    have hf := tells_grouped operand hf
    have hop := isNoReturn_unaryOp op
    cases trailing <;> grind -linarith
  | .assign left op value => by
    rw [Expr.everyText, expr]
    exact .bind (tells_expr scope left) fun f hf => .bind (tells_expr scope value) fun g hg =>
      .pure (by grind -linarith)
  | .call callee args => by
    have hargs := tells_exprs scope args
    have hcallee := tells_expr scope callee
    rw [Expr.everyText]
    -- The arguments are written first.
    cases callee with
    | ident name =>
      rw [expr]
      refine .bind hargs fun fs hfs => ?_
      split
      · exact tells_builtinOrShim (by grind -linarith)
      · exact .pure (by grind -linarith)
    | path parts =>
      rw [expr]
      exact .bind hargs fun fs hfs => .pure (by grind -linarith)
    | member receiver name =>
      rw [Expr.everyText, expr]
      refine .bind hargs fun fs hfs => .bind (tells_expr scope receiver) fun f hf => .pure ?_
      have hf := tells_grouped receiver hf
      grind -linarith
    | _ =>
      simp only [expr]
      refine .bind hargs fun fs hfs => .bind hcallee fun f hf => .pure ?_
      have hgrouped := fun callee => tells_grouped callee hf
      grind -linarith
  | .construct type args => by
    rw [Expr.everyText, expr]
    exact .after fun spelling => .bind (tells_exprs scope args) fun fs hfs =>
      .pure (by grind -linarith)
  | .array elements elementType => by
    rw [Expr.everyText, expr]
    exact .bind (tells_exprs scope elements) fun fs hfs =>
      tells_arrayLiteral (by grind -linarith)
  | .lambda params (.expr value) => by
    rw [Expr.everyText, Body.everyText, expr]
    refine .after fun head => .bind (tells_expr scope value) fun f hf => .pure ?_
    have hhead := isNoReturn_of_mem (s := head ++ " => ") '=' (by simp) (by decide)
    grind -linarith
  | .lambda params (.block block) => by
    rw [Expr.everyText, Body.everyText, expr]
    refine .after fun head => .after fun cs => .pure ?_
    have hhead := isNoReturn_of_mem (s := head ++ " => ") '=' (by simp) (by decide)
    grind -linarith
  | .range start stop inclusive => by
    have hstart := tells_exprOption scope start
    have hstop := tells_exprOption scope stop
    rw [Expr.everyText, expr]
    exact tells_indexSequence (hstart.mono (by grind -linarith)) (hstop.mono (by grind -linarith))
  | .block block => by
    rw [expr]
    refine .after fun _ => .after fun cs => .pure ?_
    have hstart : isNoReturn "((Func<dynamic>)(() => " = true := by decide
    unfold invoked
    grind -linarith
  | .matchOn scrutinee arms => by
    rw [Expr.everyText, expr]
    refine .bind (tells_expr scope scrutinee) fun f hf => .bind (tells_switchArms scope arms)
      fun fs hfs => .pure ?_
    have hf := tells_grouped scrutinee hf
    grind -linarith

theorem tells_exprs (scope : Scope) : ∀ es : List Expr, (exprs env scope es).Always fun fs =>
    Tells (Expr.allText target isNoReturn es) false (Piece.armsOwnReturn fs)
  | [] => by
    rw [exprs]
    exact .pure (by grind -linarith)
  | e :: es => by
    rw [Expr.allText, exprs]
    exact .bind (tells_expr scope e) fun f hf => .bind (tells_exprs scope es) fun fs hfs =>
      .pure (by grind -linarith)

theorem tells_exprOption (scope : Scope) : ∀ e : Option Expr,
    (exprOption env scope e).Always fun o =>
      Tells (Expr.optionText target isNoReturn e) false (o.any Piece.anyOwnReturn)
  | none => by
    rw [exprOption]
    exact .pure (by grind -linarith)
  | some e => by
    rw [Expr.optionText, exprOption]
    exact .bind (tells_expr scope e) fun f hf => .pure hf.2.2

theorem tells_switchArms (scope : Scope) : ∀ arms : List MatchArm,
    (switchArms env scope arms).Always fun fs =>
      Tells (MatchArm.allText target isNoReturn arms) false (Piece.armsOwnReturn fs)
  | [] => by
    rw [switchArms]
    exact .pure (by grind -linarith)
  | ⟨pattern, .expr value⟩ :: arms => by
    rw [MatchArm.allText, Body.everyText, switchArms]
    exact .bind (tells_armSelector scope pattern) fun f hf => .bind (tells_expr scope value)
      fun g hg => .bind (tells_switchArms scope arms) fun fs hfs => .pure (by grind -linarith)
  | ⟨pattern, .block block⟩ :: arms => by
    rw [MatchArm.allText, switchArms]
    refine .bind (tells_armSelector scope pattern) fun f hf => .after fun _ => .after fun cs =>
      .bind (tells_switchArms scope arms) fun fs hfs => .pure ?_
    unfold invoked
    grind -linarith

theorem tells_armSelector (scope : Scope) : ∀ pattern : Pattern,
    (armSelector env scope pattern).Always fun f =>
      Tells (pattern.everyText target isNoReturn) false (Piece.anyOwnReturn f)
  | .default => by
    rw [armSelector]
    exact .pure (by grind -linarith)
  | .values values => by
    rw [Pattern.everyText, armSelector]
    exact .bind (tells_exprs scope values) fun fs hfs => .pure (by grind -linarith)

end

/-! ### Functions inside bodies -/

/-- Attributes have no own returns. -/
theorem tells_attributeLines (attributes : List Attribute) :
    (attributeLines env scope attributes).Always fun cs =>
      Tells (Attribute.allText target isNoReturn attributes) false (Code.anyOwnReturn cs) := by
  induction attributes with
  | nil =>
    rw [attributeLines]
    exact .pure (by grind -linarith)
  | cons a attributes ih =>
    obtain ⟨name, args⟩ := a
    rw [Attribute.allText, attributeLines]
    split
    · exact ih.mono (by grind -linarith)
    · refine .bind (tells_exprs scope args) fun fs hfs => .bind ih fun cs hcs => .pure ?_
      have hstart := isNoReturn_of_mem (s := "[" ++ name) '[' (by simp) (by decide)
      have hline : ∀ shown : Fragment, (text ("[" ++ name) ++ shown ++ text "]").isReturn = false :=
        fun shown => by rw [Fragment.isReturn]; grind -linarith
      split <;> grind -linarith

theorem tells_parameters (params : List Parameter) :
    (parameters env scope params).Always fun fs =>
      Tells (Parameter.allText target isNoReturn params) false (Piece.armsOwnReturn fs) := by
  induction params with
  | nil =>
    rw [parameters]
    exact .pure (by grind -linarith)
  | cons param params ih =>
    obtain ⟨name, type, default⟩ := param
    rw [Parameter.allText, parameters]
    exact .after fun spelling => .bind (tells_exprOption scope default) fun o ho =>
      .bind ih fun fs hfs => .pure (by grind -linarith)

/-- Nothing in a function leaves the function around it. -/
theorem tells_function {options : FunctionOptions} {prologue : Scope → Gen (List Code)}
    (decl : Function) : (function env scope options prologue decl).Always fun cs =>
      Tells (decl.everyText target isNoReturn) false (Code.anyOwnReturn cs) := by
  obtain ⟨name, params, returnType, generics, modifiers, attributes, body, isConstructor,
    isStatic⟩ := decl
  rw [Function.everyText, function]
  refine .bind (target.always_skipMarked _ _ _) fun marked hmarked => ?_
  rw [← hmarked]
  split
  · exact .pure (by grind -linarith)
  split
  · exact .after fun _ => .pure (by grind -linarith)
  extract_lets makeStatic inner words
  refine .bind (tells_attributeLines attributes) fun ls hls =>
    .bind (tells_parameters params) fun ps hps => ?_
  -- The kinds of functions differ in their heads, but each starts with a text up to a bracket.
  extract_lets +lift shown finish named
  have hfinish : ∀ front back : String, (finish (text (front ++ "(") ++ shown ++ text back)).Always
      fun cs => Tells (Attribute.allText target isNoReturn attributes &&
        Parameter.allText target isNoReturn params) false (Code.anyOwnReturn cs) := by
    intro front back
    dsimp only [finish]
    cases body with
    | none =>
      have hline : (text (front ++ "(") ++ shown ++ text back ++ text ";").isReturn = false := by
        rw [Fragment.isReturn]
        grind -linarith
      rw [functionBody, pure_bind]
      exact .pure (by grind -linarith)
    | some body =>
      rw [functionBody, bind_assoc]
      refine .after fun before => ?_
      rw [bind_assoc]
      exact .after fun own => .pure (by grind -linarith)
  have hnamed : ∀ returns, (named returns).Always fun cs =>
      Tells (Attribute.allText target isNoReturn attributes &&
        Parameter.allText target isNoReturn params) false (Code.anyOwnReturn cs) :=
    fun _ => .after fun _ => hfinish _ _
  refine Gen.Always.mono (P := fun cs => Tells (Attribute.allText target isNoReturn attributes &&
    Parameter.allText target isNoReturn params) false (Code.anyOwnReturn cs)) ?_
      (by grind -linarith)
  split
  · exact hfinish _ _
  · split
    · exact hnamed _
    · exact .after fun _ => hnamed _

/-! ### Parts of statements -/

@[simp, grind =] theorem anyOwnReturn_loopCode (number : Nat) (header : Fragment)
    (body : List Code) : Code.anyOwnReturn (loopCode number header body) =
      (Piece.anyOwnReturn header || Code.anyOwnReturn body) := by
  unfold loopCode
  split <;> simp

/-- An expression statement adds no own return. -/
theorem tells_effectLine (e : Expr) (hf : f.Tells plain false) {cs : List Code}
    (hcs : Tells plain seen (Code.anyOwnReturn cs)) :
    Tells plain seen (Code.anyOwnReturn (effectLine e f :: cs)) := by
  unfold effectLine
  split
  · have hline := hf.isReturn_line
    grind -linarith
  · have hstart : isNoReturn "_ = " = true := by decide
    have hline := (show (text "_ = " ++ f).Tells plain false by grind -linarith).isReturn_line
    grind -linarith

/-- A case has the own returns of its block. -/
theorem tells_caseBlock (block : List Stmt) {code : List Code}
    (h : Tells plain seen (Code.anyOwnReturn code)) :
    Tells plain seen (Code.anyOwnReturn (caseBlock block code)) := by
  unfold caseBlock
  extract_lets closed
  have hclosed : Code.anyOwnReturn closed = Code.anyOwnReturn code := by
    dsimp only [closed]
    split <;> simp
  split <;> simpa [hclosed] using h

theorem tells_labels {fs : List Fragment} (h : Tells plain false (Piece.armsOwnReturn fs)) :
    Tells plain false
      (Code.anyOwnReturn (fs.map fun v => .line (text "case " ++ v ++ text ":"))) := by
  induction fs with
  | nil => exact h
  | cons f fs ih =>
    have ih := ih (by grind -linarith)
    have hstart : isNoReturn "case " = true := by decide
    have hline : (text "case " ++ f ++ text ":").isReturn = false := by
      rw [Fragment.isReturn]
      grind -linarith
    rw [List.map_cons, Code.anyOwnReturn_line, hline]
    grind -linarith

/-- The labels of a case have no own returns. -/
theorem tells_caseLabels (pattern : Pattern) :
    (caseLabels env scope pattern).Always fun cs =>
      Tells (pattern.everyText target isNoReturn) false (Code.anyOwnReturn cs) := by
  cases pattern with
  | default =>
    rw [caseLabels]
    exact .pure (by grind -linarith)
  | values values =>
    rw [Pattern.everyText, caseLabels]
    exact .bind (tells_exprs scope values) fun fs hfs => .pure (tells_labels hfs)

/-- A variable is no return: its type and its name together may be the word, but nothing follows
them. -/
theorem tells_binding (b : Binding) : (binding env scope b).Always fun f =>
    (f ++ text ";").isReturn = false ∧
      Tells (b.everyText target isNoReturn) false (Piece.anyOwnReturn f) := by
  obtain ⟨name, type, value, mutability⟩ := b
  rw [Binding.everyText, binding]
  refine .bind (tells_exprOption scope value) fun o ho => .after fun spelling => .pure ?_
  have hassigned : ∀ (front : String) (f : Fragment),
      (text (front ++ " = ") ++ f ++ text ";").isReturn = false := by
    intro front f
    have hstart := isNoReturn_of_mem (s := front ++ " = ") '=' (by simp) (by decide)
    rw [Fragment.isReturn]
    grind -linarith
  have hshort : ∀ s : String, (text s ++ text ";").isReturn = false := by
    simp [Fragment.isReturn, text]
  cases o with
  | none =>
    cases spelling <;> exact ⟨hshort _, by simp only [variableText]; grind -linarith⟩
  | some f =>
    rw [Option.any_some] at ho
    cases spelling <;> exact ⟨hassigned _ f, by simp only [variableText]; grind -linarith⟩

theorem tells_forClause (start : Option Stmt) : (forClause env scope start).Always fun f =>
    Tells (Stmt.optionText target isNoReturn start) false (Piece.anyOwnReturn f) := by
  cases start with
  | none =>
    rw [forClause]
    exact .pure (by grind -linarith)
  | some s =>
    rw [Stmt.optionText]
    cases s with
    | binding b =>
      rw [Stmt.everyText, forClause]
      exact (tells_binding b).mono fun f hf => hf.2
    | expr value =>
      rw [Stmt.everyText, forClause]
      exact (tells_expr scope value).mono fun f hf => hf.2.2
    | _ =>
      simp only [forClause]
      exact .after fun _ => .pure (by grind -linarith)

/-! ### Statements -/

mutual

/-- A written statement has an own return exactly where the scan of its syntax finds one. -/
theorem tells_stmt (scope : Scope) (loop : Option LoopFrame) : ∀ s : Stmt,
    (stmt env scope loop s).Always fun cs =>
      Tells (s.everyText target isNoReturn) (ownReturn s) (Code.anyOwnReturn cs)
  | .binding b => by
    rw [Stmt.everyText, stmt]
    simp only [ownReturn]
    exact .bind (tells_binding b) fun f hf => .pure (by grind -linarith)
  | .ifThen condition thenBranch elseBranch => by
    rw [Stmt.everyText, ownReturn, stmt]
    exact .bind (tells_expr scope condition) fun f hf =>
      .bind (tells_stmts scope loop thenBranch) fun cs hcs =>
        .bind (tells_elseChain scope loop elseBranch) fun ds hds => .pure (by grind -linarith)
  | .whileLoop condition body => by
    rw [Stmt.everyText, ownReturn, stmt]
    exact .bind (tells_expr scope condition) fun f hf => .after fun _ =>
      .bind (tells_stmts scope _ body) fun cs hcs => .pure (by grind -linarith)
  | .forLoop start condition step body => by
    rw [Stmt.everyText, ownReturn, stmt]
    exact .bind (tells_forClause start) fun f hf =>
      .bind (tells_exprOption scope condition) fun c hc =>
        .bind (tells_exprOption scope step) fun o ho => .after fun _ =>
          .bind (tells_stmts scope _ body) fun cs hcs => .pure (by grind -linarith)
  | .forEach name type iterable body => by
    have hiterable := @tells_expr env scope iterable
    -- The header depends on what is iterated, the rest of the loop does not.
    have hloop : ∀ header : Fragment,
        Tells (iterable.everyText target isNoReturn) false (Piece.anyOwnReturn header) →
        (do
          let number ← Gen.freshLabel
          return loopCode number header (← stmts env scope (some ⟨number, false⟩) body) :
            Gen (List Code)).Always fun cs =>
              Tells ((Stmt.forEach name type iterable body).everyText target isNoReturn)
                (anyOwnReturn body) (Code.anyOwnReturn cs) := by
      intro header hheader
      rw [Stmt.everyText]
      exact .after fun _ => .bind (tells_stmts scope _ body) fun cs hcs =>
        .pure (by grind -linarith)
    rw [ownReturn]
    cases iterable with
    | range start stop inclusive =>
      have hstart := @tells_exprOption env scope start
      have hstop := @tells_exprOption env scope stop
      rw [stmt]
      rw [Expr.everyText] at hloop
      refine .after fun _ => ?_
      cases stop with
      | none => exact .bind hstart fun o ho => hloop _ (by grind -linarith)
      | some stop =>
        have hsequence := @tells_indexSequence (Expr.optionText target isNoReturn start &&
            Expr.optionText target isNoReturn (some stop)) ⟨start, some stop, inclusive⟩ _ _
          (hstart.mono (by grind -linarith)) (hstop.mono (by grind -linarith))
        exact .bind hsequence fun f hf => hloop _ (by grind -linarith)
    | _ =>
      simp only [stmt]
      exact .after fun _ => .bind hiterable fun f hf => hloop _ (by grind -linarith)
  | .ret none => by
    rw [ownReturn, stmt]
    exact .pure (by grind -linarith)
  | .ret (some value) => by
    rw [ownReturn, stmt]
    refine .bind (tells_expr scope value) fun f hf => .pure ?_
    rw [Code.anyOwnReturn_return hf.1]
    grind -linarith
  | .breakLoop | .continueLoop => by
    rw [stmt]
    exact .pure (by grind -linarith [ownReturn])
  | .matchOn scrutinee arms => by
    rw [Stmt.everyText, ownReturn, stmt]
    exact .bind (tells_expr scope scrutinee) fun f hf =>
      .bind (tells_matchCases scope _ arms) fun cs hcs => .pure (by grind -linarith)
  | .switchOn subject cases => by
    rw [Stmt.everyText, ownReturn, stmt]
    exact .bind (tells_expr scope subject) fun f hf =>
      .bind (tells_switchCases scope _ cases) fun cs hcs => .pure (by grind -linarith)
  | .expr value => by
    have hvalue := @tells_expr env scope value
    rw [Stmt.everyText]
    cases value with
    | matchOn scrutinee arms =>
      rw [Expr.everyText, ownReturn, stmt]
      exact .bind (tells_expr scope scrutinee) fun f hf =>
        .bind (tells_matchCases scope _ arms) fun cs hcs => .pure (by grind -linarith)
    | _ =>
      simp only [ownReturn, stmt]
      exact .bind hvalue fun f hf => .pure (tells_effectLine _ hf (by grind -linarith))
  | .functionDecl _ decl => by
    rw [Stmt.everyText, stmt]
    simp only [ownReturn]
    exact .bind (tells_function decl) fun cs hcs => .pure (by grind -linarith)
  | .raw block => by
    simp only [ownReturn, stmt]
    exact (anyOwnReturn_rawCode _ block).mono (by grind -linarith)
  | .typeDecl _ _ | .enumDecl _ => by
    rw [stmt]
    exact Gen.Always.fail _
  | .importDecl _ | .includeDecl _ _ | .aliasDecl _ | .namespaceDecl _ _ | .moduleDecl _
  | .fieldDecl _ | .propertyDecl _ => by
    simp only [ownReturn, stmt]
    exact .after fun _ => .pure (by grind -linarith)

/-- The same of a block. -/
theorem tells_stmts (scope : Scope) (loop : Option LoopFrame) : ∀ ss : List Stmt,
    (stmts env scope loop ss).Always fun cs =>
      Tells (Stmt.allText target isNoReturn ss) (anyOwnReturn ss) (Code.anyOwnReturn cs)
  | [] => by
    rw [anyOwnReturn, stmts]
    exact .pure (by grind -linarith)
  | s :: ss => by
    rw [Stmt.allText, anyOwnReturn, stmts]
    exact .bind (tells_stmt scope loop s) fun cs hcs => .bind (tells_stmts scope loop ss)
      fun ds hds => .pure (by grind -linarith)

/-- The same of the branches behind an `if`. -/
theorem tells_elseChain (scope : Scope) (loop : Option LoopFrame) :
    ∀ branch : Option (List Stmt), (elseChain env scope loop branch).Always fun cs =>
      Tells (Stmt.blockText target isNoReturn branch) (blockOwnReturn branch)
        (Code.anyOwnReturn cs)
  | none => by
    rw [blockOwnReturn, elseChain]
    exact .pure (by grind -linarith)
  | some [] => by
    simp only [blockOwnReturn, anyOwnReturn, elseChain, stmts, pure_bind]
    exact .pure (by grind -linarith)
  | some [s] => by
    have hs := tells_stmts scope loop [s]
    rw [Stmt.blockText, blockOwnReturn]
    cases s with
    | ifThen condition thenBranch elseBranch =>
      simp only [Stmt.allText, Stmt.everyText, anyOwnReturn, ownReturn, elseChain]
      exact .bind (tells_expr scope condition) fun f hf =>
        .bind (tells_stmts scope loop thenBranch) fun cs hcs =>
          .bind (tells_elseChain scope loop elseBranch) fun ds hds => .pure (by grind -linarith)
    | _ =>
      simp only [elseChain]
      exact .bind hs fun cs hcs => .pure (by grind -linarith)
  | some (s :: s' :: ss) => by
    rw [Stmt.blockText, blockOwnReturn]
    simp only [elseChain]
    exact .bind (tells_stmts scope loop (s :: s' :: ss)) fun cs hcs => .pure (by grind -linarith)

/-- The same of the arms of a match statement. -/
theorem tells_matchCases (scope : Scope) (loop : Option LoopFrame) : ∀ arms : List MatchArm,
    (matchCases env scope loop arms).Always fun cs =>
      Tells (MatchArm.allText target isNoReturn arms) (armsOwnReturn arms) (Code.anyOwnReturn cs)
  | [] => by
    rw [armsOwnReturn, matchCases]
    exact .pure (by grind -linarith)
  | ⟨pattern, .expr value⟩ :: arms => by
    rw [MatchArm.allText, Body.everyText, armsOwnReturn, matchCases]
    refine .bind (tells_caseLabels pattern) fun ls hls => .bind (tells_expr scope value)
      fun f hf => .bind (tells_matchCases scope loop arms) fun cs hcs => .pure ?_
    have hend : Tells (value.everyText target isNoReturn) false
        (Code.anyOwnReturn [.jump .endCase]) := by grind -linarith
    have hline := tells_effectLine value hf hend
    grind -linarith
  | ⟨pattern, .block block⟩ :: arms => by
    rw [MatchArm.allText, Body.everyText, armsOwnReturn, matchCases]
    refine .bind (tells_caseLabels pattern) fun ls hls => .bind (tells_stmts scope loop block)
      fun cs hcs => .bind (tells_matchCases scope loop arms) fun ds hds => .pure ?_
    have hblock := tells_caseBlock block hcs
    grind -linarith

/-- The same of the cases of a switch. -/
theorem tells_switchCases (scope : Scope) (loop : Option LoopFrame) : ∀ cases : List SwitchCase,
    (switchCases env scope loop cases).Always fun cs =>
      Tells (SwitchCase.allText target isNoReturn cases) (casesOwnReturn cases)
        (Code.anyOwnReturn cs)
  | [] => by
    rw [casesOwnReturn, switchCases]
    exact .pure (by grind -linarith)
  | ⟨pattern, block⟩ :: cases => by
    rw [SwitchCase.allText, casesOwnReturn, switchCases]
    refine .bind (tells_caseLabels pattern) fun ls hls => .bind (tells_stmts scope loop block)
      fun cs hcs => .bind (tells_switchCases scope loop cases) fun ds hds => .pure ?_
    have hblock := tells_caseBlock block hcs
    grind -linarith

end

end CSharp

end SourceGen
