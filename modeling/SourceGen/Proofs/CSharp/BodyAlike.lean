import SourceGen.CSharp.Body
import SourceGen.Proofs.Alike

/-!
# Runs over C# bodies

Whether the generator fails on an expression, a statement or a function is decided by the events in
it, and the imports that it requires are the same in every run. First come the parts that have no
statements or expressions of their own to write, then one induction over the tree.

## Main results

* `CSharp.alike_expr`: runs over an expression.
* `CSharp.alike_stmts`: runs over statements.
* `CSharp.alike_function`: runs over a function.
-/

namespace SourceGen

/-- An integer literal has no events. -/
theorem Expr.events_of_integer {defaults : Bool} {e : Expr} (h : e.integer?.isSome = true) :
    e.events defaults = [] := by
  fun_induction Expr.integer? e with
  | case1 text => rw [Expr.events]
  | case2 operand ih =>
    rw [Expr.events]
    refine ih ?_
    cases hn : operand.integer? with
    | none => simp [hn] at h
    | some n => rfl
  | case3 => cases h

/-- Literal bounds have no events. -/
theorem Range.events_of_hasLiteralBounds (defaults : Bool) {r : Range}
    (h : r.hasLiteralBounds = true) :
    Expr.optionEvents defaults r.start = [] ∧ Expr.optionEvents defaults r.stop = [] := by
  obtain ⟨start, stop, inclusive⟩ := r
  rw [hasLiteralBounds, Bool.and_eq_true] at h
  constructor
  · cases start with
    | none => rw [Expr.optionEvents]
    | some e =>
      rw [Expr.optionEvents]
      exact Expr.events_of_integer h.1
  · cases stop with
    | none => rw [Expr.optionEvents]
    | some e =>
      rw [Expr.optionEvents]
      exact Expr.events_of_integer h.2

/-- Only a range with literal bounds is counted. -/
theorem Range.hasLiteralBounds_of_count {r : Range} {n : Int} (h : r.count? = some n) :
    r.hasLiteralBounds = true := by
  simp only [count?, Option.bind_eq_bind, Option.bind_eq_some_iff] at h
  obtain ⟨first, hfirst, e, he, last, hlast, -⟩ := h
  simp [hasLiteralBounds, hfirst, he, hlast]

namespace CSharp

variable {env : Env} {scope : Scope}

/-! ### Types -/

mutual

theorem alike_mapNormal :
    ∀ type : TypeRef, Gen.Alike target [] (mapNormal env scope type) (mapNormal env scope type)
  | ⟨name, args⟩ => by
    rw [mapNormal]
    split
    · exact .pure _ _
    · exact .pure _ _
    · refine .after (alike_mapNormalAll args) fun _ _ => ?_
      split
      · exact .after (.requireImport _) fun _ _ => .pure _ _
      · exact .pure _ _
    · exact (alike_mapNormalAll args).map _ _
    · exact (alike_mapNormalAll args).map _ _
    · split
      · exact (alike_mapNormalAll args).map _ _
      · exact .after (.note rfl rfl rfl) fun _ _ => .pure _ _

theorem alike_mapNormalAll :
    ∀ types : List TypeRef,
      Gen.Alike target [] (mapNormalAll env scope types) (mapNormalAll env scope types)
  | [] => by
    rw [mapNormalAll]
    exact .pure _ _
  | t :: ts => by
    rw [mapNormalAll]
    exact .after (alike_mapNormal t) fun _ _ => (alike_mapNormalAll ts).map _ _

end

/-- Mapping a type is no event. -/
theorem alike_mapType (type : TypeRef) :
    Gen.Alike target [] (mapType env scope type) (mapType env scope type) :=
  alike_mapNormal type.normalize

theorem alike_mapTypeOr (fallback : String) (type : Option TypeRef) :
    Gen.Alike target [] (mapTypeOr env scope fallback type)
      (mapTypeOr env scope fallback type) := by
  cases type with
  | none => exact .pure _ _
  | some type => exact alike_mapType type

theorem alike_mapTypes (types : List TypeRef) :
    Gen.Alike target [] (mapTypes env scope types) (mapTypes env scope types) :=
  .mapM fun type _ => alike_mapType type

/-! ### Parts of expressions -/

/-- A builtin call is no event, whatever its arguments are. -/
theorem alike_builtinOrShim (fn : Builtin) (argCount : Nat) (args args' : Fragment) :
    Gen.Alike target [] (builtinOrShim env fn argCount args)
      (builtinOrShim env fn argCount args') := by
  unfold builtinOrShim
  split
  · exact .pure _ _
  · refine .after (.requireImport _) fun _ _ => ?_
    cases fn with
    | print =>
      dsimp only
      split
      · exact .pure _ _
      · exact .pure _ _
    | len => exact .after (.requireImport _) fun _ _ => .pure _ _
    | str | abs | min | max | sqrt => exact .pure _ _

theorem alike_arrayLiteral (isEmpty : Bool) (items items' : Fragment)
    (elementType : Option TypeRef) :
    Gen.Alike target [] (arrayLiteral env scope isEmpty items elementType)
      (arrayLiteral env scope isEmpty items' elementType) := by
  unfold arrayLiteral
  cases elementType with
  | none => exact .pure _ _
  | some type => exact (alike_mapType type).map _ _

theorem alike_lambdaHead (params : List Parameter) :
    Gen.Alike target [] (lambdaHead env scope params) (lambdaHead env scope params) := by
  unfold lambdaHead
  split
  · refine .after (.mapM fun p _ => ?_) fun _ _ => .pure _ _
    exact (alike_mapTypeOr untyped p.type).map _ _
  · split
    · exact .pure _ _
    · exact .pure _ _

section Range

open SourceGen.Expr (optionEvents)

variable {r : Range} {start stop : Gen (Option Fragment)}
  (hstart : Gen.Alike target (optionEvents true r.start) start start)
  (hstop : Gen.Alike target (optionEvents true r.stop) stop stop)

include hstart hstop

/-- A count that is written as a number has literal bounds, and these have no events. -/
theorem alike_rangeCount :
    Gen.Alike target (optionEvents true r.stop ++ optionEvents true r.start)
      (rangeCount r start stop) (rangeCount r start stop) := by
  unfold rangeCount
  split
  · rename_i count hcount
    obtain ⟨hcount, -⟩ := Option.filter_eq_some_iff.mp hcount
    obtain ⟨hfirst, hlast⟩ :=
      Range.events_of_hasLiteralBounds true (Range.hasLiteralBounds_of_count hcount)
    rw [hfirst, hlast]
    exact .pure _ _
  · -- The optional parts of the number are written by continuations, the last one first here.
    extract_lets +lift finish subtract count
    have hfinish : ∀ f f', Gen.Alike target [] (finish f) (finish f') :=
      fun _ _ => .pure _ _
    have hsubtract : ∀ f f',
        Gen.Alike target (optionEvents true r.start) (subtract f) (subtract f') := by
      intro f f'
      dsimp only [subtract]
      split
      · rename_i e he
        split
        · rename_i hzero
          rw [he, optionEvents, Expr.events_of_integer (by simp [eq_of_beq hzero])]
          exact hfinish f f'
        · rw [← List.append_nil (optionEvents true r.start)]
          exact .bind hstart fun _ _ => hfinish _ _
      · rename_i hnone
        rw [hnone, optionEvents]
        exact hfinish f f'
    have hcount : ∀ u u', Gen.Alike target (optionEvents true r.stop ++ optionEvents true r.start)
        (count u) (count u') := by
      intro u u'
      dsimp only [count]
      split
      · exact .bind hstop fun _ _ => hsubtract _ _
      · rename_i hnone
        rw [hnone, optionEvents]
        exact hsubtract _ _
    split
    · have hreport : ∀ name, ¬ rangeTooLong.SkipsRaw name :=
        Diagnostic.not_skipsRaw String.empty_append.symm rfl
      exact .after (.report hreport hreport) fun u u' => hcount u u'
    · exact hcount () ()

/-- A range has the events of its ends. -/
theorem alike_indexSequence :
    Gen.Alike target (optionEvents true r.start ++ optionEvents true r.stop)
      (indexSequence r start stop) (indexSequence r start stop) := by
  unfold indexSequence
  refine .after (.requireImport _) fun _ _ => ?_
  refine (Gen.Alike.bind hstart fun _ _ => (alike_rangeCount hstart hstop).map _ _).congr
    fun event => ?_
  grind

end Range

/-! ### Parts of functions -/

theorem alike_whereClauses (generics : List GenericParam) :
    Gen.Alike target [] (whereClauses env scope generics) (whereClauses env scope generics) := by
  induction generics with
  | nil => exact .pure _ _
  | cons g gs ih =>
    rw [whereClauses]
    split
    · exact ih
    · exact .after (alike_mapTypes g.constraints) fun _ _ => ih.map _ _

theorem alike_returnSpelling (declared : Option TypeRef) (body : Option (List Stmt)) :
    Gen.Alike target [] (returnSpelling env scope declared body)
      (returnSpelling env scope declared body) := by
  cases declared with
  | none => exact .pure _ _
  | some type => exact alike_mapType type

/-! ### The induction over the tree -/

mutual

/-- An expression has the events read off its syntax, by induction on it. -/
theorem alike_expr (scope : Scope) :
    ∀ e : Expr, Gen.Alike target (e.events true) (expr env scope e) (expr env scope e)
  | .literal _ | .ident _ | .path _ | .this => by
    rw [Expr.events, expr]
    exact .pure _ _
  | .member object _ => by
    rw [Expr.events, expr]
    exact (alike_expr scope object).map _ _
  | .index object i => by
    rw [Expr.events, expr]
    exact .bind (alike_expr scope object) fun _ _ => (alike_expr scope i).map _ _
  | .binary left op right => by
    rw [Expr.events, expr, ← List.append_nil (right.events true)]
    refine .bind (alike_expr scope left) fun _ _ => .bind (alike_expr scope right) fun _ _ => ?_
    split
    · exact .after (.requireImport _) fun _ _ => .pure _ _
    · exact .pure _ _
  | .unary _ operand _ => by
    rw [Expr.events, expr]
    exact (alike_expr scope operand).map _ _
  | .assign left _ value => by
    rw [Expr.events, expr]
    exact .bind (alike_expr scope left) fun _ _ => (alike_expr scope value).map _ _
  | .call callee args => by
    have hargs := alike_exprs scope args
    have hcallee := alike_expr scope callee
    rw [Expr.events]
    -- The arguments are written first.
    cases callee with
    | ident name =>
      rw [Expr.events, expr]
      refine .swap hargs fun _ _ => ?_
      split
      · exact alike_builtinOrShim _ _ _ _
      · exact .pure _ _
    | path parts =>
      rw [Expr.events, expr]
      exact .swap hargs fun _ _ => .pure _ _
    | member receiver name =>
      rw [Expr.events, expr]
      exact .swap hargs fun _ _ => (alike_expr scope receiver).map _ _
    | _ =>
      simp only [expr]
      exact .swap hargs fun _ _ => hcallee.map _ _
  | .construct type args => by
    rw [Expr.events, expr]
    exact .after (alike_mapType type) fun _ _ => (alike_exprs scope args).map _ _
  | .array elements elementType => by
    rw [Expr.events, expr, ← List.append_nil (Expr.allEvents true elements)]
    exact .bind (alike_exprs scope elements) fun _ _ => alike_arrayLiteral _ _ _ _
  | .lambda params (.expr value) => by
    rw [Expr.events, Body.events, expr]
    exact .after (alike_lambdaHead params) fun _ _ => (alike_expr scope value).hide.map _ _
  | .lambda params (.block block) => by
    rw [Expr.events, Body.events, expr]
    exact .after (alike_lambdaHead params) fun _ _ =>
      (alike_stmts scope none none block).hide.map _ _
  | .range start stop inclusive => by
    rw [Expr.events, expr]
    have hstart := alike_exprOption scope start
    have hstop := alike_exprOption scope stop
    exact alike_indexSequence (r := ⟨start, stop, inclusive⟩) hstart hstop
  | .block block => by
    rw [Expr.events, expr]
    exact .after (.requireImport _) fun _ _ => (alike_valueBlock scope block).hide.map _ _
  | .matchOn scrutinee arms => by
    rw [Expr.events, expr]
    exact .bind (alike_expr scope scrutinee) fun _ _ => (alike_switchArms scope arms).hide.map _ _

theorem alike_exprs (scope : Scope) :
    ∀ es : List Expr,
      Gen.Alike target (Expr.allEvents true es) (exprs env scope es) (exprs env scope es)
  | [] => by
    rw [Expr.allEvents, exprs]
    exact .pure _ _
  | e :: es => by
    rw [Expr.allEvents, exprs]
    exact .bind (alike_expr scope e) fun _ _ => (alike_exprs scope es).map _ _

theorem alike_exprOption (scope : Scope) :
    ∀ e : Option Expr,
      Gen.Alike target (Expr.optionEvents true e) (exprOption env scope e) (exprOption env scope e)
  | none => by
    rw [Expr.optionEvents, exprOption]
    exact .pure _ _
  | some e => by
    rw [Expr.optionEvents, exprOption]
    exact (alike_expr scope e).map _ _

/-- The same of a block that is a value. -/
theorem alike_valueBlock (scope : Scope) :
    ∀ block : List Stmt,
      Gen.Alike target (Stmt.allEvents true block) (valueBlock env scope block)
        (valueBlock env scope block)
  | [] => by
    rw [Stmt.allEvents, valueBlock]
    exact .pure _ _
  | [s] => by
    have hs := alike_stmt scope none none s
    rw [Stmt.allEvents, Stmt.allEvents, List.append_nil]
    cases s with
    | expr value =>
      rw [Stmt.events, valueBlock]
      exact (alike_expr scope value).map _ _
    | _ =>
      simp only [valueBlock]
      exact hs.map _ _
  | s :: s' :: ss => by
    rw [Stmt.allEvents]
    simp only [valueBlock]
    exact .bind (alike_stmt scope none none s) fun _ _ =>
      (alike_valueBlock scope (s' :: ss)).map _ _

theorem alike_switchArms (scope : Scope) :
    ∀ arms : List MatchArm,
      Gen.Alike target (MatchArm.allEvents true arms) (switchArms env scope arms)
        (switchArms env scope arms)
  | [] => by
    rw [MatchArm.allEvents, switchArms]
    exact .pure _ _
  | ⟨pattern, .expr value⟩ :: arms => by
    rw [MatchArm.allEvents, Body.events, switchArms]
    refine .bind (alike_armSelector scope pattern) fun _ _ => ?_
    exact .bind (alike_expr scope value) fun _ _ => (alike_switchArms scope arms).map _ _
  | ⟨pattern, .block block⟩ :: arms => by
    rw [MatchArm.allEvents, Body.events, switchArms]
    refine .bind (alike_armSelector scope pattern) fun _ _ => ?_
    refine .after (.requireImport _) fun _ _ => ?_
    exact .bind (alike_stmts scope none none block) fun _ _ => (alike_switchArms scope arms).map _ _

theorem alike_armSelector (scope : Scope) :
    ∀ pattern : Pattern,
      Gen.Alike target (pattern.events true) (armSelector env scope pattern)
        (armSelector env scope pattern)
  | .default => by
    rw [Pattern.events, armSelector]
    exact .pure _ _
  | .values values => by
    rw [Pattern.events, armSelector]
    exact (alike_exprs scope values).map _ _

/-- A statement has the events read off its syntax, in any loop. -/
theorem alike_stmt (scope : Scope) (loop loop' : Option LoopFrame) :
    ∀ s : Stmt, Gen.Alike target (s.events true) (stmt env scope loop s) (stmt env scope loop' s)
  | .binding b => by
    rw [Stmt.events, stmt, stmt]
    exact (alike_binding scope b).map _ _
  | .ifThen condition thenBranch elseBranch => by
    rw [Stmt.events, stmt, stmt]
    refine .bind (alike_expr scope condition) fun _ _ => ?_
    refine .bind (alike_stmts scope loop loop' thenBranch) fun _ _ => ?_
    exact (alike_elseChain scope loop loop' elseBranch).map _ _
  | .whileLoop condition body => by
    rw [Stmt.events, stmt, stmt]
    refine .bind (alike_expr scope condition) fun _ _ => .after .freshLabel fun _ _ => ?_
    exact (alike_stmts scope _ _ body).map _ _
  | .forLoop start condition step body => by
    rw [Stmt.events, stmt, stmt]
    refine .bind (alike_forClause scope start) fun _ _ => ?_
    refine .bind (alike_exprOption scope condition) fun _ _ => ?_
    refine .bind (alike_exprOption scope step) fun _ _ => .after .freshLabel fun _ _ => ?_
    exact (alike_stmts scope _ _ body).map _ _
  | .forEach name type iterable body => by
    have hiterable := alike_expr scope iterable
    -- The header depends on what is iterated, the rest of the loop does not.
    have hloop : ∀ header header' : Fragment, Gen.Alike target (Stmt.allEvents true body)
        (do
          let number ← Gen.freshLabel
          return loopCode number header (← stmts env scope (some ⟨number, false⟩) body) :
            Gen (List Code))
        (do
          let number ← Gen.freshLabel
          return loopCode number header' (← stmts env scope (some ⟨number, false⟩) body) :
            Gen (List Code)) :=
      fun _ _ => .after .freshLabel fun _ _ => (alike_stmts scope _ _ body).map _ _
    rw [Stmt.events]
    cases iterable with
    | range start stop inclusive =>
      have hstart := alike_exprOption scope start
      have hstop := alike_exprOption scope stop
      rw [Expr.events, stmt, stmt]
      refine .after (alike_mapTypeOr _ type) fun _ _ => ?_
      cases stop with
      | none =>
        rw [Expr.optionEvents, List.append_nil]
        exact .bind hstart fun _ _ => hloop _ _
      | some stop =>
        have hsequence := alike_indexSequence (r := ⟨start, some stop, inclusive⟩) hstart hstop
        exact .bind hsequence fun _ _ => hloop _ _
    | _ =>
      simp only [stmt]
      refine .after (alike_mapTypeOr _ type) fun _ _ => ?_
      exact .bind hiterable fun _ _ => hloop _ _
  | .ret none => by
    rw [Stmt.events, Expr.optionEvents, stmt, stmt]
    exact .pure _ _
  | .ret (some value) => by
    rw [Stmt.events, Expr.optionEvents, stmt, stmt]
    exact (alike_expr scope value).map _ _
  | .breakLoop | .continueLoop => by
    rw [Stmt.events, stmt, stmt]
    exact .pure _ _
  | .matchOn scrutinee arms => by
    rw [Stmt.events, stmt, stmt]
    exact .bind (alike_expr scope scrutinee) fun _ _ => (alike_matchCases scope _ _ arms).map _ _
  | .switchOn subject cases => by
    rw [Stmt.events, stmt, stmt]
    exact .bind (alike_expr scope subject) fun _ _ => (alike_switchCases scope _ _ cases).map _ _
  | .expr value => by
    have hvalue := alike_expr scope value
    rw [Stmt.events]
    cases value with
    | matchOn scrutinee arms =>
      rw [Expr.events, stmt, stmt]
      exact .bind (alike_expr scope scrutinee) fun _ _ =>
        (alike_matchCases scope _ _ arms).hide.map _ _
    | _ =>
      simp only [stmt]
      exact hvalue.map _ _
  | .raw block => by
    rw [Stmt.events, stmt, stmt]
    exact target.alike_rawCode block
  | .functionDecl _ decl => by
    rw [Stmt.events, stmt, stmt]
    exact (alike_function scope _ [] (fun _ => .pure _ _) decl).map _ _
  | .typeDecl _ _ => by
    rw [Stmt.events, stmt, stmt]
    exact .fail _ _
  | .enumDecl _ => by
    rw [Stmt.events, stmt, stmt]
    exact .fail _ _
  | .importDecl _ | .includeDecl _ _ | .aliasDecl _ | .namespaceDecl _ _ | .moduleDecl _
  | .fieldDecl _ | .propertyDecl _ => by
    simp only [Stmt.events, stmt]
    exact target.alike_refuseInBody scope scope _

/-- The same of a block. -/
theorem alike_stmts (scope : Scope) (loop loop' : Option LoopFrame) :
    ∀ ss : List Stmt,
      Gen.Alike target (Stmt.allEvents true ss) (stmts env scope loop ss)
        (stmts env scope loop' ss)
  | [] => by
    rw [Stmt.allEvents, stmts, stmts]
    exact .pure _ _
  | s :: ss => by
    rw [Stmt.allEvents, stmts, stmts]
    exact .bind (alike_stmt scope loop loop' s) fun _ _ => (alike_stmts scope loop loop' ss).map _ _

theorem alike_binding (scope : Scope) :
    ∀ b : Binding,
      Gen.Alike target (b.events true) (binding env scope b) (binding env scope b)
  | ⟨name, type, value, mutability⟩ => by
    rw [Binding.events, binding, ← List.append_nil (Expr.optionEvents true value)]
    refine .bind (alike_exprOption scope value) fun _ _ => ?_
    exact (Gen.Alike.optionMapM alike_mapType type).map _ _

theorem alike_forClause (scope : Scope) :
    ∀ start : Option Stmt,
      Gen.Alike target (Stmt.startEvents true start) (forClause env scope start)
        (forClause env scope start)
  | none => by
    rw [Stmt.startEvents, forClause]
    exact .pure _ _
  | some s => by
    cases s with
    | binding b =>
      rw [Stmt.startEvents, forClause]
      exact alike_binding scope b
    | expr value =>
      rw [Stmt.startEvents, forClause]
      exact alike_expr scope value
    | _ =>
      simp only [Stmt.startEvents, forClause]
      exact .after (.note rfl rfl rfl) fun _ _ => .pure _ _

theorem alike_elseChain (scope : Scope) (loop loop' : Option LoopFrame) :
    ∀ branch : Option (List Stmt),
      Gen.Alike target (Stmt.blockEvents true branch) (elseChain env scope loop branch)
        (elseChain env scope loop' branch)
  | none => by
    rw [Stmt.blockEvents, elseChain, elseChain]
    exact .pure _ _
  | some [] => by
    simp only [Stmt.blockEvents, elseChain]
    exact (alike_stmts scope loop loop' []).map _ _
  | some [s] => by
    have hs := alike_stmts scope loop loop' [s]
    rw [Stmt.blockEvents]
    cases s with
    | ifThen condition thenBranch elseBranch =>
      rw [Stmt.allEvents, Stmt.allEvents, List.append_nil, Stmt.events, elseChain, elseChain]
      refine .bind (alike_expr scope condition) fun _ _ => ?_
      refine .bind (alike_stmts scope loop loop' thenBranch) fun _ _ => ?_
      exact (alike_elseChain scope loop loop' elseBranch).map _ _
    | _ =>
      simp only [elseChain]
      exact hs.map _ _
  | some (s :: s' :: ss) => by
    simp only [Stmt.blockEvents, elseChain]
    exact (alike_stmts scope loop loop' (s :: s' :: ss)).map _ _

theorem alike_caseLabels (scope : Scope) :
    ∀ pattern : Pattern,
      Gen.Alike target (pattern.events true) (caseLabels env scope pattern)
        (caseLabels env scope pattern)
  | .default => by
    rw [Pattern.events, caseLabels]
    exact .pure _ _
  | .values values => by
    rw [Pattern.events, caseLabels]
    exact (alike_exprs scope values).map _ _

theorem alike_matchCases (scope : Scope) (loop loop' : Option LoopFrame) :
    ∀ arms : List MatchArm,
      Gen.Alike target (MatchArm.allEvents true arms) (matchCases env scope loop arms)
        (matchCases env scope loop' arms)
  | [] => by
    rw [MatchArm.allEvents, matchCases, matchCases]
    exact .pure _ _
  | ⟨pattern, .expr value⟩ :: arms => by
    rw [MatchArm.allEvents, Body.events, matchCases, matchCases]
    refine .bind (alike_caseLabels scope pattern) fun _ _ => ?_
    exact .bind (alike_expr scope value) fun _ _ => (alike_matchCases scope loop loop' arms).map _ _
  | ⟨pattern, .block block⟩ :: arms => by
    rw [MatchArm.allEvents, Body.events, matchCases, matchCases]
    refine .bind (alike_caseLabels scope pattern) fun _ _ => ?_
    exact .bind (alike_stmts scope loop loop' block) fun _ _ =>
      (alike_matchCases scope loop loop' arms).map _ _

theorem alike_switchCases (scope : Scope) (loop loop' : Option LoopFrame) :
    ∀ cases : List SwitchCase,
      Gen.Alike target (SwitchCase.allEvents true cases) (switchCases env scope loop cases)
        (switchCases env scope loop' cases)
  | [] => by
    rw [SwitchCase.allEvents, switchCases, switchCases]
    exact .pure _ _
  | ⟨pattern, block⟩ :: cases => by
    rw [SwitchCase.allEvents, switchCases, switchCases]
    refine .bind (alike_caseLabels scope pattern) fun _ _ => ?_
    exact .bind (alike_stmts scope loop loop' block) fun _ _ =>
      (alike_switchCases scope loop loop' cases).map _ _

theorem alike_attributeLines (scope : Scope) :
    ∀ attributes : List Attribute,
      Gen.Alike target (Attribute.allEvents true attributes) (attributeLines env scope attributes)
        (attributeLines env scope attributes)
  | [] => by
    rw [Attribute.allEvents, attributeLines]
    exact .pure _ _
  | ⟨name, args⟩ :: attributes => by
    rw [Attribute.allEvents, attributeLines]
    split
    · exact alike_attributeLines scope attributes
    · exact .bind (alike_exprs scope args) fun _ _ =>
        (alike_attributeLines scope attributes).map _ _

theorem alike_parameters (scope : Scope) :
    ∀ params : List Parameter,
      Gen.Alike target (Parameter.allEvents true params) (parameters env scope params)
        (parameters env scope params)
  | [] => by
    rw [Parameter.allEvents, parameters]
    exact .pure _ _
  | ⟨name, type, default⟩ :: params => by
    rw [Parameter.allEvents, parameters]
    refine .after (alike_mapTypeOr _ type) fun _ _ => ?_
    exact .bind (alike_exprOption scope default) fun _ _ => (alike_parameters scope params).map _ _

/-- The events ahead of the body are those of what is written there. -/
theorem alike_function (scope : Scope) (options : FunctionOptions) (before : List Event)
    {prologue : Scope → Gen (List Code)}
    (hprologue : ∀ scope, Gen.Alike target before (prologue scope) (prologue scope)) :
    ∀ decl : Function,
      Gen.Alike target (decl.events true before) (function env scope options prologue decl)
        (function env scope options prologue decl)
  | ⟨name, params, returnType, generics, modifiers, attributes, body, isConstructor, isStatic⟩ => by
    rw [Function.events, function]
    refine target.alike_unlessMarked fun _ => ?_
    split
    · exact .after (.note rfl rfl rfl) fun _ _ => .pure _ _
    extract_lets makeStatic inner words
    refine .bind (alike_attributeLines inner attributes) fun _ _ => ?_
    rw [if_pos rfl]
    refine .bind (alike_parameters inner params) fun _ _ => ?_
    -- The kinds of functions differ in what they look up for their heads.
    extract_lets +lift shown finish named shown' finish' named'
    have hfinish : ∀ head head',
        Gen.Alike target (Stmt.bodyEvents true before body) (finish head) (finish' head') :=
      fun head head' => (alike_functionBody _ before hprologue head head' body).map _ _
    have hnamed : ∀ returns returns',
        Gen.Alike target (Stmt.bodyEvents true before body) (named returns) (named' returns') :=
      fun _ _ => .after (alike_whereClauses generics) fun _ _ => hfinish _ _
    split
    · exact hfinish _ _
    · split
      · exact hnamed _ _
      · exact .after (alike_returnSpelling returnType body) hnamed

/-- The same of a body behind prologues alike. -/
theorem alike_functionBody (scope : Scope) (before : List Event)
    {prologue : Scope → Gen (List Code)}
    (hprologue : ∀ scope, Gen.Alike target before (prologue scope) (prologue scope))
    (head head' : Fragment) :
    ∀ body : Option (List Stmt),
      Gen.Alike target (Stmt.bodyEvents true before body)
        (functionBody env scope prologue head body) (functionBody env scope prologue head' body)
  | none => by
    rw [Stmt.bodyEvents, functionBody, functionBody]
    exact .pure _ _
  | some body => by
    rw [Stmt.bodyEvents, functionBody, functionBody]
    exact .bind (hprologue scope) fun _ _ => (alike_stmts scope none none body).map _ _

end

end CSharp

end SourceGen
