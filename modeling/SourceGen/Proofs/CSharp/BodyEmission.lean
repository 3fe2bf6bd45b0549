import SourceGen.Proofs.CSharp.BodyWritten
import SourceGen.Proofs.CSharp.LoopState

/-!
# Emitted C# bodies

The emitter of C# bodies follows the generator. First come the parts that have no expressions or
statements of their own to write, then one induction over the tree.

## Main results

* `CSharp.renders_expr`: an expression is rendered, and the state is unchanged.
* `CSharp.adds_stmts`: statements are written in the loop that the state is in.
* `CSharp.follows_function`: functions are written outside of all loops.
-/

namespace SourceGen

namespace CSharp

open Emit (Follows Renders)
open Fragment (text)

variable {env : Env} {scope : Scope} {st : Emitter} {loop : Option LoopFrame}

/-- The state with the fragment rendered. -/
abbrev Rendered (st : Emitter) (f : Fragment) : String × Emitter :=
  (st.render f, st)

/-! ### Parts of expressions -/

/-- Parentheses are decided by the syntax, before or after rendering. -/
@[simp] theorem render_grouped (e : Expr) (f : Fragment) :
    st.render (grouped e f) = groupedText e (st.render f) := by
  unfold grouped groupedText
  split
  · exact Emitter.render_parens f
  · rfl

/-- A builtin call is the same text over rendered arguments. -/
theorem follows_builtinOrShim (fn : Builtin) (argCount : Nat) (args : Fragment) :
    Follows st (emitBuiltinOrShim env fn argCount (st.render args))
      (builtinOrShim env fn argCount args) (Rendered st) := by
  unfold emitBuiltinOrShim builtinOrShim
  split
  · exact .pure (by simp [String.append_assoc])
  · refine .lift fun _ => ?_
    cases fn with
    | print =>
      dsimp only
      split
      · exact .pure (by simp [String.append_assoc])
      · exact .pure (by simp [String.append_assoc])
    | len => exact .lift fun _ => .pure (by simp [String.append_assoc])
    | str | abs | min | max | sqrt => exact .pure (by simp [String.append_assoc])

theorem follows_arrayLiteral (isEmpty : Bool) (items : Fragment) (elementType : Option TypeRef) :
    Follows st (emitArray env scope isEmpty (st.render items) elementType)
      (arrayLiteral env scope isEmpty items elementType) (Rendered st) := by
  have hbody : st.render
      (if items.isBlank then text "\x7b \x7d" else text "\x7b " ++ items ++ text " \x7d") =
        if (st.render items).isEmpty then "\x7b \x7d"
        else "\x7b " ++ st.render items ++ " \x7d" := by
    rw [Emitter.isEmpty_render]
    split <;> simp [String.append_assoc]
  cases elementType with
  | none => exact .pure (by simp only [Rendered, Emitter.render_append, Emitter.render_text, hbody])
  | some type =>
    exact .lift fun _ =>
      .pure (by simp only [Rendered, Emitter.render_append, Emitter.render_text, hbody])

@[simp] theorem render_variableText (mutability : Mutability) (name : String)
    (type : Option String) (value : Option Fragment) :
    st.render (variableText mutability name type value) =
      bindingText mutability name type (value.map st.render) := by
  cases type <;> cases value <;> simp [variableText, bindingText]

/-- The arms are rendered one level deeper than the expression. -/
theorem follows_arms (subject : Fragment) {arms : Emit (List String)} {y : Gen (List Fragment)}
    (hst : st.out.style = .nextLine)
    (harms : Renders .nextLine (fun st fs => fs.map st.render) arms y) :
    Follows st (emitArms (st.render subject) arms)
      (y >>= fun fs => pure (subject ++ text " switch" ++ [.arms fs])) (Rendered st) := by
  refine .take <| .take <|
    .bind (Follows.deeper (harms { st with nesting := st.nesting + 1 } hst)) fun fs => .pure ?_
  have hlines := st.render_arms_nextLine fs hst
  simp only [Rendered, Emitter.render_append, Emitter.render_text, hlines, List.map_map,
    Function.comp_def, String.append_assoc]

section Range

variable {r : Range} {start stop : Emit (Option String)} {start' stop' : Gen (Option Fragment)}
  (hstart : Follows st start start' fun o => (o.map st.render, st))
  (hstop : Follows st stop stop' fun o => (o.map st.render, st))

include hstart hstop

/-- The count of a range is the same text over its rendered ends. -/
theorem follows_rangeCount :
    Follows st (emitRangeCount r start stop) (rangeCount r start' stop') (Rendered st) := by
  have hbound : ∀ (e : Expr) (o : Option Fragment),
      groupedText e ((o.map st.render).getD "") = st.render (grouped e (o.getD [])) := by
    intro e o
    rw [render_grouped, Emitter.render_getD]
    rfl
  have hminus : st.render (text " - ") = " - " := Emitter.render_text _
  have hopen : st.render (text "int.MaxValue") = "int.MaxValue" := Emitter.render_text _
  unfold emitRangeCount rangeCount
  cases foldedCount? r with
  | some count => exact .pure (by simp)
  | none =>
    dsimp -zeta only
    extract_lets +lift finish subtract count finish' subtract' count'
    have hfinish : ∀ f, Follows st (finish (st.render f)) (finish' f) (Rendered st) := by
      intro f
      refine .pure ?_
      split <;> simp
    have hsubtract : ∀ f, Follows st (subtract (st.render f)) (subtract' f) (Rendered st) := by
      intro f
      dsimp only [subtract, subtract']
      cases r.start with
      | none => exact hfinish f
      | some e =>
        dsimp only
        split
        · exact hfinish f
        · refine .bind hstart fun o => ?_
          rw [hbound, ← hminus, ← Emitter.render_append, ← Emitter.render_append]
          exact hfinish _
    have hcount : ∀ u, Follows st (count u) (count' u) (Rendered st) := by
      intro u
      dsimp only [count, count']
      cases r.stop with
      | none => exact hopen ▸ hsubtract (text "int.MaxValue")
      | some e =>
        refine .bind hstop fun o => ?_
        rw [hbound]
        exact hsubtract _
    split
    · exact .lift hcount
    · exact hcount ()

/-- A range is the same text over its rendered ends. -/
theorem follows_indexSequence :
    Follows st (emitSequence r start stop) (indexSequence r start' stop') (Rendered st) :=
  .lift fun _ => .bind hstart fun first => .bind (follows_rangeCount hstart hstop) fun count =>
    .pure (by simp [Rendered, Emitter.render_getD, String.append_assoc])

end Range

/-! ### Parts of statements -/

@[simp] theorem wroteOne_effectLine (e : Expr) (f : Fragment) :
    st.wroteOne (effectLine e f) = st.write (·.line (effectText e (st.render f))) := by
  unfold effectLine effectText
  split <;> simp [String.append_assoc]

/-- A case may have a block of its own, and a jump at its end. -/
theorem follows_caseBlock {block : List Stmt} {body : Emit Unit} {y : Gen (List Code)}
    (hbody : Adds loop body y) (hst : Fits loop st) :
    Follows st (emitCaseBlock block body) y fun code => ((), st.wrote (caseBlock block code)) := by
  have hclosed : ∀ (st : Emitter) (code : List Code),
      st.wrote (if Stmt.endsWithJump block then code else code ++ [.jump .endCase]) =
        if Stmt.endsWithJump block then st.wrote code
        else (st.wrote code).write (·.line "break;") := by
    intro st code
    split <;> simp
  unfold emitCaseBlock caseBlock
  cases block.any declaresVariable with
  | false =>
    refine .step <| (hbody hst).finish fun code => ?_
    simp only [Bool.false_eq_true, if_false, hclosed]
    rfl
  | true =>
    refine .step <| (hbody hst.openBraces).finish fun code => ?_
    simp only [if_true, Emitter.wrote_cons, Emitter.wroteOne_braces, Emitter.wrote_nil, hclosed]
    rfl

/-- An `else` block steps in, writes its body and steps out. -/
theorem adds_elseBlock {x : Emit Unit} {y : Gen (List Code)} (hx : Adds loop x y) :
    Adds loop
      (Emit.openBlock "else" >>= fun _ => x >>= fun _ => Emit.closeBlock "")
      (y >>= fun code => pure [.block .plain (text "else") code ""]) := fun _ hst =>
  .step <| .bind (hx (hst.openBlock _)) fun code => .done (by simp)

/-- The body of a function is written where nothing can be marked. -/
theorem Fits.wroteOne_function (hst : Fits none st) (head : Fragment) (code : List Code) :
    st.wroteOne (.block .function head code "") =
      ((st.write (·.openBlock (st.render head))).wrote code).closeBlock "" := by
  rw [Emitter.wroteOne_function, Emitter.wrote_of_no_loops (hst.openBlock _).loops_eq]

/-! ### The induction over the tree -/

mutual

/-- The emitter returns the text of the tree of an expression, by induction on its syntax. -/
theorem renders_expr {scope : Scope} :
    ∀ e : Expr, Renders .nextLine Emitter.render (emitExpr env scope e) (expr env scope e)
  | .literal _, _, _ | .ident _, _, _ | .path _, _, _ | .this, _, _ => .pure (by simp)
  | .member object _, st, hst =>
    .bind (renders_expr object st hst) fun f => .pure (by simp [String.append_assoc])
  | .index object i, st, hst =>
    .bind (renders_expr object st hst) fun f => .bind (renders_expr i st hst) fun g =>
      .pure (by simp [String.append_assoc])
  | .binary left op right, st, hst => by
    refine .bind (renders_expr left st hst) fun f => .bind (renders_expr right st hst) fun g => ?_
    dsimp only
    split
    · exact .lift fun _ => .pure (by simp [String.append_assoc])
    · exact .pure (by simp [String.append_assoc])
  | .unary op operand trailing, st, hst =>
    .bind (renders_expr operand st hst) fun f => .pure (by cases trailing <;> simp)
  | .assign target _ value, st, hst =>
    .bind (renders_expr target st hst) fun f => .bind (renders_expr value st hst) fun g =>
      .pure (by simp [String.append_assoc])
  | .call callee args, st, hst => by
    have hargs : Follows st (emitExprs env scope args) (exprs env scope args)
        fun fs => (fs.map st.render, st) := renders_exprs args st hst
    have hcallee : Follows st (emitExpr env scope callee) (expr env scope callee)
        (Rendered st) := renders_expr callee st hst
    cases callee with
    | ident name =>
      refine .bind hargs fun fs => ?_
      dsimp only
      rw [← Emitter.render_join]
      cases Callee.of (.ident name) with
      | builtin fn _ => exact follows_builtinOrShim fn args.length _
      | _ => exact .pure (by simp [String.append_assoc])
    | path parts => exact .bind hargs fun fs => .pure (by simp [String.append_assoc])
    | member receiver name =>
      exact .bind hargs fun fs => .bind (renders_expr receiver st hst) fun f =>
        .pure (by simp [String.append_assoc])
    | _ =>
      exact .bind hargs fun fs => .bind hcallee fun f => .pure (by simp [String.append_assoc])
  | .construct type args, st, hst =>
    .lift fun spelling => .bind (renders_exprs args st hst) fun fs =>
      .pure (by simp [String.append_assoc])
  | .array elements elementType, st, hst =>
    .bind (renders_exprs elements st hst) fun fs => by
      have h : Follows st (emitArray env scope elements.isEmpty
          (st.render (Fragment.join ", " fs)) elementType) _ (Rendered st) :=
        follows_arrayLiteral elements.isEmpty _ elementType
      rwa [Emitter.render_join] at h
  | .lambda params (.expr value), st, hst =>
    .lift fun head => .bind (renders_expr value st hst) fun f =>
      .pure (by simp [String.append_assoc])
  | .lambda params (.block block), st, hst =>
    .lift fun head => .bind (renders_emitClosure (adds_stmts none block) st hst) fun code =>
      .pure (by simp [String.append_assoc])
  | .range start stop inclusive, st, hst =>
    follows_indexSequence (renders_exprOption start st hst) (renders_exprOption stop st hst)
  | .block block, st, hst => renders_emitInvoked (adds_valueBlock block) st hst
  | .matchOn scrutinee arms, st, hst =>
    .bind (renders_expr scrutinee st hst) fun f => by
      have harms : Renders .nextLine (fun st fs => fs.map st.render)
        (emitSwitchArms env scope arms) (switchArms env scope arms) := renders_switchArms arms
      have h := follows_arms (grouped scrutinee f) hst harms
      rwa [render_grouped] at h

theorem renders_exprs {scope : Scope} : ∀ es : List Expr,
    Renders .nextLine (fun st fs => fs.map st.render) (emitExprs env scope es) (exprs env scope es)
  | [], _, _ => .pure rfl
  | e :: es, st, hst =>
    .bind (renders_expr e st hst) fun _ => .bind (renders_exprs es st hst) fun _ => .pure rfl

theorem renders_exprOption {scope : Scope} : ∀ e : Option Expr,
    Renders .nextLine (fun st o => o.map st.render) (emitExprOption env scope e)
      (exprOption env scope e)
  | none, _, _ => .pure rfl
  | some e, st, hst => .bind (renders_expr e st hst) fun _ => .pure rfl

/-- The emitter writes the tree of a block that is a value; no loop is open inside it. -/
theorem adds_valueBlock {scope : Scope} : ∀ block : List Stmt,
    Adds none (emitValueBlock env scope block) (valueBlock env scope block)
  | [], _, _ => .done (by simp)
  | [s], st, hst => by
    -- Only an expression at the end is the value of the block.
    have hs : Follows st (emitStmt env scope s) (stmt env scope none s)
        fun code => ((), st.wrote code) := adds_stmt none s hst
    have hlast (code : List Code) : st.wrote (if s.isReturn then code
        else code ++ [.text "return null;"]) =
          if s.isReturn then st.wrote code else (st.wrote code).write (·.line "return null;") := by
      split <;> simp
    cases s with
    | expr value =>
      exact .bind (renders_expr value st hst.braces_eq) fun f =>
        .done (by simp [String.append_assoc])
    | _ => exact .bind hs fun code => .done (congrArg _ (hlast code))
  | s :: s' :: ss, st, hst => by
    have h : Follows st (emitStmt env scope s >>= fun _ => emitValueBlock env scope (s' :: ss))
        (stmt env scope none s >>= fun code => valueBlock env scope (s' :: ss) >>= fun rest =>
          pure (code ++ rest)) fun code => ((), st.wrote code) :=
      .bind (adds_stmt none s hst) fun code =>
        .last (adds_valueBlock (s' :: ss) (hst.wrote code)) fun rest => by simp
    cases s <;> exact h

theorem renders_switchArms {scope : Scope} : ∀ arms : List MatchArm,
    Renders .nextLine (fun st fs => fs.map st.render) (emitSwitchArms env scope arms)
      (switchArms env scope arms)
  | [], _, _ => .pure rfl
  | ⟨pattern, .expr value⟩ :: arms, st, hst =>
    .bind (renders_selector pattern st hst) fun f => .bind (renders_expr value st hst) fun g =>
      .bind (renders_switchArms arms st hst) fun fs => .pure (by simp [String.append_assoc])
  | ⟨pattern, .block block⟩ :: arms, st, hst => by
    have hblock : Adds none
        (do
          emitStmts env scope block
          Emit.lineUnless (Stmt.endsWithReturn block) "return null;")
        (stmts env scope none block >>= fun code =>
          pure (if Stmt.endsWithReturn block then code else code ++ [.text "return null;"])) :=
      fun st hst => .bind (adds_stmts none block hst) fun code => .done (by split <;> simp)
    refine .bind (renders_selector pattern st hst) fun f => ?_
    have h : Follows st
        (emitInvoked _ >>= fun result => emitSwitchArms env scope arms >>= fun shown =>
          pure ((st.render f ++ " => " ++ result) :: shown))
        (_ >>= fun g => switchArms env scope arms >>= fun fs =>
          pure ((f ++ text " => " ++ g) :: fs)) fun fs => (fs.map st.render, st) :=
      .bind (renders_emitInvoked hblock st hst) fun g =>
        .bind (renders_switchArms arms st hst) fun fs => .pure (by simp [String.append_assoc])
    simpa only [bind_assoc, pure_bind] using h

theorem renders_selector {scope : Scope} : ∀ pattern : Pattern,
    Renders .nextLine Emitter.render (emitSelector env scope pattern)
      (armSelector env scope pattern)
  | .default, _, _ => .pure (by simp)
  | .values values, st, hst =>
    .bind (renders_exprs values st hst) fun fs => .pure (by simp)

/-- The emitter writes the tree of a block, and marks the loop around it where the tree leaves it.
-/
theorem adds_stmts {scope : Scope} (loop : Option LoopFrame) : ∀ ss : List Stmt,
    Adds loop (emitStmts env scope ss) (stmts env scope loop ss)
  | [], _, _ => .pure (by simp)
  | s :: ss, _, hst =>
    .bind (adds_stmt loop s hst) fun code =>
      .last (adds_stmts loop ss (hst.wrote code)) fun rest => by simp

/-- The same of a statement. -/
theorem adds_stmt {scope : Scope} (loop : Option LoopFrame) : ∀ s : Stmt,
    Adds loop (emitStmt env scope s) (stmt env scope loop s)
  | .binding b, st, hst =>
    .bind (renders_binding b st hst.braces_eq) fun f => .done (by simp)
  | .ifThen condition thenBranch elseBranch, st, hst => by
    refine .bind (renders_expr condition st hst.braces_eq) fun f => .step <|
      .bind (adds_stmts loop thenBranch (hst.openBlock _)) fun code => .step <|
      .last (adds_elseChain loop elseBranch (((hst.openBlock _).wrote code).closeBlock "")) ?_
    intro rest
    simp [String.append_assoc]
  | .whileLoop condition body, st, hst =>
    .bind (renders_expr condition st hst.braces_eq) fun f =>
      follows_emitLoop (fun n => adds_stmts (some ⟨n, false⟩) body)
        (fun n => written_stmts (some ⟨n, false⟩) body (n + 1)) hst
        (by simp [String.append_assoc])
  | .forLoop start condition step body, st, hst =>
    .bind (renders_forClause start st hst.braces_eq) fun first =>
      .bind (renders_exprOption condition st hst.braces_eq) fun second =>
      .bind (renders_exprOption step st hst.braces_eq) fun third =>
      follows_emitLoop (fun n => adds_stmts (some ⟨n, false⟩) body)
        (fun n => written_stmts (some ⟨n, false⟩) body (n + 1)) hst
        (by simp [String.append_assoc])
  | .forEach name type iterable body, st, hst => by
    have hiterable : Follows st (emitExpr env scope iterable) (expr env scope iterable)
        (Rendered st) := renders_expr iterable st hst.braces_eq
    have hbody : ∀ n, Adds (some ⟨n, false⟩) (emitStmts env scope body)
        (stmts env scope (some ⟨n, false⟩) body) := fun n => adds_stmts (some ⟨n, false⟩) body
    have hcode : ∀ n, (stmts env scope (some ⟨n, false⟩) body).Ensures (n + 1)
        (Written (some ⟨n, false⟩) (Stmt.allBreaks body) (n + 1)) :=
      fun n => written_stmts (some ⟨n, false⟩) body (n + 1)
    -- A range in a loop is counted in place, anything else is iterated.
    cases iterable with
    | range start stop inclusive =>
      have hstart : Follows st (emitExprOption env scope start) (exprOption env scope start)
          fun o => (o.map st.render, st) := renders_exprOption start st hst.braces_eq
      have hstop : Follows st (emitExprOption env scope stop) (exprOption env scope stop)
          fun o => (o.map st.render, st) := renders_exprOption stop st hst.braces_eq
      refine .lift fun spelling => ?_
      dsimp only
      split
      · exact .bind hstart fun o => follows_emitLoop hbody hcode hst
          (by simp [Emitter.render_getD, String.append_assoc])
      · exact .bind (follows_indexSequence hstart hstop) fun f =>
          follows_emitLoop hbody hcode hst (by simp [String.append_assoc])
    | _ =>
      exact .lift fun spelling => .bind hiterable fun f =>
        follows_emitLoop hbody hcode hst (by simp [String.append_assoc])
  | .ret none, _, _ => .done (by simp)
  | .ret (some value), st, hst =>
    .bind (renders_expr value st hst.braces_eq) fun f => .done (by simp [String.append_assoc])
  -- Inside a switch the jump marks the loop that is open, and that is the innermost one.
  | .breakLoop, st, hst => .done (by
      rw [Emitter.wrote_cons, Emitter.wrote_nil, ← hst.innermost_eq, Emitter.wroteOne_leave])
  | .continueLoop, _, _ => .done (by simp)
  | .matchOn scrutinee arms, st, hst =>
    adds_emitSwitch (renders_expr scrutinee) (adds_matchCases _ arms) hst
  | .expr value, st, hst => by
    have hvalue : Follows st (emitExpr env scope value) (expr env scope value) (Rendered st) :=
      renders_expr value st hst.braces_eq
    cases value with
    | matchOn scrutinee arms =>
      exact adds_emitSwitch (renders_expr scrutinee) (adds_matchCases _ arms) hst
    | _ => exact .bind hvalue fun f => .done (by simp)
  | .switchOn subject cases, st, hst =>
    adds_emitSwitch (renders_expr subject) (adds_switchCases _ cases) hst
  | .raw block, _, hst => adds_rawCode block hst
  -- A local function hides the loops around it while it is written.
  | .functionDecl _ decl, st, hst =>
    .step <| .last (adds_withoutLoops (adds_function _ (fun _ _ _ => .pure (by simp)) decl)
      (written_function none { isLocal := true } _ (fun _ _ => .pure ⟨[], .nil⟩) decl)
      (hst.write st.out.layout_separator)) fun code => by simp
  | .typeDecl _ _, _, _ | .enumDecl _, _, _ => .fail
  | .importDecl _, _, _ | .includeDecl _ _, _, _ | .aliasDecl _, _, _ | .namespaceDecl _ _, _, _
  | .moduleDecl _, _, _ | .fieldDecl _, _, _ | .propertyDecl _, _, _ => .report (by simp)

theorem renders_binding {scope : Scope} : ∀ b : Binding,
    Renders .nextLine Emitter.render (emitBinding env scope b) (binding env scope b)
  | ⟨name, type, value, mutability⟩, st, hst =>
    .bind (renders_exprOption value st hst) fun o => .lift fun spelling => .pure (by simp)

theorem renders_forClause {scope : Scope} : ∀ start : Option Stmt,
    Renders .nextLine Emitter.render (emitForClause env scope start) (forClause env scope start)
  | none, _, _ => .pure rfl
  | some s, st, hst => by
    cases s with
    | binding b => exact renders_binding b st hst
    | expr value => exact renders_expr value st hst
    | _ => exact .lift fun _ => .pure rfl

theorem adds_elseChain {scope : Scope} (loop : Option LoopFrame) :
    ∀ elseBranch : Option (List Stmt),
      Adds loop (emitElseChain env scope elseBranch) (elseChain env scope loop elseBranch)
  | none, _, _ => .pure (by simp)
  | some [], _, hst => adds_elseBlock (adds_stmts loop []) hst
  | some [s], st, hst => by
    -- An `if` alone continues the chain; any other statement is a block of its own.
    have hs : Adds loop (emitStmts env scope [s]) (stmts env scope loop [s]) :=
      adds_stmts loop [s]
    cases s with
    | ifThen condition thenBranch elseBranch =>
      refine .bind (renders_expr condition st hst.braces_eq) fun f => .step <|
        .bind (adds_stmts loop thenBranch (hst.openBlock _)) fun code => .step <|
        .last (adds_elseChain loop elseBranch (((hst.openBlock _).wrote code).closeBlock "")) ?_
      intro rest
      simp [String.append_assoc]
    | _ => exact adds_elseBlock hs hst
  | some (s :: s' :: ss), _, hst => by
    have hss : Adds loop (emitStmts env scope (s :: s' :: ss))
        (stmts env scope loop (s :: s' :: ss)) := adds_stmts loop (s :: s' :: ss)
    cases s <;> exact adds_elseBlock hss hst

theorem adds_caseLabels {scope : Scope} (loop : Option LoopFrame) : ∀ pattern : Pattern,
    Adds loop (emitCaseLabels env scope pattern) (caseLabels env scope pattern)
  | .default, _, _ => .done (by simp)
  | .values values, st, hst => .last (follows_caseValues values hst) fun fs => rfl

/-- The labels of a case are written line by line. -/
theorem follows_caseValues {scope : Scope} {loop : Option LoopFrame} :
    ∀ (values : List Expr) {st : Emitter}, Fits loop st →
      Follows st (emitCaseValues env scope values) (exprs env scope values) fun fs =>
        ((), st.wrote (fs.map fun v => .line (text "case " ++ v ++ text ":")))
  | [], _, _ => .pure (by simp)
  | value :: values, st, hst =>
    .bind (renders_expr value st hst.braces_eq) fun f => .step <|
      .last (follows_caseValues values (hst.write rfl)) fun fs => by simp [String.append_assoc]

theorem adds_matchCases {scope : Scope} (loop : Option LoopFrame) : ∀ arms : List MatchArm,
    Adds loop (emitMatchCases env scope arms) (matchCases env scope loop arms)
  | [], _, _ => .pure (by simp)
  | ⟨pattern, .expr value⟩ :: arms, st, hst =>
    .bind (adds_caseLabels loop pattern hst) fun labels => .step <|
      .bind (renders_expr value _ (hst.wrote labels).indent.braces_eq) fun f => .step <| .step <|
      .step <| .last (adds_matchCases loop arms
        (((((hst.wrote labels).indent).write rfl).write rfl).dedent)) fun rest => by simp
  | ⟨pattern, .block block⟩ :: arms, st, hst =>
    .bind (adds_caseLabels loop pattern hst) fun labels => .step <|
      .bind (follows_caseBlock (adds_stmts loop block) (hst.wrote labels).indent) fun code =>
      .step <| .last (adds_matchCases loop arms (((hst.wrote labels).indent.wrote _).dedent))
        fun rest => by simp

theorem adds_switchCases {scope : Scope} (loop : Option LoopFrame) :
    ∀ cases : List SwitchCase,
      Adds loop (emitSwitchCases env scope cases) (switchCases env scope loop cases)
  | [], _, _ => .pure (by simp)
  | ⟨pattern, block⟩ :: cases, st, hst =>
    .bind (adds_caseLabels loop pattern hst) fun labels => .step <|
      .bind (follows_caseBlock (adds_stmts loop block) (hst.wrote labels).indent) fun code =>
      .step <| .last (adds_switchCases loop cases (((hst.wrote labels).indent.wrote _).dedent))
        fun rest => by simp

theorem adds_attributes {scope : Scope} (loop : Option LoopFrame) :
    ∀ attributes : List Attribute,
      Adds loop (emitAttributes env scope attributes) (attributeLines env scope attributes)
  | [], _, _ => .pure (by simp)
  | ⟨name, args⟩ :: attributes, st, hst => by
    have hrest : ∀ st, Fits loop st → Follows st (emitAttributes env scope attributes)
        (attributeLines env scope attributes) fun code => ((), st.wrote code) :=
      fun st hst => adds_attributes loop attributes hst
    have hargs : Follows st (emitExprs env scope args) (exprs env scope args)
        fun fs => (fs.map st.render, st) := renders_exprs args st hst.braces_eq
    rw [emitAttributes, attributeLines]
    split
    · exact hrest st hst
    · refine .bind hargs fun fs => .step <| .last (hrest _ (hst.write rfl)) fun rest => ?_
      cases args <;> simp [String.append_assoc]

theorem renders_parameters {scope : Scope} : ∀ params : List Parameter,
    Renders .nextLine (fun st fs => fs.map st.render) (emitParameters env scope params)
      (parameters env scope params)
  | [], _, _ => .pure rfl
  | ⟨name, type, default⟩ :: params, st, hst =>
    .lift fun spelling => .bind (renders_exprOption default st hst) fun o =>
      .bind (renders_parameters params st hst) fun fs => .pure (by simp [String.append_assoc])

/-- The same of a function behind a prologue. -/
theorem adds_function {scope : Scope} (options : FunctionOptions)
    {prologue : Scope → Emit Unit} {prologue' : Scope → Gen (List Code)}
    (hprologue : ∀ scope, Adds none (prologue scope) (prologue' scope)) : ∀ decl : Function,
    Adds none (emitFunction env scope options prologue decl)
      (function env scope options prologue' decl)
  | ⟨name, params, returnType, generics, modifiers, attributes, body, isConstructor, isStatic⟩,
      st, hst => by
    rw [emitFunction, function]
    refine .lift fun skipped => ?_
    split
    · exact .pure (by simp)
    split
    · exact .report (by simp)
    refine .bind (adds_attributes none attributes hst) fun lines => ?_
    have hlines := hst.wrote lines
    refine .bind (renders_parameters params _ hlines.braces_eq) fun fs => ?_
    -- The kinds of functions differ in the text around the parameters.
    dsimp -zeta only
    extract_lets +lift shown words finish named shown' finish' named'
    have hfinish : ∀ (head : Fragment) (s : String), s = (st.wrote lines).render head →
        Follows (st.wrote lines) (finish s) (finish' head) fun code => ((), st.wrote code) :=
      fun head s hs => .last (adds_functionBody hprologue body hlines hs) fun code => by simp
    have hnamed : ∀ returns, Follows (st.wrote lines) (named returns) (named' returns)
        fun code => ((), st.wrote code) := fun returns =>
      .lift fun clauses => hfinish _ _ (by simp [shown, words, shown', String.append_assoc])
    split
    · exact hfinish _ _ (by simp [shown, words, shown', String.append_assoc])
    · cases options.returns with
      | some returns => exact hnamed returns
      | none => exact .lift hnamed

theorem adds_functionBody {scope : Scope} {prologue : Scope → Emit Unit}
    {prologue' : Scope → Gen (List Code)}
    (hprologue : ∀ scope, Adds none (prologue scope) (prologue' scope)) {head : Fragment}
    {shown : String} :
    ∀ (body : Option (List Stmt)) {st : Emitter}, Fits none st → shown = st.render head →
      Follows st (emitFunctionBody env scope prologue shown body)
        (functionBody env scope prologue' head body) fun code => ((), st.wrote code)
  | none, st, hst, hshown => .done (by simp [hshown])
  | some body, st, hst, hshown =>
    .step <| .bind (hprologue scope (hst.openBlock _)) fun before =>
      .bind (adds_stmts none body ((hst.openBlock _).wrote before)) fun code => .done (by
        rw [Emitter.wrote_cons, Emitter.wrote_nil, hst.wroteOne_function, Emitter.wrote_append,
          hshown])

end

end CSharp

end SourceGen
