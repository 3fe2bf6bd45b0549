import SourceGen.Proofs.Emission
import SourceGen.Rust.Emit.Body

/-!
# Emitted Rust bodies

The emitter of Rust bodies follows the generator, in every state in which an opening brace stands
behind its header. First come the parts that have no expressions or statements of their own to
write, then one induction over the tree.

## Main definitions

* `Rust.Adds`: the emitter writes what the generator yields.

## Main results

* `Rust.renders_expr`: an expression is rendered, and the state is unchanged.
* `Rust.adds_stmt`, `Rust.adds_stmts`: statements are written behind what is there.
* `Rust.adds_function`: functions are.
-/

namespace SourceGen

namespace Rust

open Emit (Follows Renders)
open Fragment (text)

variable {env : Env} {place : Place} {st : Emitter}

/-- In every state with this layout of braces the emitter writes what the generator yields. -/
def Adds (x : Emit Unit) (y : Gen (List Code)) : Prop :=
  ∀ ⦃st : Emitter⦄, st.out.style = .sameLine → Follows st x y fun code => ((), st.put code)

/-! ### States with braces behind headers -/

/-- The layout of braces is part of the layout. -/
theorem style_eq {b b' : Buffer} (h : b'.layout = b.layout) (hb : b.style = .sameLine) :
    b'.style = .sameLine :=
  (congrArg LayoutStyle.braces h).trans hb

/-- A line with a brace at its end opens a block. -/
theorem indent_line (hst : st.out.style = .sameLine) (s : String) :
    (st.write (·.line (s ++ " \x7b"))).indent = st.write (·.openBlock s) := by
  have hopen : st.out.openBlock s = (st.out.line (s ++ " \x7b")).indent := by
    rw [Buffer.openBlock, hst]
  exact congrArg (fun out => { st with out }) hopen.symm

section Sequences

variable {x x' : Emit Unit} {y y' : Gen (List Code)}

theorem Adds.nil : Adds (pure ()) (pure []) := fun _ _ => .pure rfl

/-- One piece of code behind the other. -/
theorem Adds.append (hx : Adds x y) (hx' : Adds x' y') :
    Adds (x >>= fun _ => x') (y >>= fun code => y' >>= fun rest => pure (code ++ rest)) :=
  fun _ hst => .bind (hx hst) fun code =>
    .last (hx' (style_eq (Emitter.layout_put code) hst)) fun rest => by simp

/-- The braces of a block are written around its body. -/
theorem follows_block (role : BlockRole) {shown : String} {header : Fragment} (suffix : String)
    (hst : st.out.style = .sameLine) (hheader : shown = st.render header) (hx : Adds x y) :
    Follows st (Emit.openBlock shown >>= fun _ => x >>= fun _ => Emit.closeBlock suffix)
      (y >>= fun code => pure [.block role header code suffix]) fun code => ((), st.put code) :=
  .step <| .bind (hx (style_eq (Buffer.layout_openBlock _ _) hst)) fun code =>
    .done (by simp [hheader])

end Sequences

/-! ### Parts of expressions -/

/-- Parentheses are decided by the syntax, before or after rendering. -/
@[simp] theorem render_grouped (e : Expr) (f : Fragment) :
    st.render (grouped e f) = groupedSpelling e (st.render f) := by
  unfold grouped groupedSpelling
  split
  · exact Emitter.render_parens f
  · rfl

@[simp] theorem render_owned (e : Expr) (f : Fragment) :
    st.render (owned e f) = ownedSpelling e (st.render f) := by
  unfold owned ownedSpelling
  split <;> simp

@[simp] theorem render_chainable (f : Fragment) :
    st.render (chainable f) = chainableSpelling (st.render f) := by
  unfold chainable chainableSpelling
  rw [Emitter.all_toList_render rfl]
  split
  · rfl
  · exact Emitter.render_parens f

@[simp] theorem render_unaryText (op : Token) (trailing : Bool) (inner : Fragment) :
    st.render (unaryText op trailing inner) = unarySpelling op trailing (st.render inner) := by
  unfold unaryText unarySpelling
  split
  · split <;> simp [String.append_assoc]
  · split <;> simp

/-- A binary expression is the same text over its rendered operands. -/
@[simp] theorem render_binaryText (left : Expr) (op : Token) (l r : Fragment) :
    st.render (binaryText left op l r) =
      binarySpelling left op (st.render l) (st.render r) := by
  unfold binaryText binarySpelling
  split
  · simp [String.append_assoc]
  · split
    · simp [String.append_assoc]
    · split <;> simp [String.append_assoc]

/-- A builtin call is the same text over its rendered arguments. -/
@[simp] theorem render_builtinCall (fn : Builtin) (argCount : Nat) (args : Fragment) :
    st.render (builtinCall fn argCount args) =
      builtinSpelling fn argCount (st.render args) := by
  unfold builtinCall builtinSpelling
  cases fn with
  | print =>
    dsimp only
    split <;> simp [String.append_assoc]
  | len | str | abs | min | max | sqrt => simp [String.append_assoc]

@[simp] theorem render_subjectText (e : Expr) (patterns : List Pattern) (f : Fragment) :
    st.render (subjectText e patterns f) = subjectSpelling e patterns (st.render f) := by
  unfold subjectText subjectSpelling
  split <;> simp

@[simp] theorem render_returned (e : Expr) (f : Fragment) :
    st.render (returned e f) = returnedSpelling e (st.render f) := by
  cases e with
  | member object name =>
    dsimp only [returned, returnedSpelling]
    split <;> simp
  | _ => exact render_owned _ f

@[simp] theorem render_iterated (e : Expr) (f : Fragment) :
    st.render (iterated e f) = iteratedSpelling e (st.render f) := by
  unfold iterated iteratedSpelling
  split <;> simp

/-- The state with the fragment rendered. -/
abbrev Rendered (st : Emitter) (f : Fragment) : String × Emitter :=
  (st.render f, st)

/-- A member of a type is reached without the object. -/
theorem follows_member {object : Expr} {name : String} {x : Emit String} {y : Gen Fragment}
    (hobject : Follows st x y (Rendered st)) :
    Follows st
      (match typeName? env object with
      | some type => pure (ident type ++ "::" ++ ident name)
      | none => x >>= fun s => pure (groupedSpelling object s ++ "." ++ ident name))
      (match typeName? env object with
      | some type => pure (text (ident type ++ "::" ++ ident name))
      | none => y >>= fun f => pure (grouped object f ++ text ("." ++ ident name)))
      (Rendered st) := by
  cases typeName? env object with
  | some type => exact .pure (by simp)
  | none => exact .bind hobject fun f => .pure (by simp [String.append_assoc])

/-- The arguments of a builtin are borrowed, those of anything else are owned. -/
theorem follows_namedCall {name : String} {argCount : Nat} {x x' : Emit (List String)}
    {y y' : Gen (List Fragment)} (hplain : Follows st x y fun fs => (fs.map st.render, st))
    (howned : Follows st x' y' fun fs => (fs.map st.render, st)) :
    Follows st
      (match Callee.of (.ident name) with
      | .builtin fn _ => x >>= fun args =>
        pure (builtinSpelling fn argCount (Text.join ", " args))
      | _ => x' >>= fun args => pure (ident name ++ "(" ++ Text.join ", " args ++ ")"))
      (match Callee.of (.ident name) with
      | .builtin fn _ => y >>= fun fs => pure (builtinCall fn argCount (Fragment.join ", " fs))
      | _ => y' >>= fun fs =>
        pure (text (ident name ++ "(") ++ Fragment.join ", " fs ++ text ")"))
      (Rendered st) := by
  cases Callee.of (.ident name) with
  | builtin fn _ => exact .bind hplain fun fs => .pure (by simp)
  | _ => exact .bind howned fun fs => .pure (by simp [String.append_assoc])

/-- A method call renders its receiver before its arguments. -/
theorem follows_methodCall {receiver : Expr} {name : String} {x : Emit String} {y : Gen Fragment}
    {z : Emit (List String)} {z' : Gen (List Fragment)}
    (hreceiver : Follows st x y (Rendered st))
    (hargs : Follows st z z' fun fs => (fs.map st.render, st)) :
    Follows st
      (match typeName? env receiver with
      | some type => pure (ident type ++ "::" ++ ident name ++ "(") >>= fun head =>
        z >>= fun args => pure (head ++ Text.join ", " args ++ ")")
      | none => x >>= fun s =>
        pure (groupedSpelling receiver s ++ "." ++ ident name ++ "(") >>= fun head =>
        z >>= fun args => pure (head ++ Text.join ", " args ++ ")"))
      (match typeName? env receiver with
      | some type => pure (text (ident type ++ "::" ++ ident name ++ "(")) >>= fun head =>
        z' >>= fun fs => pure (head ++ Fragment.join ", " fs ++ text ")")
      | none => y >>= fun f =>
        pure (grouped receiver f ++ text ("." ++ ident name ++ "(")) >>= fun head =>
        z' >>= fun fs => pure (head ++ Fragment.join ", " fs ++ text ")"))
      (Rendered st) := by
  have hrest (head : Fragment) : Follows st
      (z >>= fun args => pure (st.render head ++ Text.join ", " args ++ ")"))
      (z' >>= fun fs => pure (head ++ Fragment.join ", " fs ++ text ")")) (Rendered st) :=
    .bind hargs fun fs => .pure (by simp [String.append_assoc])
  cases typeName? env receiver with
  | some type => exact .bind (r := Rendered st) (.pure (by simp)) hrest
  | none =>
    exact .bind hreceiver fun f =>
      .bind (r := Rendered st) (.pure (by simp [String.append_assoc])) hrest

theorem follows_arrayLiteral {scope : Scope} (isEmpty : Bool) (items : Fragment)
    (elementType : Option TypeRef) :
    Follows st (emitArray env scope isEmpty (st.render items) elementType)
      (arrayLiteral env scope isEmpty items elementType) (Rendered st) := by
  unfold emitArray arrayLiteral
  cases elementType with
  | none =>
    cases isEmpty with
    | true => exact .pure (by simp)
    | false => exact .pure (by simp [String.append_assoc])
  | some type =>
    refine .lift fun spelling => ?_
    cases isEmpty with
    | true => exact .pure (by simp)
    | false => exact .pure (by simp [String.append_assoc])

/-- Code is written to the side, for use in a line. -/
theorem renders_emitBraced (role : NestedRole) {x : Emit Unit} {y : Gen (List Code)}
    (hx : Adds x y) :
    Renders .sameLine (fun st code => st.render [.nested role code]) (emitBraced x) y := by
  intro st hst
  have hinner : Follows st.aside x y fun code => ((), st.aside.put code) := hx hst
  refine hinner.capture.finish fun code => ?_
  dsimp only
  rw [Emitter.render_nested]
  rfl

/-- The arms are rendered one level deeper than the expression. -/
theorem follows_arms (subject : Fragment) (patterns : List Pattern) {arms : Emit (List String)}
    {y : Gen (List Fragment)} (hst : st.out.style = .sameLine)
    (harms : Renders .sameLine (fun st fs => fs.map st.render) arms y) :
    Follows st (emitArms (st.render subject) patterns arms)
      (y >>= fun fs => pure (text "match " ++ subject ++ [.arms (fs ++
        if Pattern.anyDefault patterns then [] else [text "_ => unreachable!()"])]))
      (Rendered st) := by
  refine .take <| .take <|
    .bind (Follows.deeper (harms { st with nesting := st.nesting + 1 } hst)) fun fs => .pure ?_
  have hrest : (if Pattern.anyDefault patterns then [] else [text "_ => unreachable!()"]).map
      { st with nesting := st.nesting + 1 }.render =
        if Pattern.anyDefault patterns then [] else ["_ => unreachable!()"] := by
    split <;> simp
  have hlines := st.render_arms_sameLine (fs ++
    if Pattern.anyDefault patterns then [] else [text "_ => unreachable!()"]) hst
  rw [← Function.comp_def (fun arm => st.margin 1 ++ arm ++ ",\n"), ← List.map_map, List.map_append,
    hrest] at hlines
  simp only [Rendered, Emitter.render_append, Emitter.render_text, hlines, String.append_assoc]

/-! ### Parts of statements -/

/-- A match opens a block, writes its arms and closes it. -/
theorem follows_match {x : Emit Unit} {y : Gen (List Code)} {shown : String} {subject : Fragment}
    {patterns : List Pattern} (hst : st.out.style = .sameLine)
    (hsubject : shown = st.render subject) (hx : Adds x y) :
    Follows st (emitMatch shown patterns x)
      (y >>= fun arms => pure [matchCode subject patterns arms])
      fun code => ((), st.put code) := by
  refine .step <| .bind (hx (style_eq (Buffer.layout_openBlock _ _) hst)) fun code =>
    .step <| .done ?_
  unfold matchCode
  rw [hsubject]
  split <;> simp

/-- The braces around a counted loop are closed behind it. -/
theorem follows_countedLoop {header : Emit String} {header' : Gen Fragment}
    {body : Option Nat → Emit Unit} {body' : Option Nat → Gen (List Code)} {step : Emit Unit}
    {step' : Gen (List Code)} (labelled : Bool) (hst : st.out.style = .sameLine)
    (hheader : Renders .sameLine Emitter.render header header')
    (hbody : ∀ label, Adds (body label) (body' label)) (hstep : Adds step step')
    {outer : Emitter} (first : List Code) (braced : Bool)
    (houter : ∀ loop, (if braced then (st.putOne loop).closeBlock "" else st.putOne loop) =
      outer.put (if braced then [.braces (first ++ [loop])] else [loop])) :
    Follows st
      (emitCountedLoop header labelled body step >>= fun _ => Emit.closeBraces braced)
      (do
        let header ← header'
        let inner : List Code ←
          if labelled then do
            let label ← Gen.freshLabel
            let code ← body' (some label)
            pure [.block (.labelled label) (text ("'body_" ++ toString label ++ ":")) code ""]
          else body' none
        let last ← step'
        let loop : Code := .block (.loop none) header (inner ++ last) ""
        return if braced then [.braces (first ++ [loop])] else [loop])
      fun code => ((), outer.put code) := by
  unfold emitCountedLoop
  simp only [bind_assoc]
  refine .bind (hheader st hst) fun f => .step ?_
  let opened := st.write (·.openBlock (st.render f))
  have hopened : opened.out.style = .sameLine := style_eq (Buffer.layout_openBlock _ _) hst
  -- With a label or without, the step is written behind the body and the loop is closed.
  have hrest (inner : List Code) : Follows (opened.put inner)
      (step >>= fun _ => Emit.closeBlock "" >>= fun _ => Emit.closeBraces braced)
      (step' >>= fun last => pure (if braced
        then [.braces (first ++ [.block (.loop none) f (inner ++ last) ""])]
        else [.block (.loop none) f (inner ++ last) ""]))
      fun code => ((), outer.put code) := by
    refine .bind (hstep (style_eq (Emitter.layout_put inner) hopened)) fun last => .step <| .done ?_
    rw [← houter, Emitter.putOne_block, Emitter.put_append]
  cases labelled with
  | false =>
    simp only [Bool.false_eq_true, if_false, bind_assoc]
    exact .bind (hbody none hopened) hrest
  | true =>
    simp only [if_true, bind_assoc]
    refine .lift fun label => .step <|
      .bind (hbody (some label) (style_eq (Buffer.layout_openBlock _ _) hopened)) fun code =>
      .step ?_
    simpa using hrest [.block (.labelled label) (text ("'body_" ++ toString label ++ ":")) code ""]

/-- Another branch is written from the end of the one before. -/
theorem follows_elseBlock {x : Emit Unit} {y : Gen (List Code)} (hst : st.out.style = .sameLine)
    (hlevel : 0 < st.out.level) (hx : Adds x y) :
    Follows st
      (Emit.dedent >>= fun _ => Emit.line "\x7d else \x7b" >>= fun _ => Emit.indent >>= fun _ => x)
      (y >>= fun code => pure [.mk (text "else") code])
      fun branches => ((), st.putBranches branches) :=
  .step <| .step <| .step <| .last (hx hst) fun code => by
    rw [Emitter.putBranches_cons hlevel, Emitter.render_text]
    rfl

/-! ### The induction over the tree -/

mutual

/-- The emitter returns the text of the tree of an expression, by induction on its syntax. -/
theorem renders_expr {place : Place} {position : Position} : ∀ e : Expr,
    Renders .sameLine Emitter.render (emitExpr env place position e) (expr env place position e)
  | .literal _, _, _ | .ident _, _, _ | .path _, _, _ => .pure (by simp)
  | .this, _, _ => .pure (by simp)
  | .member object name, st, hst => follows_member (renders_expr object st hst)
  | .index object i, st, hst =>
    .bind (renders_expr object st hst) fun f => .bind (renders_expr i st hst) fun g =>
      .pure (by simp [String.append_assoc])
  | .binary left op right, st, hst =>
    .bind (renders_expr left st hst) fun f => .bind (renders_expr right st hst) fun g =>
      .pure (by simp)
  | .unary op operand trailing, st, hst => by
    refine .bind (renders_expr operand st hst) fun f => ?_
    dsimp only
    split
    · exact .pure (by simp)
    · exact .pure (by simp)
  | .assign target _ value, st, hst =>
    .bind (renders_expr target st hst) fun f => .bind (renders_expr value st hst) fun g =>
      .pure (by simp [String.append_assoc])
  | .call callee args, st, hst => by
    have hargs : Follows st (emitOwnedExprs env place args) (ownedExprs env place args)
        fun fs => (fs.map st.render, st) := renders_ownedExprs args st hst
    have hplain : Follows st (emitExprs env place args) (exprs env place args)
        fun fs => (fs.map st.render, st) := renders_exprs args st hst
    have hcallee : Follows st (emitExpr env place .value callee) (expr env place .value callee)
        (Rendered st) := renders_expr callee st hst
    cases callee with
    | ident name => exact follows_namedCall hplain hargs
    | path parts => exact .bind hargs fun fs => .pure (by simp [String.append_assoc])
    | member receiver name =>
      exact follows_methodCall (renders_expr receiver st hst) hargs
    | _ =>
      exact .bind hcallee fun f => .bind hargs fun fs =>
        .pure (by simp [-String.reduceAppend, String.append_assoc])
  | .construct type args, st, hst =>
    .lift fun spelling => .bind (renders_ownedExprs args st hst) fun fs =>
      .pure (by simp [String.append_assoc])
  | .array elements elementType, st, hst =>
    .bind (renders_ownedExprs elements st hst) fun fs => by
      have h : Follows st (emitArray env place.toScope elements.isEmpty
          (st.render (Fragment.join ", " fs)) elementType) _ (Rendered st) :=
        follows_arrayLiteral elements.isEmpty _ elementType
      rwa [Emitter.render_join] at h
  | .lambda params (.expr value), st, hst =>
    .lift fun head => .bind (renders_expr value st hst) fun f =>
      .pure (by simp [String.append_assoc])
  | .lambda params (.block block), st, hst =>
    .lift fun head => .bind (renders_emitBraced .closure (adds_stmts block) st hst) fun code =>
      .pure (by simp [String.append_assoc])
  | .range start stop inclusive, st, hst => by
    refine .bind (renders_operandOption start st hst) fun first =>
      .bind (renders_operandOption stop st hst) fun last => ?_
    cases last with
    | none => exact .pure (by simp [Emitter.render_getD])
    | some last => exact .pure (by simp [Emitter.render_getD, String.append_assoc])
  | .block block, st, hst =>
    .last (renders_emitBraced .value (adds_valueBlock block) st hst) fun code => rfl
  | .matchOn scrutinee arms, st, hst =>
    .bind (renders_expr scrutinee st hst) fun f => by
      have harms : Renders .sameLine (fun st fs => fs.map st.render)
        (emitMatchArms env place arms) (matchArms env place arms) := renders_matchArms arms
      have h := follows_arms (subjectText scrutinee (arms.map (·.pattern)) f)
        (arms.map (·.pattern)) hst harms
      rwa [render_subjectText] at h

theorem renders_exprs {place : Place} : ∀ es : List Expr,
    Renders .sameLine (fun st fs => fs.map st.render) (emitExprs env place es) (exprs env place es)
  | [], _, _ => .pure rfl
  | e :: es, st, hst =>
    .bind (renders_expr e st hst) fun _ => .bind (renders_exprs es st hst) fun _ => .pure rfl

theorem renders_ownedExprs {place : Place} : ∀ es : List Expr,
    Renders .sameLine (fun st fs => fs.map st.render) (emitOwnedExprs env place es)
      (ownedExprs env place es)
  | [], _, _ => .pure rfl
  | e :: es, st, hst =>
    .bind (renders_expr e st hst) fun _ => .bind (renders_ownedExprs es st hst) fun _ =>
      .pure (by simp)

theorem renders_operandOption {place : Place} : ∀ e : Option Expr,
    Renders .sameLine (fun st o => o.map st.render) (emitOperandOption env place e)
      (operandOption env place e)
  | none, _, _ => .pure rfl
  | some e, st, hst => .bind (renders_expr e st hst) fun _ => .pure (by simp)

theorem renders_ownedOption {place : Place} : ∀ e : Option Expr,
    Renders .sameLine (fun st o => o.map st.render) (emitOwnedOption env place e)
      (ownedOption env place e)
  | none, _, _ => .pure rfl
  | some e, st, hst => .bind (renders_expr e st hst) fun _ => .pure (by simp)

/-- The emitter writes the tree of a block that is a value. -/
theorem adds_valueBlock {place : Place} : ∀ block : List Stmt,
    Adds (emitValueBlock env place block) (valueBlock env place block)
  | [], _, _ => .pure (by simp)
  | [s], st, hst => by
    have hs : Adds (emitStmt env place s) (stmt env place s) := adds_stmt s
    cases s with
    | expr value =>
      have hvalue (position : Position) : Follows st (emitExpr env place position value)
          (expr env place position value) (Rendered st) := renders_expr value st hst
      rw [emitValueBlock, valueBlock]
      split
      · exact .bind (hvalue .statement) fun f => .done (by simp)
      · exact .bind (hvalue .value) fun f => .done (by simp)
    | _ => exact hs.append .nil hst
  | s :: s' :: ss, st, hst => by
    have hs : Adds (emitStmt env place s) (stmt env place s) := adds_stmt s
    have hss : Adds (emitValueBlock env place (s' :: ss)) (valueBlock env place (s' :: ss)) :=
      adds_valueBlock (s' :: ss)
    cases s <;> exact hs.append hss hst

theorem renders_matchArms {place : Place} : ∀ arms : List MatchArm,
    Renders .sameLine (fun st fs => fs.map st.render) (emitMatchArms env place arms)
      (matchArms env place arms)
  | [], _, _ => .pure rfl
  | ⟨pattern, .expr value⟩ :: arms, st, hst =>
    .bind (renders_armPattern pattern st hst) fun f => .bind (renders_expr value st hst) fun g =>
      .bind (renders_matchArms arms st hst) fun fs => .pure (by simp [String.append_assoc])
  | ⟨pattern, .block block⟩ :: arms, st, hst => by
    have hblock : Adds
        (do
          emitStmts env place.closure block
          Emit.lineUnless (Stmt.endsWithReturn block) "return Default::default();")
        (stmts env place.closure block >>= fun code =>
          pure (if Stmt.endsWithReturn block then code
            else code ++ [.text "return Default::default();"])) :=
      fun st hst => .bind (adds_stmts block hst) fun code => .done (by split <;> simp)
    refine .bind (renders_armPattern pattern st hst) fun f => ?_
    have h : Follows st
        (emitBraced _ >>= fun result => emitMatchArms env place arms >>= fun shown =>
          pure ((st.render f ++ " => (|| " ++ result ++ ")()") :: shown))
        (_ >>= fun code => matchArms env place arms >>= fun fs =>
          pure ((f ++ text " => (|| " ++ [.nested .closure code] ++ text ")()") :: fs))
        fun fs => (fs.map st.render, st) :=
      .bind (renders_emitBraced .closure hblock st hst) fun code =>
        .bind (renders_matchArms arms st hst) fun fs =>
        .pure (by simp only [Emitter.render_append, Emitter.render_text, List.map_cons])
    simpa only [bind_assoc, pure_bind] using h

theorem renders_armPattern {place : Place} : ∀ pattern : Pattern,
    Renders .sameLine Emitter.render (emitPattern env place pattern) (armPattern env place pattern)
  | .default, _, _ => .pure (by simp)
  | .values values, st, hst => .bind (renders_exprs values st hst) fun fs => .pure (by simp)

/-- The emitter writes the tree of a block. -/
theorem adds_stmts {place : Place} : ∀ ss : List Stmt,
    Adds (emitStmts env place ss) (stmts env place ss)
  | [], _, hst => Adds.nil hst
  | s :: ss, _, hst => (adds_stmt s).append (adds_stmts ss) hst

/-- The emitter writes the tree of a statement. -/
theorem adds_stmt {place : Place} : ∀ s : Stmt,
    Adds (emitStmt env place s) (stmt env place s)
  | .binding b, st, hst => .bind (renders_binding b st hst) fun f => .done (by simp)
  | .ifThen condition thenBranch elseBranch, st, hst =>
    .bind (renders_expr condition st hst) fun f => .step <|
      .bind (adds_stmts thenBranch (style_eq (Buffer.layout_openBlock _ _) hst)) fun code => by
      have hopen : 0 < ((st.write (·.openBlock ("if " ++ st.render f))).put code).out.level := by
        simp
      exact .bind (follows_elseChain elseBranch (style_eq (by simp) hst) hopen) fun branches =>
        .done (by simp)
  | .whileLoop condition body, st, hst =>
    .bind (renders_expr condition st hst) fun f =>
      follows_block _ "" hst (by simp) (adds_stmts body)
  | .forLoop start condition step body, st, hst => by
    have hbody : ∀ label, Adds (emitStmts env (place.inLoop label) body)
        (stmts env (place.inLoop label) body) := fun label => adds_stmts body
    have hheader : Renders .sameLine Emitter.render (emitLoopHeader env place condition)
        (loopHeader env place condition) := renders_loopHeader condition
    have hstep : Adds (emitStep env place step) (stepLine env place step) := adds_stepLine step
    cases start with
    | none =>
      exact .step <| .bind (r := fun _ => ((), st)) (.pure rfl) fun first =>
        follows_countedLoop _ hst hheader hbody hstep first false fun loop => rfl
    | some start =>
      have hopen : ((st.write (·.line "\x7b")).indent).out.style = .sameLine := hst
      exact .step <| .bind (adds_forClause (some start) hopen) fun first =>
        follows_countedLoop _ (style_eq (Emitter.layout_put first) hopen) hheader hbody hstep
          first true fun loop => by simp
  | .forEach name _ iterable body, st, hst =>
    .bind (renders_expr iterable st hst) fun f =>
      follows_block _ "" hst (by simp [String.append_assoc]) (adds_stmts body)
  | .ret none, _, _ => .done (by simp)
  | .ret (some value), st, hst =>
    .bind (renders_expr value st hst) fun f => .done (by simp [String.append_assoc])
  | .breakLoop, _, _ => .done rfl
  | .continueLoop, _, _ => .done rfl
  | .matchOn scrutinee arms, st, hst =>
    .bind (renders_expr scrutinee st hst) fun f =>
      follows_match hst (render_subjectText ..).symm (adds_matchCases arms)
  | .expr value, st, hst => by
    have hvalue : Follows st (emitExpr env place .statement value)
        (expr env place .statement value) (Rendered st) := renders_expr value st hst
    cases value with
    | matchOn scrutinee arms =>
      exact .bind (renders_expr scrutinee st hst) fun f =>
        follows_match hst (render_subjectText ..).symm (adds_matchCases arms)
    | _ => exact .bind hvalue fun f => .done (by simp)
  | .switchOn subject cases, st, hst =>
    .bind (renders_expr subject st hst) fun f =>
      follows_match hst (render_subjectText ..).symm (adds_switchCases cases)
  | .raw block, _, _ => target.follows_rawCode block
  | .functionDecl _ decl, st, hst =>
    .step <| .last (adds_function _ (fun _ _ _ => .pure rfl) decl
      (style_eq st.out.layout_separator hst)) fun code => by simp
  | .typeDecl _ _, _, _ | .enumDecl _, _, _ => .fail
  | .importDecl _, _, _ | .includeDecl _ _, _, _ | .aliasDecl _, _, _ | .namespaceDecl _ _, _, _
  | .moduleDecl _, _, _ | .fieldDecl _, _, _ | .propertyDecl _, _, _ => .report rfl

theorem renders_binding {place : Place} {forceMutable : Bool} : ∀ b : Binding,
    Renders .sameLine Emitter.render (emitBinding env place forceMutable b)
      (binding env place forceMutable b)
  | ⟨name, type, value, mutability⟩, st, hst =>
    .lift fun spelling => .bind (renders_ownedOption value st hst) fun o => .pure (by simp)

theorem adds_forClause {place : Place} : ∀ start : Option Stmt,
    Adds (emitForClause env place start) (forClause env place start)
  | none, _, _ => .pure rfl
  | some s, st, hst => by
    cases s with
    | binding b => exact .bind (renders_binding b st hst) fun f => .done (by simp)
    | expr value => exact .bind (renders_expr value st hst) fun f => .done (by simp)
    | _ => exact .report rfl

theorem renders_loopHeader {place : Place} : ∀ condition : Option Expr,
    Renders .sameLine Emitter.render (emitLoopHeader env place condition)
      (loopHeader env place condition)
  | none, _, _ => .pure (by simp)
  | some condition, st, hst => .bind (renders_expr condition st hst) fun f => .pure (by simp)

theorem adds_stepLine {place : Place} : ∀ step : Option Expr,
    Adds (emitStep env place step) (stepLine env place step)
  | none, _, _ => .pure rfl
  | some step, st, hst => .bind (renders_expr step st hst) fun f => .done (by simp)

/-- A branch starts inside of the block of the one before. -/
theorem follows_elseChain {place : Place} : ∀ (elseBranch : Option (List Stmt)) {st : Emitter},
    st.out.style = .sameLine → 0 < st.out.level →
      Follows st (emitElseChain env place elseBranch) (elseChain env place elseBranch)
        fun branches => ((), st.putBranches branches)
  | none, _, _, _ => .pure rfl
  | some [], _, hst, hlevel => follows_elseBlock hst hlevel (adds_stmts [])
  | some [s], st, hst, hlevel => by
    -- An `if` alone continues the chain; any other statement is a block of its own.
    have hs : Adds (emitStmts env place [s]) (stmts env place [s]) := adds_stmts [s]
    cases s with
    | ifThen condition thenBranch elseBranch =>
      refine .step <| .bind (renders_expr condition st.dedent hst) fun f => .step <| .step <|
        .bind (adds_stmts thenBranch hst) fun code =>
        .last (follows_elseChain elseBranch (style_eq (Emitter.layout_put code) hst) ?_)
          fun branches => ?_
      · simp
      · rw [Emitter.putBranches_cons hlevel, Emitter.render_append, Emitter.render_text,
          ← String.append_assoc]
        rfl
    | _ => exact follows_elseBlock hst hlevel hs
  | some (s :: s' :: ss), _, hst, hlevel => by
    have hss : Adds (emitStmts env place (s :: s' :: ss)) (stmts env place (s :: s' :: ss)) :=
      adds_stmts (s :: s' :: ss)
    cases s <;> exact follows_elseBlock hst hlevel hss

theorem adds_matchCases {place : Place} : ∀ arms : List MatchArm,
    Adds (emitMatchCases env place arms) (matchCases env place arms)
  | [], _, _ => .pure rfl
  | ⟨pattern, .expr value⟩ :: arms, st, hst => by
    refine .bind (renders_armPattern pattern st hst) fun f =>
      .bind (renders_expr value st hst) fun g => .step <| .step <| .step <| .step ?_
    have hheader : st.render f ++ " => \x7b" = st.render f ++ " =>" ++ " \x7b" := by
      rw [String.append_assoc]
      rfl
    rw [hheader, indent_line hst]
    exact .last (adds_matchCases arms (style_eq (by simp) hst)) fun rest => by simp
  | ⟨pattern, .block block⟩ :: arms, st, hst => by
    refine .bind (renders_armPattern pattern st hst) fun f => .step <|
      .bind (adds_stmts block (style_eq (Buffer.layout_openBlock _ _) hst)) fun code => .step <|
      .last (adds_matchCases arms (style_eq (by simp) hst)) fun rest => by simp

theorem adds_switchCases {place : Place} : ∀ cases : List SwitchCase,
    Adds (emitSwitchCases env place cases) (switchCases env place cases)
  | [], _, _ => .pure rfl
  | ⟨pattern, block⟩ :: cases, st, hst => by
    refine .bind (renders_armPattern pattern st hst) fun f => .step <|
      .bind (adds_stmts block (style_eq (Buffer.layout_openBlock _ _) hst)) fun code => .step <|
      .last (adds_switchCases cases (style_eq (by simp) hst)) fun rest => by simp

theorem adds_attributes {place : Place} : ∀ attributes : List Attribute,
    Adds (emitAttributes env place attributes) (attributeLines env place attributes)
  | [], _, _ => .pure rfl
  | ⟨name, args⟩ :: attributes, st, hst => by
    have hrest : ∀ st : Emitter, st.out.style = .sameLine →
        Follows st (emitAttributes env place attributes) (attributeLines env place attributes)
          fun code => ((), st.put code) := fun st hst => adds_attributes attributes hst
    have hargs : Follows st (emitExprs env place args) (exprs env place args)
        fun fs => (fs.map st.render, st) := renders_exprs args st hst
    have hshown (fs : List Fragment) : st.render (if args.isEmpty then [] else
        [.apart (Fragment.parens (Fragment.join ", " fs))]) =
          if args.isEmpty then "" else "(" ++ Text.join ", " (fs.map st.render) ++ ")" := by
      split <;> simp
    rw [emitAttributes, attributeLines]
    split
    · exact hrest st hst
    refine .bind hargs fun fs => ?_
    dsimp only
    rw [← hshown]
    split
    · exact .step <| .last (hrest _ hst) fun rest => by simp [String.append_assoc]
    · exact .lift fun _ => .step <| .last (hrest _ hst) fun rest => by simp

/-- The emitter writes the tree of a function behind a prologue. -/
theorem adds_function {place : Place} (options : FunctionOptions)
    {prologue : Place → Emit Unit} {prologue' : Place → Gen (List Code)}
    (hprologue : ∀ place, Adds (prologue place) (prologue' place)) : ∀ decl : Function,
    Adds (emitFunction env place options prologue decl)
      (function env place options prologue' decl)
  | ⟨name, params, returnType, generics, _, attributes, body, _, _⟩, st, hst => by
    rw [emitFunction, function]
    refine .lift fun skipped => ?_
    split
    · exact .pure rfl
    split
    · exact .report rfl
    refine .bind (adds_attributes attributes hst) fun lines => .lift fun own => ?_
    extract_lets +lift finish shown finish'
    have hfinish : ∀ returns, Follows (st.put lines) (finish returns) (finish' returns)
        fun code => ((), st.put code) := fun returns =>
      .lift fun bounds => .last (adds_functionBody hprologue body
        (style_eq (Emitter.layout_put lines) hst)) fun code => by simp
    cases options.returns with
    | some returns => exact hfinish returns
    | none => exact .lift hfinish

theorem adds_functionBody {place : Place} {requireBody : Bool} {prologue : Place → Emit Unit}
    {prologue' : Place → Gen (List Code)}
    (hprologue : ∀ place, Adds (prologue place) (prologue' place)) {head : String} :
    ∀ body : Option (List Stmt),
      Adds (emitFunctionBody env place requireBody prologue head body)
        (functionBody env place requireBody prologue' head body)
  | none, st, hst => by
    rw [emitFunctionBody, functionBody]
    split
    · exact .step <| .step <| .done (by simp)
    · exact .done (by simp)
  | some body, st, hst => by
    have hopen : (st.write (·.openBlock head)).out.style = .sameLine :=
      style_eq (Buffer.layout_openBlock _ _) hst
    exact .step <| .bind (hprologue place hopen) fun before =>
      .bind (adds_stmts body (style_eq (Emitter.layout_put before) hopen)) fun code =>
      .done (by simp)

end

end Rust

end SourceGen
