import SourceGen.Rust.Body
import SourceGen.Proofs.Alike

/-!
# Runs over Rust bodies

Whether the generator fails on an expression, a statement or a function is decided by the events in
it. The imports that it requires come from types, so they are the same wherever the same types are
known; what the traits of the unit require does not matter.

## Main definitions

* `Rust.SameTypes`: two places where a type reference means the same.

## Main results

* `Rust.alike_expr`: runs over an expression.
* `Rust.alike_stmts`: runs over statements.
* `Rust.alike_function`: runs over a function.
-/

namespace SourceGen

namespace Rust

/-- A type reference means the same in both places. -/
structure SameTypes (env env' : Env) (scope scope' : Scope) : Prop where
  known : env.known = env'.known
  classGenerics : scope.classGenerics = scope'.classGenerics
  functionGenerics : scope.functionGenerics = scope'.functionGenerics

variable {env env' : Env} {scope scope' : Scope} {place place' : Place}

/-! ### Types -/

theorem SameTypes.generics (h : SameTypes env env' scope scope') :
    scope.generics = scope'.generics := by
  rw [Scope.generics, Scope.generics, h.classGenerics, h.functionGenerics]

mutual

theorem alike_mapNormal {known : KnownTypes} (h : scope.generics = scope'.generics) :
    ∀ type : TypeRef,
      Gen.Alike target [] (mapNormal known scope type) (mapNormal known scope' type)
  | ⟨name, args⟩ => by
    rw [mapNormal, mapNormal, h]
    split
    · exact .pure _ _
    · exact .pure _ _
    · refine .after (alike_mapNormalAll h args) fun _ _ => ?_
      split
      · exact .after (.requireImport _) fun _ _ => .pure _ _
      · exact .pure _ _
    · exact (alike_mapNormalAll h args).map _ _
    · exact (alike_mapNormalAll h args).map _ _
    · exact .after (.note rfl rfl rfl) fun _ _ => .pure _ _

theorem alike_mapNormalAll {known : KnownTypes} (h : scope.generics = scope'.generics) :
    ∀ types : List TypeRef,
      Gen.Alike target [] (mapNormalAll known scope types) (mapNormalAll known scope' types)
  | [] => by
    rw [mapNormalAll, mapNormalAll]
    exact .pure _ _
  | t :: ts => by
    rw [mapNormalAll, mapNormalAll]
    exact .after (alike_mapNormal h t) fun _ _ => (alike_mapNormalAll h ts).map _ _

end

/-- A type is mapped alike in scopes with the same generics. -/
theorem alike_mapType (h : SameTypes env env' scope scope') (type : TypeRef) :
    Gen.Alike target [] (mapType env.known scope type) (mapType env'.known scope' type) := by
  rw [← h.known]
  exact alike_mapNormal h.generics type.normalize

theorem alike_mapTypes (h : SameTypes env env' scope scope') (types : List TypeRef) :
    Gen.Alike target [] (mapTypes env.known scope types) (mapTypes env'.known scope' types) :=
  .mapM fun type _ => alike_mapType h type

/-! ### Parts of expressions and functions -/

/-- The same expressions name types. -/
theorem typeName?_eq (h : SameTypes env env' scope scope') (e : Expr) :
    typeName? env e = typeName? env' e := by
  cases e with
  | ident name => rw [typeName?, typeName?, h.known]
  | _ => rfl

/-- The name of a type has no events. -/
theorem events_of_typeName? {defaults : Bool} {e : Expr} {name : String}
    (h : typeName? env e = some name) : e.events defaults = [] := by
  cases e with
  | ident _ => rw [Expr.events]
  | _ => cases h

theorem alike_lambdaHead (h : SameTypes env env' scope scope') (params : List Parameter) :
    Gen.Alike target [] (lambdaHead env scope params) (lambdaHead env' scope' params) := by
  refine .after (.mapM fun p _ => ?_) fun _ _ => .pure _ _
  split
  · exact (alike_mapType h _).map _ _
  · exact .pure _ _

theorem alike_arrayLiteral (h : SameTypes env env' scope scope') (isEmpty : Bool)
    (items items' : Fragment) (elementType : Option TypeRef) :
    Gen.Alike target [] (arrayLiteral env scope isEmpty items elementType)
      (arrayLiteral env' scope' isEmpty items' elementType) := by
  cases elementType with
  | none =>
    cases isEmpty with
    | true => exact .pure _ _
    | false => exact .pure _ _
  | some type =>
    refine .after (alike_mapType h type) fun _ _ => ?_
    cases isEmpty with
    | true => exact .pure _ _
    | false => exact .pure _ _

/-- Inferring a type is no event. -/
theorem alike_inferredType (name : String) (value : Option Expr) :
    Gen.Alike target [] (inferredType name value) (inferredType name value) := by
  unfold inferredType
  extract_lets found
  cases found with
  | some type => exact .pure _ _
  | none =>
    exact .after (.note rfl rfl rfl) fun _ _ => .pure _ _

/-- A missing type is inferred alike. -/
theorem alike_typeOr (h : SameTypes env env' scope scope') (name : String)
    (type : Option TypeRef) (value : Option Expr) :
    Gen.Alike target [] (typeOr env scope name type value)
      (typeOr env' scope' name type value) := by
  cases type with
  | none => exact alike_inferredType name value
  | some type => exact alike_mapType h type

theorem alike_parameters (h : SameTypes env env' scope scope') (params : List Parameter) :
    Gen.Alike target [] (parameters env scope params) (parameters env' scope' params) := by
  induction params with
  | nil => exact .pure _ _
  | cons p ps ih =>
    rw [parameters, parameters]
    refine .after (alike_typeOr h _ _ _) fun _ _ => ?_
    split
    · exact .after (.note rfl rfl rfl) fun _ _ => ih.map _ _
    · exact ih.map _ _

theorem alike_genericParams (h : SameTypes env env' scope scope') (generics : List GenericParam) :
    Gen.Alike target [] (genericParams env scope generics)
      (genericParams env' scope' generics) := by
  refine .after (.mapM fun g _ => ?_) fun _ _ => .pure _ _
  split
  · exact .pure _ _
  · exact (alike_mapTypes h g.constraints).map _ _

theorem alike_returnSpelling (h : SameTypes env env' scope scope') (name : String)
    (declared : Option TypeRef) (body : Option (List Stmt)) :
    Gen.Alike target [] (returnSpelling env scope name declared body)
      (returnSpelling env' scope' name declared body) := by
  cases declared with
  | some type => exact alike_mapType h type
  | none =>
    rw [returnSpelling, returnSpelling]
    split
    · exact .after (.note rfl rfl rfl) fun _ _ => .pure _ _
    · exact .pure _ _

/-! ### The induction over the tree -/

mutual

/-- An expression is written alike where the same types are known, by induction on its syntax. -/
theorem alike_expr {place place' : Place}
    (h : SameTypes env env' place.toScope place'.toScope) (position : Position) :
    ∀ e : Expr,
      Gen.Alike target (e.events false) (expr env place position e) (expr env' place' position e)
  | .literal _ | .ident _ | .path _ | .this => by
    rw [Expr.events, expr, expr]
    exact .pure _ _
  | .member object _ => by
    rw [Expr.events, expr, expr, ← typeName?_eq h]
    split
    · rename_i htype
      rw [events_of_typeName? htype]
      exact .pure _ _
    · exact (alike_expr h .value object).map _ _
  | .index object i => by
    rw [Expr.events, expr, expr]
    exact .bind (alike_expr h .value object) fun _ _ => (alike_expr h .value i).map _ _
  | .binary left op right => by
    rw [Expr.events, expr, expr]
    exact .bind (alike_expr h .value left) fun _ _ => (alike_expr h .value right).map _ _
  | .unary op operand trailing => by
    rw [Expr.events, expr, expr, ← List.append_nil (operand.events false)]
    refine .bind (alike_expr h .value operand) fun _ _ => ?_
    split
    · exact .pure _ _
    · exact .pure _ _
  | .assign left _ value => by
    rw [Expr.events, expr, expr]
    exact .bind (alike_expr h .value left) fun _ _ => (alike_expr h .value value).map _ _
  | .call callee args => by
    have hargs := alike_ownedExprs h args
    have hcallee := alike_expr h .value callee
    rw [Expr.events]
    cases callee with
    | ident name =>
      rw [Expr.events, expr, expr]
      split
      · exact (alike_exprs h args).map _ _
      · exact hargs.map _ _
    | path parts =>
      rw [Expr.events, expr, expr]
      exact hargs.map _ _
    | member receiver name =>
      rw [Expr.events, expr, expr, ← typeName?_eq h]
      split
      · rename_i htype
        rw [events_of_typeName? htype]
        exact hargs.map _ _
      · exact .bind (alike_expr h .value receiver) fun _ _ => hargs.map _ _
    | _ =>
      simp only [expr]
      exact .bind hcallee fun _ _ => hargs.map _ _
  | .construct type args => by
    rw [Expr.events, expr, expr]
    exact .after (alike_mapType h type) fun _ _ => (alike_ownedExprs h args).map _ _
  | .array elements elementType => by
    rw [Expr.events, expr, expr, ← List.append_nil (Expr.allEvents false elements)]
    exact .bind (alike_ownedExprs h elements) fun _ _ => alike_arrayLiteral h _ _ _ _
  | .lambda params (.expr value) => by
    rw [Expr.events, Body.events, expr, expr]
    have hclosure : SameTypes env env' place.closure.toScope place'.closure.toScope := h
    exact .after (alike_lambdaHead h params) fun _ _ =>
      (alike_expr hclosure .value value).hide.map _ _
  | .lambda params (.block block) => by
    rw [Expr.events, Body.events, expr, expr]
    have hclosure : SameTypes env env' place.closure.toScope place'.closure.toScope := h
    exact .after (alike_lambdaHead h params) fun _ _ => (alike_stmts hclosure block).hide.map _ _
  | .range start stop inclusive => by
    rw [Expr.events, expr, expr, ← List.append_nil (Expr.optionEvents false stop)]
    refine .bind (alike_operandOption h start) fun _ _ => ?_
    refine .bind (alike_operandOption h stop) fun last last' => ?_
    cases last with
    | none =>
      cases last' with
      | none => exact .pure _ _
      | some _ => exact .pure _ _
    | some _ =>
      cases last' with
      | none => exact .pure _ _
      | some _ => exact .pure _ _
  | .block block => by
    rw [Expr.events, expr, expr]
    exact (alike_valueBlock h block).hide.map _ _
  | .matchOn scrutinee arms => by
    rw [Expr.events, expr, expr]
    exact .bind (alike_expr h .value scrutinee) fun _ _ => (alike_matchArms h arms).hide.map _ _

theorem alike_exprs {place place' : Place}
    (h : SameTypes env env' place.toScope place'.toScope) :
    ∀ es : List Expr,
      Gen.Alike target (Expr.allEvents false es) (exprs env place es) (exprs env' place' es)
  | [] => by
    rw [Expr.allEvents, exprs, exprs]
    exact .pure _ _
  | e :: es => by
    rw [Expr.allEvents, exprs, exprs]
    exact .bind (alike_expr h .value e) fun _ _ => (alike_exprs h es).map _ _

theorem alike_ownedExprs {place place' : Place}
    (h : SameTypes env env' place.toScope place'.toScope) :
    ∀ es : List Expr,
      Gen.Alike target (Expr.allEvents false es) (ownedExprs env place es)
        (ownedExprs env' place' es)
  | [] => by
    rw [Expr.allEvents, ownedExprs, ownedExprs]
    exact .pure _ _
  | e :: es => by
    rw [Expr.allEvents, ownedExprs, ownedExprs]
    exact .bind (alike_expr h .value e) fun _ _ => (alike_ownedExprs h es).map _ _

theorem alike_operandOption {place place' : Place}
    (h : SameTypes env env' place.toScope place'.toScope) :
    ∀ e : Option Expr,
      Gen.Alike target (Expr.optionEvents false e) (operandOption env place e)
        (operandOption env' place' e)
  | none => by
    rw [Expr.optionEvents, operandOption, operandOption]
    exact .pure _ _
  | some e => by
    rw [Expr.optionEvents, operandOption, operandOption]
    exact (alike_expr h .value e).map _ _

theorem alike_ownedOption {place place' : Place}
    (h : SameTypes env env' place.toScope place'.toScope) :
    ∀ e : Option Expr,
      Gen.Alike target (Expr.optionEvents false e) (ownedOption env place e)
        (ownedOption env' place' e)
  | none => by
    rw [Expr.optionEvents, ownedOption, ownedOption]
    exact .pure _ _
  | some e => by
    rw [Expr.optionEvents, ownedOption, ownedOption]
    exact (alike_expr h .value e).map _ _

/-- The same of a block that is a value. -/
theorem alike_valueBlock {place place' : Place}
    (h : SameTypes env env' place.toScope place'.toScope) :
    ∀ block : List Stmt,
      Gen.Alike target (Stmt.allEvents false block) (valueBlock env place block)
        (valueBlock env' place' block)
  | [] => by
    rw [Stmt.allEvents, valueBlock, valueBlock]
    exact .pure _ _
  | [s] => by
    have hs := alike_stmt h s
    rw [Stmt.allEvents, Stmt.allEvents, List.append_nil]
    cases s with
    | expr value =>
      rw [Stmt.events, valueBlock, valueBlock]
      split
      · exact (alike_expr h .statement value).map _ _
      · exact (alike_expr h .value value).map _ _
    | _ =>
      simp only [valueBlock]
      exact hs.map _ _
  | s :: s' :: ss => by
    rw [Stmt.allEvents]
    simp only [valueBlock]
    exact .bind (alike_stmt h s) fun _ _ => (alike_valueBlock h (s' :: ss)).map _ _

theorem alike_matchArms {place place' : Place}
    (h : SameTypes env env' place.toScope place'.toScope) :
    ∀ arms : List MatchArm,
      Gen.Alike target (MatchArm.allEvents false arms) (matchArms env place arms)
        (matchArms env' place' arms)
  | [] => by
    rw [MatchArm.allEvents, matchArms, matchArms]
    exact .pure _ _
  | ⟨pattern, .expr value⟩ :: arms => by
    rw [MatchArm.allEvents, Body.events, matchArms, matchArms]
    refine .bind (alike_armPattern h pattern) fun _ _ => ?_
    exact .bind (alike_expr h .value value) fun _ _ => (alike_matchArms h arms).map _ _
  | ⟨pattern, .block block⟩ :: arms => by
    rw [MatchArm.allEvents, Body.events, matchArms, matchArms]
    have hclosure : SameTypes env env' place.closure.toScope place'.closure.toScope := h
    refine .bind (alike_armPattern h pattern) fun _ _ => ?_
    exact .bind (alike_stmts hclosure block) fun _ _ => (alike_matchArms h arms).map _ _

theorem alike_armPattern {place place' : Place}
    (h : SameTypes env env' place.toScope place'.toScope) :
    ∀ pattern : Pattern,
      Gen.Alike target (pattern.events false) (armPattern env place pattern)
        (armPattern env' place' pattern)
  | .default => by
    rw [Pattern.events, armPattern, armPattern]
    exact .pure _ _
  | .values values => by
    rw [Pattern.events, armPattern, armPattern]
    exact (alike_exprs h values).map _ _

/-- A statement is written alike where the same types are known. -/
theorem alike_stmt {place place' : Place}
    (h : SameTypes env env' place.toScope place'.toScope) :
    ∀ s : Stmt, Gen.Alike target (s.events false) (stmt env place s) (stmt env' place' s)
  | .binding b => by
    rw [Stmt.events, stmt, stmt]
    exact (alike_binding h false b).map _ _
  | .ifThen condition thenBranch elseBranch => by
    rw [Stmt.events, stmt, stmt]
    refine .bind (alike_expr h .value condition) fun _ _ => ?_
    refine .bind (alike_stmts h thenBranch) fun _ _ => ?_
    exact (alike_elseChain h elseBranch).map _ _
  | .whileLoop condition body => by
    rw [Stmt.events, stmt, stmt]
    have hloop : SameTypes env env' (place.inLoop none).toScope (place'.inLoop none).toScope := h
    exact .bind (alike_expr h .value condition) fun _ _ => (alike_stmts hloop body).map _ _
  | .forLoop start condition step body => by
    rw [Stmt.events, stmt, stmt]
    refine .bind (alike_forClause h start) fun _ _ => ?_
    refine .bind (alike_loopHeader h condition) fun _ _ => ?_
    -- The step is written behind the body.
    extract_lets +lift finish finish'
    have hfinish : ∀ inner inner', Gen.Alike target (Expr.optionEvents false step) (finish inner)
        (finish' inner') :=
      fun _ _ => (alike_stepLine h step).map _ _
    split
    · refine .after .freshLabel fun label label' => ?_
      have hloop : SameTypes env env' (place.inLoop (some label)).toScope
        (place'.inLoop (some label')).toScope := h
      exact .swap (alike_stmts hloop body) fun _ _ => hfinish _ _
    · have hloop : SameTypes env env' (place.inLoop none).toScope (place'.inLoop none).toScope := h
      exact .swap (alike_stmts hloop body) fun _ _ => hfinish _ _
  | .forEach name _ iterable body => by
    rw [Stmt.events, stmt, stmt]
    have hloop : SameTypes env env' (place.inLoop none).toScope (place'.inLoop none).toScope := h
    exact .bind (alike_expr h .value iterable) fun _ _ => (alike_stmts hloop body).map _ _
  | .ret none => by
    rw [Stmt.events, Expr.optionEvents, stmt, stmt]
    exact .pure _ _
  | .ret (some value) => by
    rw [Stmt.events, Expr.optionEvents, stmt, stmt]
    exact (alike_expr h .value value).map _ _
  | .breakLoop | .continueLoop => by
    rw [Stmt.events, stmt, stmt]
    exact .pure _ _
  | .matchOn scrutinee arms => by
    rw [Stmt.events, stmt, stmt]
    exact .bind (alike_expr h .value scrutinee) fun _ _ => (alike_matchCases h arms).map _ _
  | .switchOn subject cases => by
    rw [Stmt.events, stmt, stmt]
    exact .bind (alike_expr h .value subject) fun _ _ => (alike_switchCases h cases).map _ _
  | .expr value => by
    have hvalue := alike_expr h .statement value
    rw [Stmt.events]
    cases value with
    | matchOn scrutinee arms =>
      rw [Expr.events, stmt, stmt]
      exact .bind (alike_expr h .value scrutinee) fun _ _ => (alike_matchCases h arms).hide.map _ _
    | _ =>
      simp only [stmt]
      exact hvalue.map _ _
  | .raw block => by
    rw [Stmt.events, stmt, stmt]
    exact target.alike_rawCode block
  | .functionDecl _ decl => by
    rw [Stmt.events, stmt, stmt]
    have hclosure : SameTypes env env' place.closure.toScope place'.closure.toScope := h
    exact (alike_function hclosure rfl [] (fun _ _ _ => .pure _ _) decl).map _ _
  | .typeDecl _ _ => by
    rw [Stmt.events, stmt, stmt]
    exact .fail _ _
  | .enumDecl _ => by
    rw [Stmt.events, stmt, stmt]
    exact .fail _ _
  | .importDecl _ | .includeDecl _ _ | .aliasDecl _ | .namespaceDecl _ _ | .moduleDecl _
  | .fieldDecl _ | .propertyDecl _ => by
    simp only [Stmt.events, stmt]
    exact target.alike_refuseInBody _ _ _

/-- The same of a block. -/
theorem alike_stmts {place place' : Place}
    (h : SameTypes env env' place.toScope place'.toScope) :
    ∀ ss : List Stmt,
      Gen.Alike target (Stmt.allEvents false ss) (stmts env place ss) (stmts env' place' ss)
  | [] => by
    rw [Stmt.allEvents, stmts, stmts]
    exact .pure _ _
  | s :: ss => by
    rw [Stmt.allEvents, stmts, stmts]
    exact .bind (alike_stmt h s) fun _ _ => (alike_stmts h ss).map _ _

theorem alike_binding {place place' : Place}
    (h : SameTypes env env' place.toScope place'.toScope) (forceMutable : Bool) :
    ∀ b : Binding,
      Gen.Alike target (b.events false) (binding env place forceMutable b)
        (binding env' place' forceMutable b)
  | ⟨name, type, value, mutability⟩ => by
    rw [Binding.events, binding, binding]
    exact .after (.optionMapM (alike_mapType h) type) fun _ _ => (alike_ownedOption h value).map _ _

theorem alike_forClause {place place' : Place}
    (h : SameTypes env env' place.toScope place'.toScope) :
    ∀ start : Option Stmt,
      Gen.Alike target (Stmt.startEvents false start) (forClause env place start)
        (forClause env' place' start)
  | none => by
    rw [Stmt.startEvents, forClause, forClause]
    exact .pure _ _
  | some s => by
    cases s with
    | binding b =>
      rw [Stmt.startEvents, forClause, forClause]
      exact (alike_binding h true b).map _ _
    | expr value =>
      rw [Stmt.startEvents, forClause, forClause]
      exact (alike_expr h .statement value).map _ _
    | _ =>
      simp only [Stmt.startEvents, forClause]
      exact .after (.note rfl rfl rfl) fun _ _ => .pure _ _

theorem alike_loopHeader {place place' : Place}
    (h : SameTypes env env' place.toScope place'.toScope) :
    ∀ condition : Option Expr,
      Gen.Alike target (Expr.optionEvents false condition) (loopHeader env place condition)
        (loopHeader env' place' condition)
  | none => by
    rw [Expr.optionEvents, loopHeader, loopHeader]
    exact .pure _ _
  | some condition => by
    rw [Expr.optionEvents, loopHeader, loopHeader]
    exact (alike_expr h .value condition).map _ _

theorem alike_stepLine {place place' : Place}
    (h : SameTypes env env' place.toScope place'.toScope) :
    ∀ step : Option Expr,
      Gen.Alike target (Expr.optionEvents false step) (stepLine env place step)
        (stepLine env' place' step)
  | none => by
    rw [Expr.optionEvents, stepLine, stepLine]
    exact .pure _ _
  | some step => by
    rw [Expr.optionEvents, stepLine, stepLine]
    exact (alike_expr h .statement step).map _ _

theorem alike_elseChain {place place' : Place}
    (h : SameTypes env env' place.toScope place'.toScope) :
    ∀ branch : Option (List Stmt),
      Gen.Alike target (Stmt.blockEvents false branch) (elseChain env place branch)
        (elseChain env' place' branch)
  | none => by
    rw [Stmt.blockEvents, elseChain, elseChain]
    exact .pure _ _
  | some [] => by
    simp only [Stmt.blockEvents, elseChain]
    exact (alike_stmts h []).map _ _
  | some [s] => by
    have hs := alike_stmts h [s]
    rw [Stmt.blockEvents]
    cases s with
    | ifThen condition thenBranch elseBranch =>
      rw [Stmt.allEvents, Stmt.allEvents, List.append_nil, Stmt.events, elseChain, elseChain]
      refine .bind (alike_expr h .value condition) fun _ _ => ?_
      refine .bind (alike_stmts h thenBranch) fun _ _ => ?_
      exact (alike_elseChain h elseBranch).map _ _
    | _ =>
      simp only [elseChain]
      exact hs.map _ _
  | some (s :: s' :: ss) => by
    simp only [Stmt.blockEvents, elseChain]
    exact (alike_stmts h (s :: s' :: ss)).map _ _

theorem alike_matchCases {place place' : Place}
    (h : SameTypes env env' place.toScope place'.toScope) :
    ∀ arms : List MatchArm,
      Gen.Alike target (MatchArm.allEvents false arms) (matchCases env place arms)
        (matchCases env' place' arms)
  | [] => by
    rw [MatchArm.allEvents, matchCases, matchCases]
    exact .pure _ _
  | ⟨pattern, .expr value⟩ :: arms => by
    rw [MatchArm.allEvents, Body.events, matchCases, matchCases]
    refine .bind (alike_armPattern h pattern) fun _ _ => ?_
    exact .bind (alike_expr h .statement value) fun _ _ => (alike_matchCases h arms).map _ _
  | ⟨pattern, .block block⟩ :: arms => by
    rw [MatchArm.allEvents, Body.events, matchCases, matchCases]
    refine .bind (alike_armPattern h pattern) fun _ _ => ?_
    exact .bind (alike_stmts h block) fun _ _ => (alike_matchCases h arms).map _ _

theorem alike_switchCases {place place' : Place}
    (h : SameTypes env env' place.toScope place'.toScope) :
    ∀ cases : List SwitchCase,
      Gen.Alike target (SwitchCase.allEvents false cases) (switchCases env place cases)
        (switchCases env' place' cases)
  | [] => by
    rw [SwitchCase.allEvents, switchCases, switchCases]
    exact .pure _ _
  | ⟨pattern, block⟩ :: cases => by
    rw [SwitchCase.allEvents, switchCases, switchCases]
    refine .bind (alike_armPattern h pattern) fun _ _ => ?_
    exact .bind (alike_stmts h block) fun _ _ => (alike_switchCases h cases).map _ _

theorem alike_attributeLines {place place' : Place}
    (h : SameTypes env env' place.toScope place'.toScope) :
    ∀ attributes : List Attribute,
      Gen.Alike target (Attribute.allEvents false attributes) (attributeLines env place attributes)
        (attributeLines env' place' attributes)
  | [] => by
    rw [Attribute.allEvents, attributeLines, attributeLines]
    exact .pure _ _
  | ⟨name, args⟩ :: attributes => by
    have hrest := alike_attributeLines h attributes
    rw [Attribute.allEvents, attributeLines, attributeLines]
    split
    · exact hrest
    · refine .bind (alike_exprs h args) fun _ _ => ?_
      dsimp only
      split
      · exact hrest.map _ _
      · exact .after (.note rfl rfl rfl) fun _ _ => hrest.map _ _

/-- The events ahead of the body are those of what is written there. -/
theorem alike_function {place place' : Place}
    (h : SameTypes env env' place.toScope place'.toScope) {options options' : FunctionOptions}
    (hreturns : options.returns.isSome = options'.returns.isSome) (before : List Event)
    {prologue prologue' : Place → Gen (List Code)}
    (hprologue : ∀ place place', SameTypes env env' place.toScope place'.toScope →
      Gen.Alike target before (prologue place) (prologue' place')) :
    ∀ decl : Function,
      Gen.Alike target (decl.events false before) (function env place options prologue decl)
        (function env' place' options' prologue' decl)
  | ⟨name, params, returnType, generics, modifiers, attributes, body, isConstructor, isStatic⟩ => by
    rw [Function.events, function, function]
    refine target.alike_unlessMarked fun _ => ?_
    split
    · exact .after (.note rfl rfl rfl) fun _ _ => .pure _ _
    extract_lets inner inner'
    have hinner : SameTypes env env' inner.toScope inner'.toScope :=
      ⟨h.known, h.classGenerics, rfl⟩
    refine .bind (alike_attributeLines hinner attributes) fun _ _ => ?_
    rw [if_neg Bool.false_ne_true, List.nil_append]
    refine .after (alike_parameters hinner params) fun _ _ => ?_
    extract_lets +lift shown finish shown' finish'
    have hfinish : ∀ returns returns',
        Gen.Alike target (Stmt.bodyEvents false before body) (finish returns)
          (finish' returns') :=
      fun _ _ => .after (alike_genericParams hinner generics) fun _ _ =>
        (alike_functionBody hinner before hprologue _ _ _ _ body).map _ _
    cases hoption : options.returns with
    | some returns =>
      cases hoption' : options'.returns with
      | some returns' => exact hfinish returns returns'
      | none => simp [hoption, hoption'] at hreturns
    | none =>
      cases hoption' : options'.returns with
      | some returns' => simp [hoption, hoption'] at hreturns
      | none => exact .after (alike_returnSpelling hinner name returnType body) hfinish

/-- The same of a body behind prologues alike. -/
theorem alike_functionBody {place place' : Place}
    (h : SameTypes env env' place.toScope place'.toScope) (before : List Event)
    {prologue prologue' : Place → Gen (List Code)}
    (hprologue : ∀ place place', SameTypes env env' place.toScope place'.toScope →
      Gen.Alike target before (prologue place) (prologue' place'))
    (requireBody requireBody' : Bool) (head head' : String) :
    ∀ body : Option (List Stmt),
      Gen.Alike target (Stmt.bodyEvents false before body)
        (functionBody env place requireBody prologue head body)
        (functionBody env' place' requireBody' prologue' head' body)
  | none => by
    rw [Stmt.bodyEvents, functionBody, functionBody]
    cases requireBody <;> cases requireBody' <;> exact .pure _ _
  | some body => by
    rw [Stmt.bodyEvents, functionBody, functionBody]
    exact .bind (hprologue place place' h) fun _ _ => (alike_stmts h body).map _ _

end

end Rust

end SourceGen
