import SourceGen.Proofs.Records
import SourceGen.Proofs.TypeCensus
import SourceGen.Rust.Body

/-!
# What runs over Rust bodies record

Writing an expression, a statement or a function reports at most the unknown types in it, each at
most once.

## Main definitions

* `Rust.census`: the unknown types of a unit.
* `Rust.ownImports`: the paths that a unit may need without asking for them.

## Main results

* `Rust.records_expr`: runs over an expression.
* `Rust.records_stmts`: runs over statements.
* `Rust.records_function`: runs over a function.
-/

namespace SourceGen

namespace Rust

/-- The unknown types of a unit; nothing is looked up outside it. -/
def census (only : Diagnostic → Bool) (env : Env) : TypeCensus where
  known := env.known
  resolves _ := false
  counts type := only (unknownType type)
  startWeight := 1
  ownGenerics f := if f.isConstructor then [] else f.generics
  entryGenerics _ := []

/-- The paths that a unit may need without asking for them. -/
def ownImports : List String :=
  ["std::collections::HashMap", "std::collections::HashSet"]

variable {only : Diagnostic → Bool} {env : Env} {scope other : Scope} {place : Place}

/-! ### Types -/

theorem containerImport_mem {type : Container} {needed : String}
    (h : containerImport? type = some needed) : needed ∈ ownImports := by
  cases type <;> cases h <;> decide

/-- A name that resolves to nothing is counted by the census of the types around it. -/
theorem head_census_of_unresolved (hc : scope.Covers other) {type : TypeRef} {name : String}
    {args : List TypeRef}
    (hu : TypeRef.classify scope.generics env.known type = .unresolved name args) :
    (census only env).head other type = if only (unknownType type) then 1 else 0 := by
  have hu' := TypeRef.classify_unresolved_of_covers hc hu
  simp [TypeCensus.head, census, hu']

/-- A scope that covers another still does inside a function. -/
theorem covers_scopeIn (only : Diagnostic → Bool) (env : Env) (hc : scope.Covers other)
    (f : Function) :
    ({ scope with functionGenerics := f.generics } : Scope).Covers
      ((census only env).scopeIn other f) := by
  refine hc.function ?_
  dsimp only [census]
  split
  · exact List.nil_subset _
  · exact List.Subset.refl _

mutual

/-- Mapping a type warns once for each unknown name in it. -/
theorem records_mapNormal (hc : scope.Covers other) :
    ∀ type : TypeRef,
      Gen.Records only ownImports ((census only env).normal other type)
        (mapNormal env.known scope type)
  | ⟨name, args⟩ => by
    have hargs := (records_mapNormalAll hc args).mono
      (Nat.le_add_left _ ((census only env).head other ⟨name, args⟩))
    rw [TypeCensus.normal, mapNormal]
    split
    · exact .pure _
    · exact .pure _
    · refine (Gen.Records.bind (m := 0) hargs fun _ => ?_)
      split
      · rename_i needed hneeded
        exact .after (.requireImport (containerImport_mem hneeded)) fun _ => .pure _
      · exact .pure _
    · exact hargs.map _
    · exact hargs.map _
    · rename_i hu
      rw [head_census_of_unresolved hc hu]
      exact (Gen.Records.map (.reportOne _) fun _ => catchAll).mono (Nat.le_add_right _ _)

theorem records_mapNormalAll (hc : scope.Covers other) :
    ∀ types : List TypeRef,
      Gen.Records only ownImports ((census only env).normals other types)
        (mapNormalAll env.known scope types)
  | [] => by
    rw [mapNormalAll]
    exact .pure _
  | t :: ts => by
    rw [TypeCensus.normals, mapNormalAll]
    exact .bind (records_mapNormal hc t) fun _ => (records_mapNormalAll hc ts).map _

end

theorem records_mapType (hc : scope.Covers other) (type : TypeRef) :
    Gen.Records only ownImports ((census only env).type other type)
      (mapType env.known scope type) :=
  records_mapNormal hc type.normalize

theorem records_mapTypes (hc : scope.Covers other) (types : List TypeRef) :
    Gen.Records only ownImports ((census only env).types other types)
      (mapTypes env.known scope types) :=
  .mapM (records_mapType hc) types

theorem records_mapTypeOption (hc : scope.Covers other) (type : Option TypeRef) :
    Gen.Records only ownImports ((census only env).typeOption other type)
      (type.mapM (mapType env.known scope)) := by
  cases type with
  | none => exact .optionMapM (records_mapType hc) none
  | some type => exact .optionMapM (records_mapType hc) (some type)

/-! ### Parts of expressions and functions -/

theorem records_lambdaHead (hc : scope.Covers other) (params : List Parameter) :
    Gen.Records only ownImports ((census only env).parameters other params)
      (lambdaHead env scope params) := by
  have hsum : ∀ params : List Parameter,
      (params.map fun p => (census only env).typeOption other p.type).sum ≤
        (census only env).parameters other params := by
    intro params
    induction params with
    | nil => simp [TypeCensus.parameters]
    | cons p ps ih =>
      obtain ⟨name, type, default⟩ := p
      simp only [List.map_cons, List.sum_cons, TypeCensus.parameters]
      omega
  refine Gen.Records.map ((Gen.Records.mapM (fun p => ?_) params).mono (hsum params)) _
  cases p.type with
  | some type => exact (records_mapType hc type).map _
  | none => exact .pure _

theorem records_arrayLiteral (hc : scope.Covers other) (isEmpty : Bool) (items : Fragment)
    (elementType : Option TypeRef) :
    Gen.Records only ownImports ((census only env).typeOption other elementType)
      (arrayLiteral env scope isEmpty items elementType) := by
  cases elementType with
  | none => cases isEmpty <;> exact .pure _
  | some type =>
    refine .bind (m := 0) (records_mapType hc type) fun _ => ?_
    cases isEmpty <;> exact .pure _

theorem records_inferredType (name : String) (value : Option Expr) {n : Nat} :
    Gen.Records only ownImports n (inferredType name value) := by
  unfold inferredType
  extract_lets found
  cases found with
  | some type => exact .pure _
  | none =>
    exact .after (.note (Text.clash_append (Text.clash_append (Text.clash_append
      (Text.clash_append rfl))))) fun _ => .pure _

/-- A missing type is inferred without a warning. -/
theorem records_typeOr (hc : scope.Covers other) (name : String) (type : Option TypeRef)
    (value : Option Expr) :
    Gen.Records only ownImports ((census only env).typeOption other type)
      (typeOr env scope name type value) := by
  cases type with
  | none => exact records_inferredType name value
  | some type => exact records_mapType hc type

/-- Default values are not written. -/
theorem records_parameters (hc : scope.Covers other) (params : List Parameter) :
    Gen.Records only ownImports ((census only env).parameters other params)
      (parameters env scope params) := by
  induction params with
  | nil => exact .pure _
  | cons p ps ih =>
    obtain ⟨name, type, default⟩ := p
    rw [TypeCensus.parameters, parameters]
    refine .bind (records_typeOr hc name type default) fun _ => ?_
    split
    · exact .after (.information rfl) fun _ => (ih.map _).mono (Nat.le_add_left _ _)
    · exact (ih.map _).mono (Nat.le_add_left _ _)

theorem records_genericParams (hc : scope.Covers other) (generics : List GenericParam) :
    Gen.Records only ownImports ((census only env).generics other generics)
      (genericParams env scope generics) := by
  refine Gen.Records.map (Gen.Records.mapM (fun g => ?_) generics) _
  split
  · exact .pure _
  · exact (records_mapTypes hc g.constraints).map _

theorem records_returnSpelling (hc : scope.Covers other) (name : String)
    (declared : Option TypeRef) (body : Option (List Stmt)) :
    Gen.Records only ownImports ((census only env).typeOption other declared)
      (returnSpelling env scope name declared body) := by
  cases declared with
  | some type => exact records_mapType hc type
  | none =>
    rw [returnSpelling]
    split
    · exact .after (.note (Text.clash_append (Text.clash_append (Text.clash_append
        (Text.clash_append rfl))))) fun _ => .pure _
    · exact .pure _

/-- The unknown types that are looked up for a return type, which may be given. -/
def returnNodes (only : Diagnostic → Bool) (env : Env) (other : Scope) :
    Option String → Option TypeRef → Nat
  | some _, _ => 0
  | none, declared => (census only env).typeOption other declared

/-- The unknown types that are looked up for a function; its return type may be given. -/
def functionNodes (only : Diagnostic → Bool) (env : Env) (other : Scope)
    (returns : Option String) (decl : Function) : Nat :=
  (census only env).attributeArgs other decl.attributes +
    ((census only env).parameters other decl.params +
      (returnNodes only env other returns decl.returnType +
        ((census only env).generics other decl.generics +
          (census only env).blockOption other decl.body)))

/-- The warnings of a function are bounded by the census of its parts. -/
theorem functionNodes_le (returns : Option String) (decl : Function) :
    functionNodes only env other returns decl ≤ (census only env).functionIn other decl := by
  obtain ⟨name, params, returnType, generics, modifiers, attributes, body, _, _⟩ := decl
  have hreturn : returnNodes only env other returns returnType ≤
      (census only env).typeOption other returnType := by
    cases returns with
    | some _ => exact Nat.zero_le _
    | none => exact Nat.le_refl _
  simp only [functionNodes, TypeCensus.functionIn]
  omega

/-! ### The induction over the tree -/

mutual

/-- Writing an expression warns of each unknown type in it once, by induction on its syntax. -/
theorem records_expr {place : Place} {other : Scope} (hc : place.toScope.Covers other)
    (position : Position) :
    ∀ e : Expr, Gen.Records only ownImports ((census only env).expr other e)
        (expr env place position e)
  | .literal _ | .ident _ | .path _ | .this => by
    rw [expr]
    exact .pure _
  | .member object _ => by
    rw [TypeCensus.expr, expr]
    split
    · exact .pure _
    · exact (records_expr hc .value object).map _
  | .index object i => by
    rw [TypeCensus.expr, expr]
    exact .bind (records_expr hc .value object) fun _ => (records_expr hc .value i).map _
  | .binary left op right => by
    rw [TypeCensus.expr, expr]
    exact .bind (records_expr hc .value left) fun _ => (records_expr hc .value right).map _
  | .unary op operand trailing => by
    rw [TypeCensus.expr, expr]
    refine .bind (m := 0) (records_expr hc .value operand) fun _ => ?_
    split
    · exact .pure _
    · exact .pure _
  | .assign left _ value => by
    rw [TypeCensus.expr, expr]
    exact .bind (records_expr hc .value left) fun _ => (records_expr hc .value value).map _
  | .call callee args => by
    have hargs := records_ownedExprs hc args
    have hcallee := records_expr hc .value callee
    rw [TypeCensus.expr]
    cases callee with
    | ident name =>
      rw [TypeCensus.expr, Nat.zero_add, expr]
      split
      · exact (records_exprs hc args).map _
      · exact hargs.map _
    | path parts =>
      rw [TypeCensus.expr, Nat.zero_add, expr]
      exact hargs.map _
    | member receiver name =>
      rw [TypeCensus.expr, expr]
      split
      · -- A receiver that names a type is not written as an expression, so it warns of nothing.
        exact (hargs.map _).mono (Nat.le_add_left _ _)
      · exact .bind (records_expr hc .value receiver) fun _ => hargs.map _
    | _ =>
      simp only [expr]
      exact .bind hcallee fun _ => hargs.map _
  | .construct type args => by
    rw [TypeCensus.expr, expr]
    exact .bind (records_mapType hc type) fun _ => (records_ownedExprs hc args).map _
  | .array elements elementType => by
    rw [TypeCensus.expr, expr]
    exact .bind (records_ownedExprs hc elements) fun _ => records_arrayLiteral hc _ _ _
  | .lambda params (.expr value) => by
    rw [TypeCensus.expr, TypeCensus.resultBody, expr]
    have hclosure : place.closure.toScope.Covers other := hc
    exact .bind (records_lambdaHead hc params) fun _ => (records_expr hclosure .value value).map _
  | .lambda params (.block block) => by
    rw [TypeCensus.expr, TypeCensus.resultBody, expr]
    have hclosure : place.closure.toScope.Covers other := hc
    exact .bind (records_lambdaHead hc params) fun _ => (records_stmts hclosure block).map _
  | .range start stop inclusive => by
    rw [TypeCensus.expr, expr]
    -- A range of this target writes its start once.
    have hstart : (census only env).startWeight * (census only env).exprOption other start =
        (census only env).exprOption other start := Nat.one_mul _
    rw [hstart]
    refine .bind (records_operandOption hc start) fun _ => ?_
    refine .bind (m := 0) (records_operandOption hc stop) fun last => ?_
    cases last with
    | none => exact .pure _
    | some _ => exact .pure _
  | .block block => by
    rw [TypeCensus.expr, expr]
    exact (records_valueBlock hc block).map _
  | .matchOn scrutinee arms => by
    rw [TypeCensus.expr, expr]
    exact .bind (records_expr hc .value scrutinee) fun _ => (records_matchArms hc arms).map _

theorem records_exprs {place : Place} {other : Scope} (hc : place.toScope.Covers other) :
    ∀ es : List Expr, Gen.Records only ownImports ((census only env).exprs other es)
        (exprs env place es)
  | [] => by
    rw [exprs]
    exact .pure _
  | e :: es => by
    rw [TypeCensus.exprs, exprs]
    exact .bind (records_expr hc .value e) fun _ => (records_exprs hc es).map _

theorem records_ownedExprs {place : Place} {other : Scope} (hc : place.toScope.Covers other) :
    ∀ es : List Expr,
      Gen.Records only ownImports ((census only env).exprs other es) (ownedExprs env place es)
  | [] => by
    rw [ownedExprs]
    exact .pure _
  | e :: es => by
    rw [TypeCensus.exprs, ownedExprs]
    exact .bind (records_expr hc .value e) fun _ => (records_ownedExprs hc es).map _

theorem records_operandOption {place : Place} {other : Scope} (hc : place.toScope.Covers other) :
    ∀ e : Option Expr,
      Gen.Records only ownImports ((census only env).exprOption other e) (operandOption env place e)
  | none => by
    rw [operandOption]
    exact .pure _
  | some e => by
    rw [TypeCensus.exprOption, operandOption]
    exact (records_expr hc .value e).map _

theorem records_ownedOption {place : Place} {other : Scope} (hc : place.toScope.Covers other) :
    ∀ e : Option Expr,
      Gen.Records only ownImports ((census only env).exprOption other e) (ownedOption env place e)
  | none => by
    rw [ownedOption]
    exact .pure _
  | some e => by
    rw [TypeCensus.exprOption, ownedOption]
    exact (records_expr hc .value e).map _

/-- The same of a block that is a value. -/
theorem records_valueBlock {place : Place} {other : Scope} (hc : place.toScope.Covers other) :
    ∀ block : List Stmt,
      Gen.Records only ownImports ((census only env).stmts other block) (valueBlock env place block)
  | [] => by
    rw [valueBlock]
    exact .pure _
  | [s] => by
    have hs := records_stmt hc s
    rw [TypeCensus.stmts, TypeCensus.stmts, Nat.add_zero]
    cases s with
    | expr value =>
      rw [TypeCensus.stmt, valueBlock]
      split
      · exact (records_expr hc .statement value).map _
      · exact (records_expr hc .value value).map _
    | _ =>
      simp only [valueBlock]
      exact hs.map _
  | s :: s' :: ss => by
    rw [TypeCensus.stmts]
    simp only [valueBlock]
    exact .bind (records_stmt hc s) fun _ => (records_valueBlock hc (s' :: ss)).map _

theorem records_matchArms {place : Place} {other : Scope} (hc : place.toScope.Covers other) :
    ∀ arms : List MatchArm,
      Gen.Records only ownImports ((census only env).matchArms other arms)
        (matchArms env place arms)
  | [] => by
    rw [matchArms]
    exact .pure _
  | ⟨pattern, .expr value⟩ :: arms => by
    rw [TypeCensus.matchArms, TypeCensus.resultBody, matchArms]
    refine .bind (records_armPattern hc pattern) fun _ => ?_
    exact .bind (records_expr hc .value value) fun _ => (records_matchArms hc arms).map _
  | ⟨pattern, .block block⟩ :: arms => by
    rw [TypeCensus.matchArms, TypeCensus.resultBody, matchArms]
    have hclosure : place.closure.toScope.Covers other := hc
    refine .bind (records_armPattern hc pattern) fun _ => ?_
    exact .bind (records_stmts hclosure block) fun _ => (records_matchArms hc arms).map _

theorem records_armPattern {place : Place} {other : Scope} (hc : place.toScope.Covers other) :
    ∀ pattern : Pattern,
      Gen.Records only ownImports ((census only env).pattern other pattern)
        (armPattern env place pattern)
  | .default => by
    rw [armPattern]
    exact .pure _
  | .values values => by
    rw [TypeCensus.pattern, armPattern]
    exact (records_exprs hc values).map _

/-- Writing a statement warns of each unknown type in it once. -/
theorem records_stmt {place : Place} {other : Scope} (hc : place.toScope.Covers other) :
    ∀ s : Stmt, Gen.Records only ownImports ((census only env).stmt other s) (stmt env place s)
  | .binding b => by
    rw [TypeCensus.stmt, stmt]
    exact (records_binding hc false b).map _
  | .ifThen condition thenBranch elseBranch => by
    rw [TypeCensus.stmt, stmt]
    refine .bind (records_expr hc .value condition) fun _ => ?_
    refine .bind (records_stmts hc thenBranch) fun _ => ?_
    exact (records_elseChain hc elseBranch).map _
  | .whileLoop condition body => by
    rw [TypeCensus.stmt, stmt]
    have hloop : (place.inLoop none).toScope.Covers other := hc
    exact .bind (records_expr hc .value condition) fun _ => (records_stmts hloop body).map _
  | .forLoop start condition step body => by
    rw [TypeCensus.stmt, stmt]
    refine .bind (records_forClause hc start) fun _ => ?_
    refine .bind (records_loopHeader hc condition) fun _ => ?_
    -- The step is written behind the body.
    extract_lets +lift finish
    have hfinish : ∀ inner,
        Gen.Records only ownImports ((census only env).exprOption other step) (finish inner) :=
      fun _ => (records_stepLine hc step).map _
    split
    · refine .after .freshLabel fun label => ?_
      have hloop : (place.inLoop (some label)).toScope.Covers other := hc
      exact .swap (records_stmts hloop body) fun _ => hfinish _
    · have hloop : (place.inLoop none).toScope.Covers other := hc
      exact .swap (records_stmts hloop body) fun _ => hfinish _
  | .forEach name type iterable body => by
    have hiterable := records_expr hc .value iterable
    have hloop : (place.inLoop none).toScope.Covers other := hc
    have hbody := records_stmts hloop body
    rw [stmt]
    -- The declared type of the variable is not written.
    cases iterable with
    | range start stop inclusive =>
      cases stop with
      | none =>
        have hstart : (census only env).expr other (.range start none inclusive) =
            (census only env).exprOption other start := by
          rw [TypeCensus.expr, TypeCensus.exprOption]
          exact Nat.one_mul _
        rw [hstart] at hiterable
        rw [TypeCensus.stmt]
        exact (Gen.Records.bind hiterable fun _ => hbody.map _).mono (Nat.le_add_left _ _)
      | some stop =>
        simp only [TypeCensus.stmt]
        exact (Gen.Records.bind hiterable fun _ => hbody.map _).mono (Nat.le_add_left _ _)
    | _ =>
      simp only [TypeCensus.stmt]
      exact (Gen.Records.bind hiterable fun _ => hbody.map _).mono (Nat.le_add_left _ _)
  | .ret none => by
    rw [stmt]
    exact .pure _
  | .ret (some value) => by
    rw [TypeCensus.stmt, TypeCensus.exprOption, stmt]
    exact (records_expr hc .value value).map _
  | .breakLoop | .continueLoop => by
    rw [stmt]
    exact .pure _
  | .matchOn scrutinee arms => by
    rw [TypeCensus.stmt, stmt]
    exact .bind (records_expr hc .value scrutinee) fun _ => (records_matchCases hc arms).map _
  | .switchOn subject cases => by
    rw [TypeCensus.stmt, stmt]
    exact .bind (records_expr hc .value subject) fun _ => (records_switchCases hc cases).map _
  | .expr value => by
    have hvalue := records_expr hc .statement value
    rw [TypeCensus.stmt]
    cases value with
    | matchOn scrutinee arms =>
      rw [TypeCensus.expr, stmt]
      exact .bind (records_expr hc .value scrutinee) fun _ => (records_matchCases hc arms).map _
    | _ =>
      simp only [stmt]
      exact hvalue.map _
  | .raw block => by
    rw [stmt]
    exact target.records_rawCode block
  | .functionDecl _ decl => by
    rw [TypeCensus.stmt, stmt]
    have hdecl := covers_scopeIn only env hc decl
    refine Gen.Records.map (Gen.Records.mono ?_ (functionNodes_le none decl)) _
    rw [← Nat.zero_add (functionNodes _ _ _ none decl)]
    exact records_function { visibility := "" } (fun _ => .pure []) decl hdecl
  | .typeDecl _ _ => by
    rw [stmt]
    exact .fail _
  | .enumDecl _ => by
    rw [stmt]
    exact .fail _
  | .importDecl _ | .includeDecl _ _ | .aliasDecl _ | .namespaceDecl _ _ | .moduleDecl _
  | .fieldDecl _ | .propertyDecl _ => by
    simp only [stmt]
    exact target.records_refuseInBody _ _

/-- The same of a block. -/
theorem records_stmts {place : Place} {other : Scope} (hc : place.toScope.Covers other) :
    ∀ ss : List Stmt, Gen.Records only ownImports ((census only env).stmts other ss)
        (stmts env place ss)
  | [] => by
    rw [stmts]
    exact .pure _
  | s :: ss => by
    rw [TypeCensus.stmts, stmts]
    exact .bind (records_stmt hc s) fun _ => (records_stmts hc ss).map _

theorem records_binding {place : Place} {other : Scope} (hc : place.toScope.Covers other)
    (forceMutable : Bool) :
    ∀ b : Binding,
      Gen.Records only ownImports ((census only env).binding other b)
        (binding env place forceMutable b)
  | ⟨name, type, value, mutability⟩ => by
    rw [TypeCensus.binding, binding]
    exact .swap (records_mapTypeOption hc type) fun _ => (records_ownedOption hc value).map _

theorem records_forClause {place : Place} {other : Scope} (hc : place.toScope.Covers other) :
    ∀ start : Option Stmt,
      Gen.Records only ownImports ((census only env).stmtOption other start)
        (forClause env place start)
  | none => by
    rw [forClause]
    exact .pure _
  | some s => by
    rw [TypeCensus.stmtOption]
    cases s with
    | binding b =>
      rw [TypeCensus.stmt, forClause]
      exact (records_binding hc true b).map _
    | expr value =>
      rw [TypeCensus.stmt, forClause]
      exact (records_expr hc .statement value).map _
    | _ =>
      simp only [forClause]
      exact .after (.note (Text.clash_append (Stmt.clash_kindName _))) fun _ => .pure _

theorem records_loopHeader {place : Place} {other : Scope} (hc : place.toScope.Covers other) :
    ∀ condition : Option Expr,
      Gen.Records only ownImports ((census only env).exprOption other condition)
        (loopHeader env place condition)
  | none => by
    rw [loopHeader]
    exact .pure _
  | some condition => by
    rw [TypeCensus.exprOption, loopHeader]
    exact (records_expr hc .value condition).map _

theorem records_stepLine {place : Place} {other : Scope} (hc : place.toScope.Covers other) :
    ∀ step : Option Expr,
      Gen.Records only ownImports ((census only env).exprOption other step)
        (stepLine env place step)
  | none => by
    rw [stepLine]
    exact .pure _
  | some step => by
    rw [TypeCensus.exprOption, stepLine]
    exact (records_expr hc .statement step).map _

theorem records_elseChain {place : Place} {other : Scope} (hc : place.toScope.Covers other) :
    ∀ branch : Option (List Stmt),
      Gen.Records only ownImports ((census only env).blockOption other branch)
        (elseChain env place branch)
  | none => by
    rw [elseChain]
    exact .pure _
  | some [] => by
    simp only [TypeCensus.blockOption, elseChain]
    exact (records_stmts hc []).map _
  | some [s] => by
    have hs := records_stmts hc [s]
    rw [TypeCensus.blockOption]
    cases s with
    | ifThen condition thenBranch elseBranch =>
      rw [TypeCensus.stmts, TypeCensus.stmts, Nat.add_zero, TypeCensus.stmt, elseChain]
      refine .bind (records_expr hc .value condition) fun _ => ?_
      refine .bind (records_stmts hc thenBranch) fun _ => ?_
      exact (records_elseChain hc elseBranch).map _
    | _ =>
      simp only [elseChain]
      exact hs.map _
  | some (s :: s' :: ss) => by
    simp only [TypeCensus.blockOption, elseChain]
    exact (records_stmts hc (s :: s' :: ss)).map _

theorem records_matchCases {place : Place} {other : Scope} (hc : place.toScope.Covers other) :
    ∀ arms : List MatchArm,
      Gen.Records only ownImports ((census only env).matchArms other arms)
        (matchCases env place arms)
  | [] => by
    rw [matchCases]
    exact .pure _
  | ⟨pattern, .expr value⟩ :: arms => by
    rw [TypeCensus.matchArms, TypeCensus.resultBody, matchCases]
    refine .bind (records_armPattern hc pattern) fun _ => ?_
    exact .bind (records_expr hc .statement value) fun _ => (records_matchCases hc arms).map _
  | ⟨pattern, .block block⟩ :: arms => by
    rw [TypeCensus.matchArms, TypeCensus.resultBody, matchCases]
    refine .bind (records_armPattern hc pattern) fun _ => ?_
    exact .bind (records_stmts hc block) fun _ => (records_matchCases hc arms).map _

theorem records_switchCases {place : Place} {other : Scope} (hc : place.toScope.Covers other) :
    ∀ cases : List SwitchCase,
      Gen.Records only ownImports ((census only env).switchCases other cases)
        (switchCases env place cases)
  | [] => by
    rw [switchCases]
    exact .pure _
  | ⟨pattern, block⟩ :: cases => by
    rw [TypeCensus.switchCases, switchCases]
    refine .bind (records_armPattern hc pattern) fun _ => ?_
    exact .bind (records_stmts hc block) fun _ => (records_switchCases hc cases).map _

theorem records_attributeLines {place : Place} {other : Scope} (hc : place.toScope.Covers other) :
    ∀ attributes : List Attribute,
      Gen.Records only ownImports ((census only env).attributeArgs other attributes)
        (attributeLines env place attributes)
  | [] => by
    rw [attributeLines]
    exact .pure _
  | ⟨name, args⟩ :: attributes => by
    have hrest := records_attributeLines hc attributes
    rw [TypeCensus.attributeArgs, attributeLines]
    split
    · exact hrest.mono (Nat.le_add_left _ _)
    · refine .bind (records_exprs hc args) fun _ => ?_
      dsimp only
      split
      · exact hrest.map _
      · exact .after (.information rfl) fun _ => hrest.map _

/-- What is written ahead of the body counts as well; a given return type is not looked up. -/
theorem records_function {place : Place} {other : Scope} (options : FunctionOptions) {before : Nat}
    {prologue : Place → Gen (List Code)}
    (hprologue : ∀ place, Gen.Records only ownImports before (prologue place)) :
    ∀ decl : Function,
      ({ place.toScope with functionGenerics := decl.generics } : Scope).Covers other →
      Gen.Records only ownImports (before + functionNodes only env other options.returns decl)
        (function env place options prologue decl)
  | ⟨name, params, returnType, generics, modifiers, attributes, body, isConstructor, isStatic⟩,
    hc => by
    simp only [functionNodes]
    rw [function]
    refine .after (target.records_skipMarked _ _ _) fun marked => ?_
    split
    · exact .pure _
    split
    · exact .after (.note (Text.clash_append (Text.clash_append rfl))) fun _ => .pure _
    extract_lets inner
    have hinner : inner.toScope.Covers other := hc
    refine (Gen.Records.bind (records_attributeLines hinner attributes) fun _ =>
      Gen.Records.bind (m := returnNodes only env other options.returns returnType +
        ((census only env).generics other generics +
          (before + (census only env).blockOption other body)))
        (records_parameters hinner params) fun _ => ?_).mono (by omega)
    extract_lets +lift shown finish
    have hfinish : ∀ returns, Gen.Records only ownImports
        ((census only env).generics other generics +
          (before + (census only env).blockOption other body)) (finish returns) :=
      fun _ => .bind (records_genericParams hinner generics) fun _ =>
        (records_functionBody hinner _ hprologue _ body).map _
    cases hoption : options.returns with
    | some returns => exact (hfinish returns).mono (Nat.le_add_left _ _)
    | none => exact .bind (records_returnSpelling hinner name returnType body) hfinish

/-- Writing a body warns of each unknown type in it once, behind its prologue. -/
theorem records_functionBody {place : Place} {other : Scope} (hc : place.toScope.Covers other)
    (requireBody : Bool) {before : Nat} {prologue : Place → Gen (List Code)}
    (hprologue : ∀ place, Gen.Records only ownImports before (prologue place)) (head : String) :
    ∀ body : Option (List Stmt),
      Gen.Records only ownImports (before + (census only env).blockOption other body)
        (functionBody env place requireBody prologue head body)
  | none => by
    rw [functionBody]
    cases requireBody <;> exact .pure _
  | some body => by
    rw [TypeCensus.blockOption, functionBody]
    exact .bind (hprologue place) fun _ => (records_stmts hc body).map _

end

/-- A function with nothing ahead of its body. -/
theorem records_plainFunction (options : FunctionOptions) (decl : Function)
    (hc : ({ place.toScope with functionGenerics := decl.generics } : Scope).Covers other) :
    Gen.Records only ownImports ((census only env).functionIn other decl)
      (function env place options (fun _ => return []) decl) := by
  have hnone : ∀ place : Place, Gen.Records only ownImports 0 (return [] : Gen (List Code)) :=
    fun _ => .pure []
  refine (records_function options hnone decl hc).mono ?_
  rw [Nat.zero_add]
  exact functionNodes_le _ _

end Rust

end SourceGen
