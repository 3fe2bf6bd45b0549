import SourceGen.CSharp.Body
import SourceGen.Proofs.Records
import SourceGen.Proofs.TypeCensus

/-!
# What runs over C# bodies record

Writing an expression, a statement or a function reports at most the unknown types in it. The start
of a range counts twice: a sequence writes it as its first element, and once more to count its
elements.

## Main definitions

* `CSharp.census`: the unknown types of a unit.
* `CSharp.ownImports`: the namespaces that a unit may need without asking for them.

## Main results

* `CSharp.records_expr`: runs over an expression.
* `CSharp.records_stmts`: runs over statements.
* `CSharp.records_function`: runs over a function.
-/

namespace SourceGen

namespace CSharp

/-- The unknown types of a unit, as often as C# writes them. -/
def census (only : Diagnostic → Bool) (env : Env) : TypeCensus where
  known := env.known
  resolves name := (env.resolver.resolve name).isSome
  counts type := only (unknownType type)
  startWeight := 2
  ownGenerics f := f.generics
  entryGenerics f := f.generics

/-- The namespaces that a unit may need without asking for them. -/
def ownImports : List String :=
  [systemNamespace, linqNamespace, "System.Collections.Generic", "System.Threading.Tasks"]

variable {only : Diagnostic → Bool} {env : Env} {scope other : Scope}

/-! ### Types -/

theorem containerNamespace_mem {type : Container} {needed : String}
    (h : containerNamespace? type = some needed) : needed ∈ ownImports := by
  cases type <;> cases h <;> decide

/-- A name that resolves to nothing is counted by the census of the types around it. -/
theorem head_census_of_unresolved (hc : scope.Covers other) {type : TypeRef} {name : String}
    {args : List TypeRef}
    (hu : TypeRef.classify scope.generics env.known type = .unresolved name args)
    (hr : env.resolver.resolve name = none) :
    (census only env).head other type = if only (unknownType type) then 1 else 0 := by
  have hu' := TypeRef.classify_unresolved_of_covers hc hu
  simp [TypeCensus.head, census, hu', hr]

/-- A scope that covers another still does inside a function. -/
theorem covers_scopeIn (only : Diagnostic → Bool) (env : Env) (hc : scope.Covers other)
    (f : Function) :
    ({ scope with functionGenerics := f.generics } : Scope).Covers
      ((census only env).scopeIn other f) :=
  hc.function (List.Subset.refl _)

mutual

/-- Mapping a type warns once for each unknown name in it. -/
theorem records_mapNormal (hc : scope.Covers other) :
    ∀ type : TypeRef,
      Gen.Records only ownImports ((census only env).normal other type) (mapNormal env scope type)
  | ⟨name, args⟩ => by
    have hargs := (records_mapNormalAll hc args).mono
      (Nat.le_add_left _ ((census only env).head other ⟨name, args⟩))
    rw [TypeCensus.normal, mapNormal]
    split
    · exact .pure _
    · exact .pure _
    · refine (Gen.Records.bind (m := 0) hargs fun _ => ?_)
      split
      · rename_i needed hneeded
        exact .after (.requireImport (containerNamespace_mem hneeded)) fun _ => .pure _
      · exact .pure _
    · exact hargs.map _
    · exact hargs.map _
    · rename_i hu
      split
      · exact hargs.map _
      · rename_i hr
        rw [head_census_of_unresolved hc hu hr]
        cases TypeRef.eq_of_classify_unresolved hu
        exact (Gen.Records.map (.reportOne _) fun _ => catchAll).mono (Nat.le_add_right _ _)

theorem records_mapNormalAll (hc : scope.Covers other) :
    ∀ types : List TypeRef,
      Gen.Records only ownImports ((census only env).normals other types)
        (mapNormalAll env scope types)
  | [] => by
    rw [mapNormalAll]
    exact .pure _
  | t :: ts => by
    rw [TypeCensus.normals, mapNormalAll]
    exact .bind (records_mapNormal hc t) fun _ => (records_mapNormalAll hc ts).map _

end

theorem records_mapType (hc : scope.Covers other) (type : TypeRef) :
    Gen.Records only ownImports ((census only env).type other type) (mapType env scope type) :=
  records_mapNormal hc type.normalize

theorem records_mapTypeOr (hc : scope.Covers other) (fallback : String) (type : Option TypeRef) :
    Gen.Records only ownImports ((census only env).typeOption other type)
      (mapTypeOr env scope fallback type) := by
  cases type with
  | none => exact .pure _
  | some type => exact records_mapType hc type

theorem records_mapTypes (hc : scope.Covers other) (types : List TypeRef) :
    Gen.Records only ownImports ((census only env).types other types) (mapTypes env scope types) :=
  .mapM (records_mapType hc) types

/-! ### Parts of expressions -/

theorem records_builtinOrShim (fn : Builtin) (argCount : Nat) (args : Fragment) {n : Nat} :
    Gen.Records only ownImports n (builtinOrShim env fn argCount args) := by
  unfold builtinOrShim
  split
  · exact .pure _
  · refine .after (.requireImport (by decide)) fun _ => ?_
    cases fn with
    | print =>
      dsimp only
      split
      · exact .pure _
      · exact .pure _
    | len => exact .after (.requireImport (by decide)) fun _ => .pure _
    | str | abs | min | max | sqrt => exact .pure _

theorem records_arrayLiteral (hc : scope.Covers other) (isEmpty : Bool) (items : Fragment)
    (elementType : Option TypeRef) :
    Gen.Records only ownImports ((census only env).typeOption other elementType)
      (arrayLiteral env scope isEmpty items elementType) := by
  unfold arrayLiteral
  cases elementType with
  | none => exact .pure _
  | some type => exact (records_mapType hc type).map _

theorem records_lambdaHead (hc : scope.Covers other) (params : List Parameter) :
    Gen.Records only ownImports ((census only env).parameters other params)
      (lambdaHead env scope params) := by
  have htypes : ∀ p : Parameter,
      Gen.Records only ownImports ((census only env).typeOption other p.type)
        (do return (← mapTypeOr env scope untyped p.type) ++ " " ++ ident p.name) :=
    fun p => (records_mapTypeOr hc untyped p.type).map _
  have hsum : ∀ params : List Parameter,
      (params.map fun p => (census only env).typeOption other p.type).sum ≤
        (census only env).parameters other params := by
    -- The census counts default values as well, which a lambda leaves out.
    intro params
    induction params with
    | nil => simp [TypeCensus.parameters]
    | cons p ps ih =>
      obtain ⟨name, type, default⟩ := p
      simp only [List.map_cons, List.sum_cons, TypeCensus.parameters]
      omega
  unfold lambdaHead
  split
  · exact ((Gen.Records.mapM htypes params).mono (hsum params)).map _
  · split
    · exact .pure _
    · exact .pure _

section Range

variable {r : Range} {start stop : Gen (Option Fragment)} {a b : Nat}
  (hstart : Gen.Records only ownImports a start) (hstop : Gen.Records only ownImports b stop)

include hstart hstop

/-- The count of a range is written from both of its ends, so the start is counted here again. -/
theorem records_rangeCount : Gen.Records only ownImports (b + a) (rangeCount r start stop) := by
  unfold rangeCount
  split
  · exact .pure _
  · -- The optional parts of the number are written by continuations, the last one first here.
    extract_lets +lift finish subtract count
    have hsubtract : ∀ f, Gen.Records only ownImports a (subtract f) := by
      intro f
      dsimp only [subtract]
      split
      · split
        · exact .pure _
        · exact hstart.map _
      · exact .pure _
    have hcount : ∀ u, Gen.Records only ownImports (b + a) (count u) := by
      intro u
      dsimp only [count]
      split
      · exact .bind hstop fun _ => hsubtract _
      · exact (hsubtract _).mono (by omega)
    split
    · exact .after (.report (by decide)) hcount
    · exact hcount ()

/-- The start is written as the first element, and again to count the elements. -/
theorem records_indexSequence : Gen.Records only ownImports (2 * a + b)
    (indexSequence r start stop) := by
  unfold indexSequence
  refine .after (.requireImport (by decide)) fun _ => ?_
  refine (Gen.Records.bind hstart fun _ => ?_).mono (by omega : a + (b + a) ≤ _)
  exact (records_rangeCount hstart hstop).map _

end Range

/-! ### Parts of functions -/

theorem records_whereClauses (hc : scope.Covers other) (generics : List GenericParam) :
    Gen.Records only ownImports ((census only env).generics other generics)
      (whereClauses env scope generics) := by
  induction generics with
  | nil => exact .pure _
  | cons g gs ih =>
    rw [whereClauses, TypeCensus.generics, List.map_cons, List.sum_cons]
    split
    · exact ih.mono (Nat.le_add_left _ _)
    · exact .bind (records_mapTypes hc g.constraints) fun _ => ih.map _

theorem records_returnSpelling (hc : scope.Covers other) (declared : Option TypeRef)
    (body : Option (List Stmt)) :
    Gen.Records only ownImports ((census only env).typeOption other declared)
      (returnSpelling env scope declared body) := by
  cases declared with
  | none => exact .pure _
  | some type => exact records_mapType hc type

/-! ### The induction over the tree -/

mutual

/-- Writing an expression warns as often as the census counts, range starts twice, by induction on
its syntax. -/
theorem records_expr {scope other : Scope} (hc : scope.Covers other) :
    ∀ e : Expr, Gen.Records only ownImports ((census only env).expr other e) (expr env scope e)
  | .literal _ | .ident _ | .path _ | .this => by
    rw [expr]
    exact .pure _
  | .member object _ => by
    rw [TypeCensus.expr, expr]
    exact (records_expr hc object).map _
  | .index object i => by
    rw [TypeCensus.expr, expr]
    exact .bind (records_expr hc object) fun _ => (records_expr hc i).map _
  | .binary left op right => by
    rw [TypeCensus.expr, expr]
    refine .bind (records_expr hc left) fun _ => .bind (m := 0) (records_expr hc right) fun _ => ?_
    split
    · exact .after (.requireImport (by decide)) fun _ => .pure _
    · exact .pure _
  | .unary _ operand _ => by
    rw [TypeCensus.expr, expr]
    exact (records_expr hc operand).map _
  | .assign left _ value => by
    rw [TypeCensus.expr, expr]
    exact .bind (records_expr hc left) fun _ => (records_expr hc value).map _
  | .call callee args => by
    have hargs := records_exprs hc args
    have hcallee := records_expr hc callee
    rw [TypeCensus.expr]
    -- The arguments are written first.
    cases callee with
    | ident name =>
      rw [expr]
      refine .swap hargs fun _ => ?_
      split
      · exact records_builtinOrShim _ _ _
      · exact .pure _
    | path parts =>
      rw [expr]
      exact .swap hargs fun _ => .pure _
    | member receiver name =>
      rw [TypeCensus.expr, expr]
      exact .swap hargs fun _ => (records_expr hc receiver).map _
    | _ =>
      simp only [expr]
      exact .swap hargs fun _ => hcallee.map _
  | .construct type args => by
    rw [TypeCensus.expr, expr]
    exact .bind (records_mapType hc type) fun _ => (records_exprs hc args).map _
  | .array elements elementType => by
    rw [TypeCensus.expr, expr]
    exact .bind (records_exprs hc elements) fun _ => records_arrayLiteral hc _ _ _
  | .lambda params (.expr value) => by
    rw [TypeCensus.expr, TypeCensus.resultBody, expr]
    exact .bind (records_lambdaHead hc params) fun _ => (records_expr hc value).map _
  | .lambda params (.block block) => by
    rw [TypeCensus.expr, TypeCensus.resultBody, expr]
    exact .bind (records_lambdaHead hc params) fun _ => (records_stmts hc none block).map _
  | .range start stop inclusive => by
    rw [TypeCensus.expr, expr]
    exact records_indexSequence (records_exprOption hc start) (records_exprOption hc stop)
  | .block block => by
    rw [TypeCensus.expr, expr]
    exact .after (.requireImport (by decide)) fun _ => (records_valueBlock hc block).map _
  | .matchOn scrutinee arms => by
    rw [TypeCensus.expr, expr]
    exact .bind (records_expr hc scrutinee) fun _ => (records_switchArms hc arms).map _

theorem records_exprs {scope other : Scope} (hc : scope.Covers other) :
    ∀ es : List Expr, Gen.Records only ownImports ((census only env).exprs other es)
        (exprs env scope es)
  | [] => by
    rw [exprs]
    exact .pure _
  | e :: es => by
    rw [TypeCensus.exprs, exprs]
    exact .bind (records_expr hc e) fun _ => (records_exprs hc es).map _

theorem records_exprOption {scope other : Scope} (hc : scope.Covers other) :
    ∀ e : Option Expr,
      Gen.Records only ownImports ((census only env).exprOption other e) (exprOption env scope e)
  | none => by
    rw [exprOption]
    exact .pure _
  | some e => by
    rw [TypeCensus.exprOption, exprOption]
    exact (records_expr hc e).map _

/-- The same of a block that is a value. -/
theorem records_valueBlock {scope other : Scope} (hc : scope.Covers other) :
    ∀ block : List Stmt,
      Gen.Records only ownImports ((census only env).stmts other block) (valueBlock env scope block)
  | [] => by
    rw [valueBlock]
    exact .pure _
  | [s] => by
    have hs := records_stmt hc none s
    rw [TypeCensus.stmts, TypeCensus.stmts, Nat.add_zero]
    cases s with
    | expr value =>
      rw [TypeCensus.stmt, valueBlock]
      exact (records_expr hc value).map _
    | _ =>
      simp only [valueBlock]
      exact hs.map _
  | s :: s' :: ss => by
    rw [TypeCensus.stmts]
    simp only [valueBlock]
    exact .bind (records_stmt hc none s) fun _ => (records_valueBlock hc (s' :: ss)).map _

theorem records_switchArms {scope other : Scope} (hc : scope.Covers other) :
    ∀ arms : List MatchArm,
      Gen.Records only ownImports ((census only env).matchArms other arms)
        (switchArms env scope arms)
  | [] => by
    rw [switchArms]
    exact .pure _
  | ⟨pattern, .expr value⟩ :: arms => by
    rw [TypeCensus.matchArms, TypeCensus.resultBody, switchArms]
    refine .bind (records_armSelector hc pattern) fun _ => ?_
    exact .bind (records_expr hc value) fun _ => (records_switchArms hc arms).map _
  | ⟨pattern, .block block⟩ :: arms => by
    rw [TypeCensus.matchArms, TypeCensus.resultBody, switchArms]
    refine .bind (records_armSelector hc pattern) fun _ => ?_
    refine .after (.requireImport (by decide)) fun _ => ?_
    exact .bind (records_stmts hc none block) fun _ => (records_switchArms hc arms).map _

theorem records_armSelector {scope other : Scope} (hc : scope.Covers other) :
    ∀ pattern : Pattern,
      Gen.Records only ownImports ((census only env).pattern other pattern)
        (armSelector env scope pattern)
  | .default => by
    rw [armSelector]
    exact .pure _
  | .values values => by
    rw [TypeCensus.pattern, armSelector]
    exact (records_exprs hc values).map _

/-- Writing a statement warns as often as the census counts. -/
theorem records_stmt {scope other : Scope} (hc : scope.Covers other) (loop : Option LoopFrame) :
    ∀ s : Stmt, Gen.Records only ownImports ((census only env).stmt other s) (stmt env scope loop s)
  | .binding b => by
    rw [TypeCensus.stmt, stmt]
    exact (records_binding hc b).map _
  | .ifThen condition thenBranch elseBranch => by
    rw [TypeCensus.stmt, stmt]
    refine .bind (records_expr hc condition) fun _ => ?_
    refine .bind (records_stmts hc loop thenBranch) fun _ => ?_
    exact (records_elseChain hc loop elseBranch).map _
  | .whileLoop condition body => by
    rw [TypeCensus.stmt, stmt]
    refine .bind (records_expr hc condition) fun _ => .after .freshLabel fun _ => ?_
    exact (records_stmts hc _ body).map _
  | .forLoop start condition step body => by
    rw [TypeCensus.stmt, stmt]
    refine .bind (records_forClause hc start) fun _ => ?_
    refine .bind (records_exprOption hc condition) fun _ => ?_
    refine .bind (records_exprOption hc step) fun _ => .after .freshLabel fun _ => ?_
    exact (records_stmts hc _ body).map _
  | .forEach name type iterable body => by
    have hiterable := records_expr hc iterable
    -- The header depends on what is iterated, the rest of the loop does not.
    have hloop : ∀ header : Fragment,
        Gen.Records only ownImports ((census only env).stmts other body) (do
          let number ← Gen.freshLabel
          return loopCode number header (← stmts env scope (some ⟨number, false⟩) body) :
            Gen (List Code)) :=
      fun _ => .after .freshLabel fun _ => (records_stmts hc _ body).map _
    cases iterable with
    | range start stop inclusive =>
      have hstart := records_exprOption hc start
      have hstop := records_exprOption hc stop
      rw [stmt]
      cases stop with
      | none =>
        rw [TypeCensus.stmt]
        exact .bind (records_mapTypeOr hc _ type) fun _ => .bind hstart fun _ => hloop _
      | some stop =>
        simp only [TypeCensus.stmt, TypeCensus.expr]
        have hsequence := records_indexSequence (r := ⟨start, some stop, inclusive⟩) hstart hstop
        exact .bind (records_mapTypeOr hc _ type) fun _ => .bind hsequence fun _ => hloop _
    | _ =>
      simp only [TypeCensus.stmt, stmt]
      exact .bind (records_mapTypeOr hc _ type) fun _ => .bind hiterable fun _ => hloop _
  | .ret none => by
    rw [stmt]
    exact .pure _
  | .ret (some value) => by
    rw [TypeCensus.stmt, TypeCensus.exprOption, stmt]
    exact (records_expr hc value).map _
  | .breakLoop | .continueLoop => by
    rw [stmt]
    exact .pure _
  | .matchOn scrutinee arms => by
    rw [TypeCensus.stmt, stmt]
    exact .bind (records_expr hc scrutinee) fun _ => (records_matchCases hc _ arms).map _
  | .switchOn subject cases => by
    rw [TypeCensus.stmt, stmt]
    exact .bind (records_expr hc subject) fun _ => (records_switchCases hc _ cases).map _
  | .expr value => by
    have hvalue := records_expr hc value
    rw [TypeCensus.stmt]
    cases value with
    | matchOn scrutinee arms =>
      rw [TypeCensus.expr, stmt]
      exact .bind (records_expr hc scrutinee) fun _ => (records_matchCases hc _ arms).map _
    | _ =>
      simp only [stmt]
      exact hvalue.map _
  | .raw block => by
    rw [stmt]
    exact target.records_rawCode block
  | .functionDecl _ decl => by
    rw [TypeCensus.stmt, stmt]
    have hdecl := covers_scopeIn only env hc decl
    rw [← Nat.zero_add ((census only env).functionIn _ decl)]
    exact (records_function _ (fun _ => .pure []) decl hdecl).map _
  | .typeDecl _ _ => by
    rw [stmt]
    exact .fail _
  | .enumDecl _ => by
    rw [stmt]
    exact .fail _
  | .importDecl _ | .includeDecl _ _ | .aliasDecl _ | .namespaceDecl _ _ | .moduleDecl _
  | .fieldDecl _ | .propertyDecl _ => by
    simp only [stmt]
    exact target.records_refuseInBody scope _

/-- The same of a block. -/
theorem records_stmts {scope other : Scope} (hc : scope.Covers other) (loop : Option LoopFrame) :
    ∀ ss : List Stmt,
      Gen.Records only ownImports ((census only env).stmts other ss) (stmts env scope loop ss)
  | [] => by
    rw [stmts]
    exact .pure _
  | s :: ss => by
    rw [TypeCensus.stmts, stmts]
    exact .bind (records_stmt hc loop s) fun _ => (records_stmts hc loop ss).map _

theorem records_binding {scope other : Scope} (hc : scope.Covers other) :
    ∀ b : Binding, Gen.Records only ownImports ((census only env).binding other b)
        (binding env scope b)
  | ⟨name, type, value, mutability⟩ => by
    rw [TypeCensus.binding, binding]
    refine .bind (records_exprOption hc value) fun _ => Gen.Records.map ?_ _
    cases type with
    | none => exact .optionMapM (records_mapType hc) none
    | some type => exact .optionMapM (records_mapType hc) (some type)

theorem records_forClause {scope other : Scope} (hc : scope.Covers other) :
    ∀ start : Option Stmt,
      Gen.Records only ownImports ((census only env).stmtOption other start)
        (forClause env scope start)
  | none => by
    rw [forClause]
    exact .pure _
  | some s => by
    rw [TypeCensus.stmtOption]
    cases s with
    | binding b =>
      rw [TypeCensus.stmt, forClause]
      exact records_binding hc b
    | expr value =>
      rw [TypeCensus.stmt, forClause]
      exact records_expr hc value
    | _ =>
      -- Anything else is left out, with a report of another kind.
      simp only [forClause]
      exact .after (.note (Text.clash_append (Stmt.clash_kindName _))) fun _ => .pure _

theorem records_elseChain {scope other : Scope} (hc : scope.Covers other)
    (loop : Option LoopFrame) :
    ∀ branch : Option (List Stmt),
      Gen.Records only ownImports ((census only env).blockOption other branch)
        (elseChain env scope loop branch)
  | none => by
    rw [elseChain]
    exact .pure _
  | some [] => by
    simp only [TypeCensus.blockOption, elseChain]
    exact (records_stmts hc loop []).map _
  | some [s] => by
    have hs := records_stmts hc loop [s]
    rw [TypeCensus.blockOption]
    cases s with
    | ifThen condition thenBranch elseBranch =>
      rw [TypeCensus.stmts, TypeCensus.stmts, Nat.add_zero, TypeCensus.stmt, elseChain]
      refine .bind (records_expr hc condition) fun _ => ?_
      refine .bind (records_stmts hc loop thenBranch) fun _ => ?_
      exact (records_elseChain hc loop elseBranch).map _
    | _ =>
      simp only [elseChain]
      exact hs.map _
  | some (s :: s' :: ss) => by
    simp only [TypeCensus.blockOption, elseChain]
    exact (records_stmts hc loop (s :: s' :: ss)).map _

theorem records_caseLabels {scope other : Scope} (hc : scope.Covers other) :
    ∀ pattern : Pattern,
      Gen.Records only ownImports ((census only env).pattern other pattern)
        (caseLabels env scope pattern)
  | .default => by
    rw [caseLabels]
    exact .pure _
  | .values values => by
    rw [TypeCensus.pattern, caseLabels]
    exact (records_exprs hc values).map _

theorem records_matchCases {scope other : Scope} (hc : scope.Covers other)
    (loop : Option LoopFrame) :
    ∀ arms : List MatchArm,
      Gen.Records only ownImports ((census only env).matchArms other arms)
        (matchCases env scope loop arms)
  | [] => by
    rw [matchCases]
    exact .pure _
  | ⟨pattern, .expr value⟩ :: arms => by
    rw [TypeCensus.matchArms, TypeCensus.resultBody, matchCases]
    refine .bind (records_caseLabels hc pattern) fun _ => ?_
    exact .bind (records_expr hc value) fun _ => (records_matchCases hc loop arms).map _
  | ⟨pattern, .block block⟩ :: arms => by
    rw [TypeCensus.matchArms, TypeCensus.resultBody, matchCases]
    refine .bind (records_caseLabels hc pattern) fun _ => ?_
    exact .bind (records_stmts hc loop block) fun _ => (records_matchCases hc loop arms).map _

theorem records_switchCases {scope other : Scope} (hc : scope.Covers other)
    (loop : Option LoopFrame) :
    ∀ cases : List SwitchCase,
      Gen.Records only ownImports ((census only env).switchCases other cases)
        (switchCases env scope loop cases)
  | [] => by
    rw [switchCases]
    exact .pure _
  | ⟨pattern, block⟩ :: cases => by
    rw [TypeCensus.switchCases, switchCases]
    refine .bind (records_caseLabels hc pattern) fun _ => ?_
    exact .bind (records_stmts hc loop block) fun _ => (records_switchCases hc loop cases).map _

theorem records_attributeLines {scope other : Scope} (hc : scope.Covers other) :
    ∀ attributes : List Attribute,
      Gen.Records only ownImports ((census only env).attributeArgs other attributes)
        (attributeLines env scope attributes)
  | [] => by
    rw [attributeLines]
    exact .pure _
  | ⟨name, args⟩ :: attributes => by
    rw [TypeCensus.attributeArgs, attributeLines]
    split
    · exact (records_attributeLines hc attributes).mono (Nat.le_add_left _ _)
    · exact .bind (records_exprs hc args) fun _ => (records_attributeLines hc attributes).map _

theorem records_parameters {scope other : Scope} (hc : scope.Covers other) :
    ∀ params : List Parameter,
      Gen.Records only ownImports ((census only env).parameters other params)
        (parameters env scope params)
  | [] => by
    rw [parameters]
    exact .pure _
  | ⟨name, type, default⟩ :: params => by
    rw [TypeCensus.parameters, parameters]
    refine .bind (records_mapTypeOr hc _ type) fun _ => ?_
    exact .bind (records_exprOption hc default) fun _ => (records_parameters hc params).map _

/-- What is written ahead of the body counts as well. -/
theorem records_function {scope other : Scope} (options : FunctionOptions) {before : Nat}
    {prologue : Scope → Gen (List Code)}
    (hprologue : ∀ scope, Gen.Records only ownImports before (prologue scope)) :
    ∀ decl : Function, ({ scope with functionGenerics := decl.generics } : Scope).Covers other →
      Gen.Records only ownImports (before + (census only env).functionIn other decl)
        (function env scope options prologue decl)
  | ⟨name, params, returnType, generics, modifiers, attributes, body, isConstructor, isStatic⟩,
    hc => by
    rw [TypeCensus.functionIn, function]
    refine .after (target.records_skipMarked _ _ _) fun marked => ?_
    split
    · exact .pure _
    split
    · exact .after (.note (Text.clash_append (Text.clash_append rfl))) fun _ => .pure _
    extract_lets makeStatic inner words
    have hinner : inner.Covers other := hc
    have hbody : ({ inner with inConstructor := scope.inConstructor || isConstructor } :
      Scope).Covers other := hc
    refine (Gen.Records.bind (records_attributeLines hinner attributes) fun _ =>
      Gen.Records.bind (m := (census only env).typeOption other returnType +
        ((census only env).generics other generics +
          (before + (census only env).blockOption other body)))
        (records_parameters hinner params) fun _ => ?_).mono (by omega)
    -- The kinds of functions differ in what they look up for their heads.
    extract_lets +lift shown finish named
    have hfinish : ∀ head,
        Gen.Records only ownImports (before + (census only env).blockOption other body)
          (finish head) :=
      fun head => (records_functionBody hbody hprologue head body).map _
    have hnamed : ∀ returns,
        Gen.Records only ownImports ((census only env).generics other generics +
          (before + (census only env).blockOption other body)) (named returns) :=
      fun _ => .bind (records_whereClauses hinner generics) fun _ => hfinish _
    split
    · exact (hfinish _).mono (by omega)
    · split
      · exact (hnamed _).mono (by omega)
      · exact .bind (records_returnSpelling hinner returnType body) hnamed

/-- Writing a body warns as often as the census counts, behind its prologue. -/
theorem records_functionBody {scope other : Scope} (hc : scope.Covers other) {before : Nat}
    {prologue : Scope → Gen (List Code)}
    (hprologue : ∀ scope, Gen.Records only ownImports before (prologue scope)) (head : Fragment) :
    ∀ body : Option (List Stmt),
      Gen.Records only ownImports (before + (census only env).blockOption other body)
        (functionBody env scope prologue head body)
  | none => by
    rw [functionBody]
    exact .pure _
  | some body => by
    rw [TypeCensus.blockOption, functionBody]
    exact .bind (hprologue scope) fun _ => (records_stmts hc none body).map _

end

/-- A function with nothing ahead of its body. -/
theorem records_plainFunction (options : FunctionOptions) (decl : Function)
    (hc : ({ scope with functionGenerics := decl.generics } : Scope).Covers other) :
    Gen.Records only ownImports ((census only env).functionIn other decl)
      (function env scope options (fun _ => return []) decl) := by
  have hnone : ∀ scope : Scope, Gen.Records only ownImports 0 (return [] : Gen (List Code)) :=
    fun _ => .pure []
  exact (records_function options hnone decl hc).mono (by omega)

end CSharp

end SourceGen
