import Mathlib.Algebra.GroupWithZero.Nat
import SourceGen.Compose.Sections
import SourceGen.Scope
import SourceGen.TypeRef.Normalize
import SourceGen.TypeRef.Shape

/-!
# Counting unknown types

How many references to unknown types are written in a tree. Every reference counts in the scope in
which it stands, with the references among its arguments, after it was brought into its normal form.
A census may count the start of a range more than once, as often as a target writes it.

## Main definitions

* `TypeCensus`: what decides which references are unknown.
* `TypeCensus.type`: the unknown references in a reference.
* `TypeCensus.expr`, `TypeCensus.stmts`, `TypeCensus.functionIn`: those in a tree.
* `TypeCensus.sections`: those in a unit.
* `Scope.Covers`: a scope has at least the generic parameters of another.

## Main results

* `TypeRef.classify_unresolved_of_covers`: what is unknown in a scope is unknown with fewer
  generic parameters.
-/

namespace SourceGen

/-- What decides which references are unknown, and how often they count. -/
structure TypeCensus where
  known : KnownTypes
  /-- The name is found outside the unit. -/
  resolves : String → Bool
  /-- References that nothing is known about count if this holds. -/
  counts : TypeRef → Bool
  /-- How often the start of a range counts. -/
  startWeight : Nat
  /-- The generic parameters in scope in a function. -/
  ownGenerics : Function → List GenericParam
  /-- The generic parameters in scope at the return type of the entry function. -/
  entryGenerics : Function → List GenericParam

namespace TypeCensus

variable (c : TypeCensus)

/-- The scope of the parts of a function. -/
def scopeIn (scope : Scope) (f : Function) : Scope :=
  { scope with functionGenerics := c.ownGenerics f }

/-! ### References -/

/-- Counts a normal reference, not its arguments. -/
def head (scope : Scope) (type : TypeRef) : Nat :=
  match TypeRef.classify scope.generics c.known type with
  | .unresolved name _ => if !c.resolves name && c.counts type then 1 else 0
  | _ => 0

mutual

/-- The unknown references in a normal reference. -/
def normal (scope : Scope) : TypeRef → Nat
  | ⟨name, args⟩ => c.head scope ⟨name, args⟩ + normals scope args

/-- The unknown references in normal references. -/
def normals (scope : Scope) : List TypeRef → Nat
  | [] => 0
  | t :: ts => normal scope t + normals scope ts

end

/-- The unknown references in a reference. -/
def type (scope : Scope) (type : TypeRef) : Nat :=
  c.normal scope type.normalize

/-- The unknown references in references. -/
def types (scope : Scope) (types : List TypeRef) : Nat :=
  (types.map (c.type scope)).sum

/-- The unknown references in an optional reference. -/
def typeOption (scope : Scope) : Option TypeRef → Nat
  | none => 0
  | some type => c.type scope type

/-- The unknown references in the bounds of generic parameters. -/
def generics (scope : Scope) (generics : List GenericParam) : Nat :=
  (generics.map fun g => c.types scope g.constraints).sum

/-- The unknown references in a type alias, whose own parameters are not in scope. -/
def typeAlias (scope : Scope) (d : Alias) : Nat :=
  c.type scope d.target + c.generics scope d.generics

/-! ### Trees -/

mutual

/-- The unknown references in an expression. -/
def expr (scope : Scope) : Expr → Nat
  | .literal _ | .ident _ | .path _ | .this => 0
  | .member object _ => expr scope object
  | .index object i => expr scope object + expr scope i
  | .binary left _ right => expr scope left + expr scope right
  | .unary _ operand _ => expr scope operand
  | .assign target _ value => expr scope target + expr scope value
  | .call callee args => expr scope callee + exprs scope args
  | .construct type args => c.type scope type + exprs scope args
  | .array elements elementType => exprs scope elements + c.typeOption scope elementType
  | .lambda params body => parameters scope params + resultBody scope body
  | .range start stop _ => c.startWeight * exprOption scope start + exprOption scope stop
  | .block block => stmts scope block
  | .matchOn scrutinee arms => expr scope scrutinee + matchArms scope arms

/-- The unknown references in expressions. -/
def exprs (scope : Scope) : List Expr → Nat
  | [] => 0
  | e :: es => expr scope e + exprs scope es

/-- The unknown references in an optional expression. -/
def exprOption (scope : Scope) : Option Expr → Nat
  | none => 0
  | some e => expr scope e

/-- The unknown references in an expression or a block. -/
def resultBody (scope : Scope) : Body → Nat
  | .expr value => expr scope value
  | .block block => stmts scope block

/-- The unknown references in a pattern. -/
def pattern (scope : Scope) : Pattern → Nat
  | .default => 0
  | .values values => exprs scope values

/-- The unknown references in the arms of a match. -/
def matchArms (scope : Scope) : List MatchArm → Nat
  | [] => 0
  | ⟨p, result⟩ :: arms => pattern scope p + (resultBody scope result + matchArms scope arms)

/-- The unknown references in the cases of a switch. -/
def switchCases (scope : Scope) : List SwitchCase → Nat
  | [] => 0
  | ⟨p, body⟩ :: cases => pattern scope p + (stmts scope body + switchCases scope cases)

/-- The unknown references in a statement or declaration. A loop over an endless range counts by
itself, from a start that is written once. -/
def stmt (scope : Scope) : Stmt → Nat
  | .importDecl _ | .raw _ | .breakLoop | .continueLoop => 0
  | .includeDecl _ block => stmts scope block
  | .aliasDecl decl => c.typeAlias scope decl
  | .namespaceDecl _ decls => stmts {} decls
  -- The members of a type see its generic parameters, but not those around the type.
  | .typeDecl _ ⟨name, _, attributes, generics, base, interfaces, decls⟩ =>
    attributeArgs {} attributes +
      (c.types (Scope.ofType name generics) (base.toList ++ interfaces) +
        (c.generics (Scope.ofType name generics) generics +
          stmts (Scope.ofType name generics) decls))
  | .enumDecl ⟨_, _, attributes, variants⟩ =>
    attributeArgs {} attributes + variantValues {} variants
  | .moduleDecl ⟨_, _, attributes, decls⟩ => attributeArgs {} attributes + stmts {} decls
  | .functionDecl _ decl => functionIn (c.scopeIn scope decl) decl
  | .fieldDecl ⟨_, type, _, attributes, initializer⟩ =>
    attributeArgs scope attributes + (c.typeOption scope type + exprOption scope initializer)
  | .propertyDecl ⟨_, type, _, attributes, accessors, initializer⟩ =>
    attributeArgs scope attributes + (c.typeOption scope type +
      (exprOption scope initializer + accessorBodies scope accessors))
  | .binding decl => binding scope decl
  | .ifThen condition thenBranch elseBranch =>
    expr scope condition + (stmts scope thenBranch + blockOption scope elseBranch)
  | .whileLoop condition body => expr scope condition + stmts scope body
  | .forLoop start condition step body =>
    stmtOption scope start + (exprOption scope condition + (exprOption scope step +
      stmts scope body))
  -- Without an end there is nothing to count, so the start is not written again.
  | .forEach _ type (.range start none _) body =>
    c.typeOption scope type + (exprOption scope start + stmts scope body)
  | .forEach _ type iterable body =>
    c.typeOption scope type + (expr scope iterable + stmts scope body)
  | .ret value => exprOption scope value
  | .matchOn scrutinee arms => expr scope scrutinee + matchArms scope arms
  | .switchOn subject cases => expr scope subject + switchCases scope cases
  | .expr value => expr scope value

/-- The unknown references in statements. -/
def stmts (scope : Scope) : List Stmt → Nat
  | [] => 0
  | s :: ss => stmt scope s + stmts scope ss

/-- The unknown references in an optional statement. -/
def stmtOption (scope : Scope) : Option Stmt → Nat
  | none => 0
  | some s => stmt scope s

/-- The unknown references in an optional block. -/
def blockOption (scope : Scope) : Option (List Stmt) → Nat
  | none => 0
  | some block => stmts scope block

/-- The unknown references in a variable. -/
def binding (scope : Scope) : Binding → Nat
  | ⟨_, type, value, _⟩ => exprOption scope value + c.typeOption scope type

/-- The unknown references in the arguments of attributes. -/
def attributeArgs (scope : Scope) : List Attribute → Nat
  | [] => 0
  | ⟨_, args⟩ :: attributes => exprs scope args + attributeArgs scope attributes

/-- The unknown references in the values of an enum. -/
def variantValues (scope : Scope) : List EnumVariant → Nat
  | [] => 0
  | ⟨_, value⟩ :: variants => exprOption scope value + variantValues scope variants

/-- The unknown references in the bodies of accessors. -/
def accessorBodies (scope : Scope) : List Accessor → Nat
  | [] => 0
  | ⟨_, _, body⟩ :: accessors => blockOption scope body + accessorBodies scope accessors

/-- The unknown references in parameters. -/
def parameters (scope : Scope) : List Parameter → Nat
  | [] => 0
  | ⟨_, type, default⟩ :: params =>
    c.typeOption scope type + (exprOption scope default + parameters scope params)

/-- The unknown references in a function whose parts stand in the given scope. -/
def functionIn (scope : Scope) : Function → Nat
  | ⟨_, params, returnType, generics, _, attributes, body, _, _⟩ =>
    attributeArgs scope attributes + (parameters scope params + (c.typeOption scope returnType +
      (c.generics scope generics + blockOption scope body)))

end

/-! ### Units -/

/-- The unknown references in the entry function, whose return type may stand in a scope of its
own. -/
def entryFunction (f : Function) : Nat :=
  c.functionIn (c.scopeIn {} f) { f with returnType := none } +
    c.typeOption { functionGenerics := c.entryGenerics f } f.returnType

/-- The unknown references in the functions of a unit. The entry function is the first one with the
entry name. -/
def functions (entryName : String) (entrySeen : Bool) : List Function → Nat
  | [] => 0
  | f :: fs =>
    if !entrySeen && f.name == entryName then
      c.entryFunction f + functions entryName true fs
    else c.functionIn (c.scopeIn {} f) f + functions entryName entrySeen fs

/-- The unknown references in a unit. -/
def sections (entryName : String) (sections : Sections) : Nat :=
  (sections.aliases.map (c.typeAlias {})).sum + c.stmts {} sections.containers +
    c.functions entryName false sections.functions + c.stmts {} sections.members +
    c.stmts {} sections.loose

end TypeCensus

/-! ### Scopes with more generic parameters -/

/-- The scope has at least the generic parameters of the other. -/
def Scope.Covers (scope other : Scope) : Prop :=
  other.classGenerics ⊆ scope.classGenerics ∧ other.functionGenerics ⊆ scope.functionGenerics

namespace Scope

theorem covers_empty (scope : Scope) : scope.Covers {} :=
  ⟨List.nil_subset _, List.nil_subset _⟩

theorem Covers.function {scope other : Scope} (h : scope.Covers other)
    {generics own : List GenericParam} (hg : own ⊆ generics) :
    ({ scope with functionGenerics := generics } : Scope).Covers
      { other with functionGenerics := own } :=
  ⟨h.1, hg⟩

theorem Covers.isParam {scope other : Scope} (h : scope.Covers other) {name : String}
    (hn : TypeRef.isParam other.generics name) : TypeRef.isParam scope.generics name := by
  simp only [TypeRef.isParam, Scope.generics, List.any_cons, List.any_nil, Bool.or_false,
    Bool.or_eq_true, List.any_eq_true] at hn ⊢
  rcases hn with ⟨p, hp, same⟩ | ⟨p, hp, same⟩
  · exact .inl ⟨p, h.1 hp, same⟩
  · exact .inr ⟨p, h.2 hp, same⟩

end Scope

namespace TypeRef

/-- An unknown reference is shown as it is. -/
theorem eq_of_classify_unresolved {generics : List (List GenericParam)} {known : KnownTypes}
    {type : TypeRef} {name : String} {args : List TypeRef}
    (h : classify generics known type = .unresolved name args) : type = ⟨name, args⟩ := by
  obtain ⟨n, as⟩ := type
  rw [classify] at h
  split at h
  · cases h
  split at h
  · cases h
  split at h
  · cases h
  split at h
  · cases h
  split at h
  · cases h
  · cases h
    rfl

/-- What is unknown in a scope is unknown with fewer generic parameters. -/
theorem classify_unresolved_of_covers {scope other : Scope} (h : scope.Covers other)
    {known : KnownTypes} {type : TypeRef} {name : String} {args : List TypeRef}
    (hu : classify scope.generics known type = .unresolved name args) :
    classify other.generics known type = .unresolved name args := by
  obtain ⟨n, as⟩ := type
  rw [classify] at hu ⊢
  split at hu
  · cases hu
  · rename_i notParam
    -- Only the first question, whether this is a parameter, depends on the scope.
    have notParam' : ¬ (as.isEmpty && isParam other.generics n) = true := by
      intro hp
      simp only [Bool.and_eq_true] at hp notParam
      exact notParam ⟨hp.1, h.isParam hp.2⟩
    rw [if_neg notParam']
    exact hu

end TypeRef

end SourceGen
