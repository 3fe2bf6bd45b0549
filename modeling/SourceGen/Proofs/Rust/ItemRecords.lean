import SourceGen.Proofs.LooseCode
import SourceGen.Proofs.Rust.BodyRecords
import SourceGen.Proofs.Rust.Formatting
import SourceGen.Rust.Unit

/-!
# What runs over Rust items record

Writing the items of a unit reports at most the unknown types in them. The members of a type are
sorted first and written later, each in the inherent implementation or in that of one trait, so
that every type in them is looked up at most once.

## Main definitions

* `Rust.partsNodes`: the unknown types in the sorted members of a type.

## Main results

* `Rust.spends_structParts`: sorting the members leaves what is needed to write them.
* `Rust.records_traitImpls`: the trait implementations share the members among them.
* `Rust.records_items`: runs over items.
* `Rust.records_generate`: runs over a program.
-/

namespace SourceGen

namespace Rust

variable {only : Diagnostic → Bool} {env : Env} {other : Scope} {place : Place}

/-! ### Constants, fields and accessors -/

/-- The unknown types in a constant. -/
def constNodes (only : Diagnostic → Bool) (env : Env) (other : Scope) (f : Field) : Nat :=
  (census only env).typeOption other f.type + (census only env).exprOption other f.initializer

/-- The unknown types in the initializer of a field. -/
def initNodes (only : Diagnostic → Bool) (env : Env) (other : Scope) (f : FieldSpec) : Nat :=
  (census only env).exprOption other f.init

/-- The unknown types in a property with accessor bodies. -/
def accessorNodes (only : Diagnostic → Bool) (env : Env) (other : Scope) (p : Property) : Nat :=
  (census only env).typeOption other p.type + (census only env).accessorBodies other p.accessors

/-- The unknown types in a method. -/
def methodNodes (only : Diagnostic → Bool) (env : Env) (other : Scope) (f : Function) : Nat :=
  (census only env).functionIn ((census only env).scopeIn other f) f

/-- The scope of a constructor, which has no generic parameters of its own. -/
def constructorScope (other : Scope) : Scope :=
  { other with functionGenerics := [] }

/-- The unknown types in a constructor. -/
def constructorNodes (only : Diagnostic → Bool) (env : Env) (other : Scope)
    (constructor : Option Function) : Nat :=
  constructor.elim 0 fun f => (census only env).parameters (constructorScope other) f.params +
    (census only env).blockOption (constructorScope other) f.body

theorem records_memberMarked (s : Stmt) {n : Nat} :
    Gen.Records only ownImports n (memberMarked s) := by
  cases s with
  | fieldDecl f => exact target.records_skipMarked _ _ _
  | propertyDecl p => exact target.records_skipMarked _ _ _
  | functionDecl kind f =>
    rw [memberMarked]
    split
    · exact target.records_skipMarked _ _ _
    · exact .pure _
  | _ => exact .pure _

/-- A constant warns within the census of its field. -/
theorem records_constCode (hc : place.toScope.Covers other) (f : Field) :
    Gen.Records only ownImports (constNodes only env other f) (constCode env place f) := by
  unfold constCode constNodes
  cases f.initializer with
  | none => exact .after (.note (Text.clash_append (Text.clash_append rfl))) fun _ => .pure _
  | some init =>
    exact .bind (records_typeOr hc _ _ _) fun _ => (records_expr hc .value init).map _

theorem records_constCodes (hc : place.toScope.Covers other) (fs : List Field) :
    Gen.Records only ownImports (fs.map (constNodes only env other)).sum
      (constCodes env place fs) := by
  induction fs with
  | nil => exact .pure _
  | cons f fs ih => exact .bind (records_constCode hc f) fun _ => ih.map _

/-- The values of the fields warn within their census. -/
theorem records_fieldValues (hc : place.toScope.Covers other) (fs : List FieldSpec) :
    Gen.Records only ownImports (fs.map (initNodes only env other)).sum
      (fieldValues env place fs) := by
  induction fs with
  | nil => exact .pure _
  | cons f fs ih => exact .bind (records_ownedOption hc f.init) fun _ => ih.map _

/-- A constructor warns within the census of its own body and of the values it fills in. -/
theorem records_constructorCode (hc : place.toScope.Covers other) (constructor : Option Function)
    (fields : List FieldSpec) :
    Gen.Records only ownImports
      (constructorNodes only env other constructor + (fields.map (initNodes only env other)).sum)
      (constructorCode env place constructor fields) := by
  have hbare : place.toScope.Covers (constructorScope other) := ⟨hc.1, List.nil_subset _⟩
  unfold constructorCode
  extract_lets shown inner
  have hinner : inner.toScope.Covers other := hc
  have hinnerBare : inner.toScope.Covers (constructorScope other) := hbare
  have hvalues : Gen.Records only ownImports (fields.map (initNodes only env other)).sum
      (fieldValues env inner fields) := records_fieldValues hinner fields
  cases constructor with
  | none =>
    refine (Gen.Records.bind (records_parameters hbare []) fun _ => hvalues.map _).mono ?_
    simp [TypeCensus.parameters, constructorNodes]
  | some f =>
    refine (Gen.Records.bind (records_parameters hbare f.params) fun _ =>
      Gen.Records.bind (m := (census only env).blockOption (constructorScope other) f.body) hvalues
        fun _ => ?_).mono (by simp only [constructorNodes, Option.elim_some]; omega)
    simp only [Option.bind_some]
    cases f.body with
    | none => exact .pure _
    | some body =>
      rw [TypeCensus.blockOption, Option.getD_some]
      split
      · exact .pure _
      · exact (records_stmts hinnerBare _).map _

/-- Accessors warn within the census of their bodies. -/
theorem records_accessorBodies (hc : place.toScope.Covers other) (inTrait : Bool)
    (shown name type : String) (accessors : List Accessor) :
    Gen.Records only ownImports ((census only env).accessorBodies other accessors)
      (accessorBodies env place inTrait shown name type accessors) := by
  induction accessors with
  | nil => exact .pure _
  | cons a accessors ih =>
    obtain ⟨kind, modifiers, body⟩ := a
    rw [TypeCensus.accessorBodies, accessorBodies]
    cases body with
    | none => exact ih.mono (Nat.le_add_left _ _)
    | some body => exact .bind (records_stmts hc body) fun _ => ih.map _

theorem records_accessorCodes (hc : place.toScope.Covers other) (inTrait : Bool)
    (ps : List Property) :
    Gen.Records only ownImports (ps.map (accessorNodes only env other)).sum
      (accessorCodes env place inTrait ps) := by
  induction ps with
  | nil => exact .pure _
  | cons p ps ih =>
    refine .bind ?_ fun _ => ih.map _
    exact .bind (records_typeOr hc _ _ _) fun _ => records_accessorBodies hc _ _ _ _ _

/-! ### Methods -/

/-- A method warns within its census. -/
theorem records_method (hc : place.toScope.Covers other) (options : FunctionOptions)
    (f : Function) :
    Gen.Records only ownImports (methodNodes only env other f)
      (function env place options (fun _ => return []) f) :=
  records_plainFunction options f (covers_scopeIn only env hc f)

/-- Inherent methods warn within their census. -/
theorem records_inherentMethods (hc : place.toScope.Covers other) (fs : List Function) :
    Gen.Records only ownImports (fs.map (methodNodes only env other)).sum
      (inherentMethods env place fs) := by
  induction fs with
  | nil => exact .pure _
  | cons f fs ih => exact .bind (records_method hc _ f) fun _ => ih.map _

/-- The methods of a trait warn within their census. -/
theorem records_traitMethods (hc : place.toScope.Covers other) (trait : String)
    (fs : List Function) :
    Gen.Records only ownImports (fs.map (methodNodes only env other)).sum
      (traitMethods env place trait fs) := by
  induction fs with
  | nil => exact .pure _
  | cons f fs ih => exact .bind (records_method hc _ f) fun _ => ih.map _

/-! ### Sorting the members of a type -/

/-- The unknown types in the sorted members of a type, less those in the types of fields, which are
looked up while the members are sorted. -/
def partsNodes (only : Diagnostic → Bool) (env : Env) (other : Scope) (parts : StructParts) : Nat :=
  (parts.fields.map (initNodes only env other)).sum +
    (parts.consts.map (constNodes only env other)).sum +
    constructorNodes only env other parts.constructor +
    (parts.accessors.map (accessorNodes only env other)).sum +
    (parts.methods.map (methodNodes only env other)).sum

/-- A constant takes no more than its field has. -/
theorem constNodes_le (only : Diagnostic → Bool) (env : Env) (other : Scope) (f : Field) :
    constNodes only env other f ≤ (census only env).stmt other (.fieldDecl f) := by
  obtain ⟨name, type, modifiers, attributes, initializer⟩ := f
  simp only [constNodes, TypeCensus.stmt]
  omega

/-- Accessors take no more than their property has. -/
theorem accessorNodes_le (only : Diagnostic → Bool) (env : Env) (other : Scope) (p : Property) :
    (census only env).typeOption other p.type + (census only env).exprOption other p.initializer ≤
        (census only env).stmt other (.propertyDecl p) ∧
      accessorNodes only env other p ≤ (census only env).stmt other (.propertyDecl p) := by
  obtain ⟨name, type, modifiers, attributes, accessors, initializer⟩ := p
  simp only [accessorNodes, TypeCensus.stmt]
  omega

/-- A constructor takes no more than its function has. -/
theorem constructorNodes_le (only : Diagnostic → Bool) (env : Env) (other : Scope) {f : Function}
    (h : f.isConstructor = true) :
    constructorNodes only env other (some f) ≤ methodNodes only env other f := by
  have hscope : (census only env).scopeIn other f = constructorScope other := by
    simp [TypeCensus.scopeIn, census, h, constructorScope]
  rw [methodNodes, hscope]
  obtain ⟨name, params, returnType, generics, modifiers, attributes, body, _, _⟩ := f
  simp only [constructorNodes, TypeCensus.functionIn, Option.elim_some]
  omega

/-- Sorting the members leaves what is needed to write them. -/
theorem spends_structParts (hc : place.toScope.Covers other) (owner : String)
    (hasConstructor : Bool) (ss : List Stmt) :
    Gen.Spends only ownImports ((census only env).stmts other ss)
      (structParts env place owner hasConstructor ss) (partsNodes only env other) := by
  induction ss generalizing hasConstructor with
  | nil => exact .pure (by simp [partsNodes, constructorNodes])
  | cons s ss ih =>
    -- The rest leaves what its members need, and with it what this member does not need yet.
    have hrest : ∀ (n : Nat) (seen : Bool), Gen.Spends only ownImports
        (n + (census only env).stmts other ss) (structParts env place owner seen ss)
        fun parts => n + partsNodes only env other parts :=
      fun n seen => (ih seen).mono fun _ => by omega
    have hskip : ∀ (n : Nat) (seen : Bool), Gen.Spends only ownImports
        (n + (census only env).stmts other ss) (structParts env place owner seen ss)
        (partsNodes only env other) :=
      fun n seen => (ih seen).mono fun _ => by omega
    -- The type of a field is looked up here, its initializer later.
    have hfield : ∀ (name : String) (type : Option TypeRef) (init : Option Expr)
        (spec : String → FieldSpec) (n : Nat), (∀ shown, (spec shown).init = init) →
        (census only env).typeOption other type + (census only env).exprOption other init ≤ n →
        Gen.Spends only ownImports (n + (census only env).stmts other ss) (do
          let shown ← typeOr env place.toScope name type init
          let rest ← structParts env place owner hasConstructor ss
          return { rest with fields := spec shown :: rest.fields })
        (partsNodes only env other) := by
      intro name type init spec n hspec hn
      refine Gen.Spends.le (Gen.Spends.step (records_typeOr hc name type init) fun shown =>
        .bind (hrest ((census only env).exprOption other init) hasConstructor) fun rest =>
          .pure ?_) ?_
      · simp only [partsNodes, List.map_cons, List.sum_cons, initNodes, hspec]
        omega
      · omega
    rw [TypeCensus.stmts]
    unfold structParts
    refine .after (records_memberMarked s) fun marked => ?_
    split
    · exact hskip _ hasConstructor
    cases s with
    | fieldDecl f =>
      have hle := constNodes_le only env other f
      dsimp only
      split
      · refine .bind (hrest _ hasConstructor) fun rest => .pure ?_
        simp only [partsNodes, List.map_cons, List.sum_cons]
        omega
      · exact hfield f.name f.type f.initializer _ _ (fun _ => rfl) hle
    | propertyDecl p =>
      have hle := accessorNodes_le only env other p
      dsimp only
      split
      · exact hfield p.name p.type p.initializer _ _ (fun _ => rfl) hle.1
      · refine .bind (hrest _ hasConstructor) fun rest => .pure ?_
        simp only [partsNodes, List.map_cons, List.sum_cons]
        omega
    | functionDecl kind f =>
      have hmethod : (census only env).stmt other (.functionDecl kind f) =
          methodNodes only env other f := by
        rw [TypeCensus.stmt, methodNodes]
      rw [hmethod]
      dsimp only
      split
      · rename_i hconstructor
        split
        · refine .after (.note ?_) fun _ => hskip _ true
          exact Text.clash_append (Text.clash_append rfl)
        · refine .bind (hrest _ true) fun rest => .pure ?_
          have hle := constructorNodes_le only env other hconstructor
          simp only [partsNodes]
          omega
      · refine .bind (hrest _ hasConstructor) fun rest => .pure ?_
        simp only [partsNodes, List.map_cons, List.sum_cons]
        omega
    | raw block =>
      refine .bind (hrest _ hasConstructor) fun rest => .pure ?_
      simp only [partsNodes]
      omega
    | _ =>
      exact .after (.note (Text.clash_append (Stmt.clash_kindName _))) fun _ =>
        hskip _ hasConstructor

/-! ### Trait implementations -/

/-- The base of a struct is spent once, as a trait or as a comment. -/
theorem spends_baseTraits (other : Scope) (owner : String) (base : Option TypeRef) :
    Gen.Spends only ownImports ((census only env).types other base.toList)
      (baseTraits env owner base)
      fun r => (census only env).types other r.1 := by
  cases base with
  | none => exact .pure (Nat.le_refl _)
  | some base =>
    unfold baseTraits
    dsimp only
    split
    · exact .pure (Nat.le_refl _)
    · exact .after (.information rfl) fun _ => .pure (Nat.zero_le _)

/-- The listed types of a struct are spent once each. -/
theorem spends_listedTraits (other : Scope) (owner : String) (listed : List TypeRef) :
    Gen.Spends only ownImports ((census only env).types other listed)
      (listedTraits env owner listed)
      fun r => (census only env).types other r.1 := by
  induction listed with
  | nil => exact .pure (Nat.le_refl _)
  | cons t ts ih =>
    have hcons : ∀ ts, (census only env).types other (t :: ts) =
        (census only env).type other t + (census only env).types other ts := fun _ => rfl
    rw [listedTraits, hcons]
    split
    · rw [Nat.add_comm]
      refine .bind (ih.keep _) fun r => .pure ?_
      rw [hcons]
      omega
    · refine .after (.information rfl) fun _ => .bind (ih.le (Nat.le_add_left _ _)) fun r => ?_
      exact .pure (Nat.le_refl _)

section Shares

variable {α : Type}

/-- What the traits from a place on own together. -/
def shareFrom (owner : α → Option Nat) (weight : α → Nat) (index : Nat) (as : List α) : Nat :=
  ((as.filter fun a => (owner a).any (index ≤ ·)).map weight).sum

/-- The trait at a place owns its part of what is owned from there on. -/
theorem sum_filter_add_shareFrom (owner : α → Option Nat) (weight : α → Nat) (index : Nat)
    (as : List α) :
    ((as.filter fun a => owner a == some index).map weight).sum +
      shareFrom owner weight (index + 1) as = shareFrom owner weight index as := by
  induction as with
  | nil => rfl
  | cons a as ih =>
    simp only [shareFrom, List.filter_cons] at ih ⊢
    cases howner : owner a with
    | none =>
      simp only [Option.any_none, Bool.false_eq_true, if_false]
      simpa using ih
    | some n =>
      -- What is owned ahead of the place is on neither side, what is owned behind it on both.
      rcases Nat.lt_trichotomy n index with before | same | behind
      · have h₁ : ¬ index ≤ n := by omega
        have h₂ : ¬ index + 1 ≤ n := by omega
        have h₃ : n ≠ index := by omega
        simp only [Option.any_some, h₁, h₂, decide_false, Bool.false_eq_true, if_false,
          Option.some_beq_some, beq_iff_eq, h₃]
        exact ih
      · subst same
        simp only [beq_self_eq_true, if_true, Option.any_some, Nat.le_refl, decide_true,
          Nat.not_succ_le_self, decide_false, Bool.false_eq_true, if_false, List.map_cons,
          List.sum_cons]
        omega
      · have h₁ : index ≤ n := by omega
        have h₂ : index + 1 ≤ n := by omega
        have h₃ : n ≠ index := by omega
        simp only [Option.any_some, h₁, h₂, decide_true, if_true, List.map_cons, List.sum_cons,
          Option.some_beq_some, beq_iff_eq, h₃, if_false]
        omega

/-- What no trait owns, and what any of them owns, is everything. -/
theorem sum_filter_isNone_add_shareFrom (owner : α → Option Nat) (weight : α → Nat)
    (as : List α) :
    ((as.filter fun a => (owner a).isNone).map weight).sum + shareFrom owner weight 0 as =
      (as.map weight).sum := by
  induction as with
  | nil => rfl
  | cons a as ih =>
    simp only [shareFrom, List.filter_cons] at ih ⊢
    cases howner : owner a with
    | none =>
      simp only [Option.isNone_none, if_true, Option.any_none, Bool.false_eq_true, if_false,
        List.map_cons, List.sum_cons]
      omega
    | some n =>
      have hany : (some n).any (0 ≤ ·) = true := by simp
      rw [hany]
      simp only [Option.isNone_some, Bool.false_eq_true, if_false, if_true, List.map_cons,
        List.sum_cons]
      omega

end Shares

/-- The trait implementations share the members among them. -/
theorem records_traitImpls (hc : place.toScope.Covers other) (owner bounds args : String)
    (traits : List TypeRef) (parts : StructParts) (index : Nat) (ts : List TypeRef) :
    Gen.Records only ownImports
      ((census only env).types other ts +
        (shareFrom (fun p => propertyOwner? env traits p.name) (accessorNodes only env other) index
            parts.accessors +
          shareFrom (methodOwner? env traits) (methodNodes only env other) index parts.methods))
      (traitImpls env place owner bounds args traits parts index ts) := by
  induction ts generalizing index with
  | nil => exact .pure _
  | cons t ts ih =>
    have hcons : (census only env).types other (t :: ts) =
        (census only env).type other t + (census only env).types other ts := rfl
    have haccessors := sum_filter_add_shareFrom
      (fun p : Property => propertyOwner? env traits p.name) (accessorNodes only env other) index
      parts.accessors
    have hmethods := sum_filter_add_shareFrom (methodOwner? env traits) (methodNodes only env other)
      index parts.methods
    rw [traitImpls]
    refine (Gen.Records.bind (Gen.Records.bind (records_mapType hc t) fun _ =>
      Gen.Records.bind (records_accessorCodes hc true _) fun _ =>
        (records_traitMethods hc t.name _).map _) fun _ => (ih (index + 1)).map _).mono ?_
    omega

/-! ### Types -/

/-- A struct warns within the census of its declaration. -/
theorem records_structCode (d : TypeDecl) (kind : TypeKind) :
    Gen.Records only ownImports ((census only env).stmt other (.typeDecl kind d))
      (structCode env d) := by
  obtain ⟨name, modifiers, attributes, generics, base, interfaces, decls⟩ := d
  have htypes : (census only env).types (Scope.ofType name generics) (base.toList ++ interfaces) =
      (census only env).types (Scope.ofType name generics) base.toList +
        (census only env).types (Scope.ofType name generics) interfaces := by
    simp [TypeCensus.types]
  rw [TypeCensus.stmt, structCode, htypes]
  generalize hscope : Scope.ofType name generics = scope
  have hc : (Place.ofType name generics).toScope.Covers scope := by
    rw [← hscope]
    exact ⟨List.Subset.refl _, List.Subset.refl _⟩
  refine .after (target.records_skipMarked _ _ _) fun marked => ?_
  split
  · exact .pure _
  -- The members are sorted first; what that leaves is spent on writing them.
  generalize hfirst : (census only env).attributeArgs {} attributes = first
  generalize hbounds : (census only env).generics scope generics = bounds
  refine Gen.Spends.le (.bind ((spends_structParts hc name false decls).keep
    ((census only env).types scope base.toList + (census only env).types scope interfaces + first +
      bounds))
    fun parts => ?_) (by omega)
  refine Gen.Spends.le (.bind ((spends_baseTraits scope name base).keep
    ((census only env).types scope interfaces + first + bounds + partsNodes only env scope parts))
    fun ⟨baseTrait, baseComment⟩ => ?_) (by omega)
  refine Gen.Spends.le (.bind ((spends_listedTraits scope name interfaces).keep
    ((census only env).types scope baseTrait + first + bounds + partsNodes only env scope parts))
    fun ⟨listed, listedComments⟩ => ?_) (by dsimp only; omega)
  have htraits : (census only env).types scope (baseTrait ++ listed) =
      (census only env).types scope baseTrait + (census only env).types scope listed := by
    simp [TypeCensus.types]
  -- The type's own implementation has what no trait owns, those of the traits have the rest.
  have haccessors := sum_filter_isNone_add_shareFrom
    (fun p : Property => propertyOwner? env (baseTrait ++ listed) p.name)
    (accessorNodes only env scope) parts.accessors
  have hmethods := sum_filter_isNone_add_shareFrom (methodOwner? env (baseTrait ++ listed))
    (methodNodes only env scope) parts.methods
  dsimp only
  refine Gen.Records.mono
    (.bind (records_attributeLines (Scope.covers_empty _) attributes) fun _ =>
    .bind (records_genericParams hc generics) fun _ =>
    .bind (records_constCodes hc parts.consts) fun _ =>
    .bind (records_constructorCode hc parts.constructor parts.fields) fun _ =>
    .bind (records_accessorCodes hc false _) fun _ =>
    .bind (records_inherentMethods hc _) fun _ =>
    .after (target.records_rawCodes parts.raws) fun _ =>
    (records_traitImpls hc name _ _ (baseTrait ++ listed) parts 0 (baseTrait ++ listed)).map _) ?_
  simp only [partsNodes]
  omega

theorem records_traitMembers (hc : place.toScope.Covers other) (owner : String)
    (ss : List Stmt) :
    Gen.Records only ownImports ((census only env).stmts other ss)
      (traitMembers env place owner ss) := by
  induction ss with
  | nil => exact .pure _
  | cons s ss ih =>
    have hskip := ih.mono (Nat.le_add_left _ ((census only env).stmt other s))
    rw [TypeCensus.stmts]
    unfold traitMembers
    refine .after (records_memberMarked s) fun _ => ?_
    split
    · exact hskip
    cases s with
    | functionDecl kind f =>
      rw [TypeCensus.stmt]
      exact .bind (records_method hc _ f) fun _ => ih.map _
    | propertyDecl p =>
      -- A trait declares the accessors of a property without their bodies.
      have hle := accessorNodes_le only env other p
      refine (Gen.Records.bind (records_typeOr hc p.name p.type none) fun _ => ih.map _).mono ?_
      simp only [accessorNodes] at hle
      omega
    | _ => exact .after (.note (Text.clash_append (Stmt.clash_kindName _))) fun _ => hskip

/-- A trait warns within the census of its declaration. -/
theorem records_traitCode (d : TypeDecl) (kind : TypeKind) :
    Gen.Records only ownImports ((census only env).stmt other (.typeDecl kind d))
      (traitCode env d) := by
  obtain ⟨name, modifiers, attributes, generics, base, interfaces, decls⟩ := d
  rw [TypeCensus.stmt, traitCode]
  generalize hscope : Scope.ofType name generics = scope
  refine .after (target.records_skipMarked _ _ _) fun marked => ?_
  split
  · exact .pure _
  extract_lets typePlace inner
  have hc : inner.toScope.Covers scope := by
    rw [← hscope]
    exact ⟨List.Subset.refl _, List.Subset.refl _⟩
  clear_value inner
  refine .bind (records_attributeLines (Scope.covers_empty _) attributes) fun _ => ?_
  refine .bind (records_mapTypes hc (base.toList ++ interfaces)) fun _ => ?_
  refine .bind (records_genericParams hc generics) fun _ => ?_
  exact (records_traitMembers hc name decls).map _

theorem records_variantLines (variants : List EnumVariant) :
    Gen.Records only ownImports ((census only env).variantValues {} variants)
      (variantLines env variants) := by
  induction variants with
  | nil => exact .pure _
  | cons v variants ih =>
    obtain ⟨name, value⟩ := v
    rw [TypeCensus.variantValues, variantLines]
    cases value with
    | none => exact (ih.map _).mono (Nat.le_add_left _ _)
    | some value =>
      exact .bind (records_expr (Scope.covers_empty _) .value value) fun _ => ih.map _

/-- An enumeration warns within the census of its declaration. -/
theorem records_enumCode (d : EnumDecl) :
    Gen.Records only ownImports ((census only env).stmt other (.enumDecl d)) (enumCode env d) := by
  obtain ⟨name, modifiers, attributes, variants⟩ := d
  rw [TypeCensus.stmt, enumCode]
  refine .after (target.records_skipMarked _ _ _) fun _ => ?_
  split
  · exact .pure _
  · exact .bind (records_attributeLines (Scope.covers_empty _) attributes) fun _ =>
      (records_variantLines variants).map _

theorem records_aliasLine (d : Alias) (scope : Scope) :
    Gen.Records only ownImports ((census only env).typeAlias {} d) (aliasLine env scope d) :=
  ((records_mapType scope.covers_empty d.target).map _).mono (Nat.le_add_right _ _)

/-! ### Items -/

mutual

/-- An item warns within its census, by induction on its syntax. -/
theorem records_item {place : Place} (hc : place.toScope.Covers {}) (host : Host) :
    ∀ s : Stmt, Gen.Records only ownImports ((census only env).stmt {} s) (item env place host s)
  | .namespaceDecl name decls => by
    rw [TypeCensus.stmt, item]
    exact (records_separatedItems decls).map _
  | .typeDecl kind decl => by
    cases kind with
    | interface =>
      rw [item]
      exact records_traitCode decl .interface
    | cls =>
      rw [item]
      · exact records_structCode decl .cls
      · simp
    | struct =>
      rw [item]
      · exact records_structCode decl .struct
      · simp
  | .enumDecl decl => by
    rw [item]
    exact records_enumCode decl
  | .moduleDecl ⟨name, modifiers, attributes, decls⟩ => by
    rw [TypeCensus.stmt, item]
    refine .after (target.records_skipMarked _ _ _) fun _ => ?_
    split
    · exact .pure _
    refine .bind (records_attributeLines (Scope.covers_empty _) attributes) fun _ => ?_
    exact (records_items (Scope.covers_empty _) .module decls).map _
  | .functionDecl kind decl => by
    rw [TypeCensus.stmt, item]
    exact (records_method hc _ decl).map _
  | .fieldDecl decl => by
    rw [item]
    split
    · refine .after (target.records_skipMarked _ _ _) fun _ => ?_
      split
      · exact .pure _
      · exact (records_constCode hc decl).mono (constNodes_le _ _ _ decl)
    · exact .fail _
  | .propertyDecl decl => by
    rw [item]
    exact .fail _
  | .importDecl decl => by
    rw [item]
    exact .pure _
  | .aliasDecl decl => by
    rw [TypeCensus.stmt, item]
    exact (records_aliasLine decl _).map _
  | .includeDecl _ decls => by
    rw [TypeCensus.stmt, item]
    exact records_items hc host decls
  | .raw block => by
    rw [item]
    exact target.records_rawCode block
  | .binding _ | .ifThen _ _ _ | .whileLoop _ _ | .forLoop _ _ _ _ | .forEach _ _ _ _ | .ret _
  | .breakLoop | .continueLoop | .matchOn _ _ | .switchOn _ _ | .expr _ => by
    simp only [item]
    exact .after (.note (Text.clash_append (Stmt.clash_kindName _))) fun _ => .pure _

/-- The same of items. -/
theorem records_items {place : Place} (hc : place.toScope.Covers {}) (host : Host) :
    ∀ ss : List Stmt, Gen.Records only ownImports ((census only env).stmts {} ss)
        (items env place host ss)
  | [] => by
    rw [items]
    exact .pure _
  | s :: ss => by
    rw [TypeCensus.stmts, items]
    exact .bind (records_item hc host s) fun _ => (records_items hc host ss).map _

theorem records_separatedItems :
    ∀ ss : List Stmt, Gen.Records only ownImports ((census only env).stmts {} ss)
        (separatedItems env ss)
  | [] => by
    rw [separatedItems]
    exact .pure _
  | s :: ss => by
    rw [TypeCensus.stmts, separatedItems]
    exact .bind (records_item (Scope.covers_empty _) .space s) fun _ =>
      (records_separatedItems ss).map _

end

/-! ### The unit -/

/-- The entry function counts where it is written, behind the others. -/
def entryShare (only : Diagnostic → Bool) (env : Env) (entrySeen : Bool)
    (fs : List Function) : Nat :=
  if entrySeen then 0
  else (fs.find? (·.name == env.config.entryName)).elim 0 (census only env).entryFunction

/-- The functions beside the entry are spent, and the entry is left over. -/
theorem spends_plainFunctions (entrySeen : Bool) (fs : List Function) :
    Gen.Spends only ownImports ((census only env).functions env.config.entryName entrySeen fs)
      (plainFunctions env entrySeen fs) fun _ => entryShare only env entrySeen fs := by
  induction fs generalizing entrySeen with
  | nil =>
    refine .pure ?_
    simp [entryShare, TypeCensus.functions]
  | cons f fs ih =>
    rw [plainFunctions, TypeCensus.functions]
    by_cases hentry : (!entrySeen && f.name == env.config.entryName) = true
    · have hshare : entryShare only env entrySeen (f :: fs) =
          (census only env).entryFunction f := by
        rw [Bool.and_eq_true] at hentry
        have hunseen : entrySeen = false := by simpa using hentry.1
        simp [entryShare, hunseen, hentry.2]
      rw [if_pos hentry, if_pos hentry, hshare]
      exact (ih true).mono fun _ => by simp [entryShare]
    · have hshare : entryShare only env entrySeen (f :: fs) = entryShare only env entrySeen fs := by
        cases entrySeen with
        | true => rfl
        | false =>
          have hname : (f.name == env.config.entryName) = false := by simpa using hentry
          simp [entryShare, hname]
      rw [if_neg hentry, if_neg hentry, hshare]
      refine .step (records_method (Scope.covers_empty _) _ f) fun _ => ?_
      exact .bind (ih entrySeen) fun _ => .pure (Nat.le_refl _)

/-- Nothing is looked up for a function that is not emitted. -/
theorem records_markedFunction {f : Function} (h : f.marker.isSome) (options : FunctionOptions)
    (prologue : Place → Gen (List Code)) {n : Nat} :
    Gen.Records only ownImports n (function env place options prologue f) := by
  obtain ⟨name, params, returnType, generics, modifiers, attributes, body, _, _⟩ := f
  obtain ⟨marker, hmarker⟩ := Option.isSome_iff_exists.mp h
  rw [Function.marker] at hmarker
  rw [function]
  simp only [TargetName.skipMarked, hmarker, bind_assoc, pure_bind, if_true]
  exact .after (.information rfl) fun _ => .pure _

theorem records_entryCode (f : Function) (loose : List Stmt) :
    Gen.Records only ownImports ((census only env).entryFunction f +
      (census only env).stmts {} loose) (entryCode env f loose) := by
  unfold entryCode
  split
  · rename_i hmarked
    exact (records_markedFunction hmarked {} _).map _
  extract_lets +lift finish
  -- The return type is looked up ahead of the function, which is then given one.
  have hfinish : ∀ u, Gen.Records only ownImports
      ((census only env).entryFunction f + (census only env).stmts {} loose) (finish u) := by
    intro u
    have hnodes : ∀ returns : String, (census only env).typeOption {} f.returnType +
        ((census only env).stmts {} loose +
          functionNodes only env ((census only env).scopeIn {} f) (some returns) f) =
        (census only env).entryFunction f + (census only env).stmts {} loose := by
      intro returns
      have hscope : ({ functionGenerics := (census only env).entryGenerics f } : Scope) = {} := rfl
      rw [TypeCensus.entryFunction, hscope]
      obtain ⟨name, params, returnType, generics, modifiers, attributes, body, _, _⟩ := f
      simp only [functionNodes, returnNodes, TypeCensus.functionIn, TypeCensus.typeOption]
      omega
    have hloose : ∀ inner : Place, Gen.Records only ownImports
        ((census only env).stmts {} loose) (stmts env inner loose) :=
      fun inner => records_stmts (Scope.covers_empty _) loose
    rw [← hnodes ""]
    refine .bind (records_mapTypeOption (Scope.covers_empty _) f.returnType) fun declared => ?_
    extract_lets returnsValue options
    have hreturns : functionNodes only env ((census only env).scopeIn {} f) options.returns f =
        functionNodes only env ((census only env).scopeIn {} f) (some "") f := by
      dsimp only [options]
      split <;> rfl
    rw [← hreturns]
    exact (records_function options hloose f
      (covers_scopeIn only env (Scope.covers_empty _) f)).map _
  split
  · exact .after (.information rfl) hfinish
  · exact hfinish ()

theorem records_looseMain (loose : List Stmt) :
    Gen.Records only ownImports ((census only env).stmts {} loose) (looseMain env loose) := by
  refine .bind (m := 0) (records_stmts (Scope.covers_empty _) loose) fun _ => ?_
  split
  · exact .pure _
  · exact .pure _

/-- A unit warns within the census of its functions, its loose code and its items. -/
theorem records_unitCode (sections : Sections) :
    Gen.Records only ownImports ((census only env).stmts {} sections.containers +
      ((census only env).functions env.config.entryName false sections.functions +
        (census only env).stmts {} sections.loose)) (unitCode env sections) := by
  unfold unitCode
  extract_lets +lift build
  have hbuild : ∀ u, Gen.Records only ownImports ((census only env).stmts {} sections.containers +
      ((census only env).functions env.config.entryName false sections.functions +
        (census only env).stmts {} sections.loose)) (build u) := by
    intro u
    refine .after (target.records_separatedRawCodes sections.raw) fun _ => ?_
    refine .bind (records_items (Scope.covers_empty _) .space sections.containers) fun _ => ?_
    refine Gen.Spends.bind ((spends_plainFunctions false sections.functions).keep _) fun _ => ?_
    extract_lets +lift checkEntry
    have hcheck : ∀ r, Gen.Records only ownImports 0 (checkEntry r) := by
      intro r
      dsimp only [checkEntry]
      split
      · exact .failed _
      · exact .pure _
    have hshare : entryShare only env false sections.functions =
        (sections.entry? env.config.entryName).elim 0 (census only env).entryFunction := rfl
    rw [hshare]
    cases sections.entry? env.config.entryName with
    | some f => exact Gen.Records.bind (m := 0) (records_entryCode f sections.loose) hcheck
    | none =>
      rw [Option.elim_none, Nat.zero_add]
      dsimp only
      split
      · exact (hcheck ([], false)).mono (Nat.zero_le _)
      · exact Gen.Records.bind (m := 0) (records_looseMain sections.loose) fun code =>
          hcheck (code, true)
  split
  · split
    · exact .failed _
    · exact .failed _
    · exact hbuild ()
  · exact hbuild ()

/-- The imports of a unit are its own and those that it asks for. -/
def allImports (sections : Sections) : List String :=
  ownImports ++ sections.imports.map importText

/-- The header warns within the census of the aliases. -/
theorem records_header (sections : Sections) :
    Gen.Records only (allImports sections)
      (sections.aliases.map ((census only env).typeAlias {})).sum
      (header env sections) := by
  unfold header
  refine .after (.forIn fun d hd u => ?_) fun _ => ?_
  · refine .after (.requireImport ?_) fun _ => .pure _
    exact List.mem_append_right _ (List.mem_map_of_mem hd)
  · refine .bind (m := 0) ?_ fun _ => .after .get fun _ => .pure _
    refine Gen.Records.weaken ?_ (List.subset_append_left ownImports _)
    exact .mapM (fun d => records_aliasLine d {}) sections.aliases

/-- A program warns within its census. -/
theorem records_compose (config : Config) (p : Program) :
    Gen.Records only (allImports p.sections)
      ((census only ⟨config, KnownTypes.collect (Stmt.flattenAll p.stmts),
        collectTraits (Stmt.flattenAll p.stmts)⟩).sections config.entryName p.sections)
      (compose config p) := by
  unfold compose
  extract_lets +lift ss env sections build
  have hbuild : ∀ u, Gen.Records only (allImports sections)
      ((census only env).sections config.entryName sections) (build u) := by
    intro u
    have hunit : Gen.Records only (allImports sections) _ (unitCode env sections) :=
      (records_unitCode sections).weaken (List.subset_append_left _ _)
    refine (Gen.Records.bind hunit fun _ => Gen.Records.bind (m := 0) (records_header sections)
      fun _ => .after .get fun _ => .pure _).mono ?_
    have hname : env.config.entryName = config.entryName := rfl
    simp only [TypeCensus.sections, hname]
    omega
  split
  · exact .failed _
  · exact hbuild ()

/-- Formatting reports no unknown types. -/
theorem records_generate (formatter : Formatter) (config : Config) (p : Program) :
    Gen.Records only (allImports p.sections)
      ((census only ⟨config, KnownTypes.collect (Stmt.flattenAll p.stmts),
        collectTraits (Stmt.flattenAll p.stmts)⟩).sections config.entryName p.sections)
      (generate formatter config p) :=
  (records_compose config p).bind fun w => records_formatted w

end Rust

end SourceGen
