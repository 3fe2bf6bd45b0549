import SourceGen.CSharp.Unit
import SourceGen.Proofs.CSharp.BodyRecords
import SourceGen.Proofs.LooseCode

/-!
# What runs over C# units record

Writing a unit reports at most the unknown types in its declarations and in its loose code.

## Main results

* `CSharp.records_members`: runs over members.
* `CSharp.records_unitCode`: runs over a unit.
* `CSharp.records_generate`: runs over a program.
-/

namespace SourceGen

namespace CSharp

variable {only : Diagnostic → Bool} {env : Env} {scope other : Scope}

/-! ### Members -/

theorem records_variantLines (hc : scope.Covers other) (variants : List EnumVariant) :
    Gen.Records only ownImports ((census only env).variantValues other variants)
      (variantLines env scope variants) := by
  induction variants with
  | nil => exact .pure _
  | cons v variants ih =>
    obtain ⟨name, value⟩ := v
    rw [TypeCensus.variantValues, variantLines]
    exact .bind (records_exprOption hc value) fun _ => ih.map _

theorem records_enumCode (d : EnumDecl) :
    Gen.Records only ownImports ((census only env).stmt other (.enumDecl d))
      (enumCode env scope d) := by
  obtain ⟨name, modifiers, attributes, variants⟩ := d
  rw [TypeCensus.stmt, enumCode]
  refine .after (target.records_skipMarked _ _ _) fun _ => ?_
  split
  · exact .pure _
  · exact .bind (records_attributeLines scope.covers_empty attributes) fun _ =>
      (records_variantLines scope.covers_empty variants).map _

/-- A field warns within its census. -/
theorem records_fieldCode (hc : scope.Covers other) (d : Field) :
    Gen.Records only ownImports ((census only env).stmt other (.fieldDecl d))
      (fieldCode env scope d) := by
  obtain ⟨name, type, modifiers, attributes, initializer⟩ := d
  rw [TypeCensus.stmt, fieldCode]
  refine .after (target.records_skipMarked _ _ _) fun _ => ?_
  split
  · exact .pure _
  · refine .bind (records_attributeLines hc attributes) fun _ => ?_
    exact .bind (records_mapTypeOr hc _ type) fun _ => (records_exprOption hc initializer).map _

theorem records_accessorCode (hc : scope.Covers other) (accessors : List Accessor) :
    Gen.Records only ownImports ((census only env).accessorBodies other accessors)
      (accessorCode env scope accessors) := by
  induction accessors with
  | nil => exact .pure _
  | cons a accessors ih =>
    obtain ⟨kind, modifiers, body⟩ := a
    rw [TypeCensus.accessorBodies, accessorCode]
    cases body with
    | none => exact (ih.map _).mono (Nat.le_add_left _ _)
    | some body => exact .bind (records_stmts hc none body) fun _ => ih.map _

/-- A property warns within its census. -/
theorem records_propertyCode (hc : scope.Covers other) (d : Property) :
    Gen.Records only ownImports ((census only env).stmt other (.propertyDecl d))
      (propertyCode env scope d) := by
  obtain ⟨name, type, modifiers, attributes, accessors, initializer⟩ := d
  rw [TypeCensus.stmt, propertyCode]
  refine .after (target.records_skipMarked _ _ _) fun _ => ?_
  split
  · exact .pure _
  · refine .bind (records_attributeLines hc attributes) fun _ => ?_
    refine .bind (records_mapTypeOr hc _ type) fun _ => ?_
    split
    · exact ((records_exprOption hc initializer).map _).mono (Nat.le_add_right _ _)
    · exact ((records_accessorCode hc accessors).map _).mono (Nat.le_add_left _ _)

/-- The head of a type warns within the census of its base, its interfaces and its generics. -/
theorem records_typeHead (hc : scope.Covers other) (outer : Scope) (kind : TypeKind)
    (name : String) (modifiers : List Modifier) (generics : List GenericParam)
    (base : Option TypeRef) (interfaces : List TypeRef) :
    Gen.Records only ownImports ((census only env).types other (base.toList ++ interfaces) +
      (census only env).generics other generics)
      (typeHead env outer scope kind name modifiers generics base interfaces) :=
  .bind (records_mapTypes hc _) fun _ => (records_whereClauses hc generics).map _

theorem records_refuseMember (s : Stmt) {n : Nat} :
    Gen.Records only ownImports n (refuseMember scope s) :=
  .after (.note (Text.clash_append s.clash_kindName)) fun _ => .pure _

mutual

/-- A member warns within its census, by induction on its syntax. -/
theorem records_member {scope other : Scope} (hc : scope.Covers other) (host : Host) :
    ∀ s : Stmt, Gen.Records only ownImports ((census only env).stmt other s)
        (member env scope host s)
  | .namespaceDecl name decls => by
    rw [TypeCensus.stmt, member]
    split
    · exact (records_separated decls).map _
    · exact .fail _
  | .typeDecl kind ⟨name, modifiers, attributes, generics, base, interfaces, decls⟩ => by
    rw [TypeCensus.stmt, member]
    split
    · exact .fail _
    · refine .after (target.records_skipMarked _ _ _) fun _ => ?_
      split
      · exact .pure _
      -- Only the generic parameters of the inner scope matter.
      have hinner : ({ Scope.ofType name generics with
          inStatic := modifiers.contains .static
          inInterface := kind = .interface } : Scope).Covers (Scope.ofType name generics) :=
        ⟨List.Subset.refl _, List.Subset.refl _⟩
      refine .bind (records_attributeLines scope.covers_empty attributes) fun _ => ?_
      rw [← Nat.add_assoc]
      refine .bind (records_typeHead hinner scope kind name modifiers generics base interfaces)
        fun _ => ?_
      exact (records_members hinner .type decls).map _
  | .enumDecl decl => by
    rw [member]
    split
    · exact .fail _
    · exact records_enumCode decl
  | .moduleDecl ⟨name, modifiers, attributes, decls⟩ => by
    rw [TypeCensus.stmt, member]
    split
    · exact .fail _
    · refine .after (target.records_skipMarked _ _ _) fun _ => ?_
      split
      · exact .pure _
      refine .bind (records_attributeLines scope.covers_empty attributes) fun _ => ?_
      exact (records_members (Scope.covers_empty _) .module decls).map _
  | .functionDecl kind decl => by
    rw [TypeCensus.stmt, member]
    split
    · exact .fail _
    · have hdecl := covers_scopeIn only env hc decl
      exact (records_plainFunction {} decl hdecl).map _
  | .fieldDecl decl => by
    rw [member]
    split
    · exact .fail _
    · exact records_fieldCode hc decl
  | .propertyDecl decl => by
    rw [member]
    split
    · exact .fail _
    · exact records_propertyCode hc decl
  | .importDecl decl => by
    rw [member]
    split
    · exact .pure _
    · exact records_refuseMember _
  | .includeDecl _ decls => by
    rw [TypeCensus.stmt, member]
    exact records_members hc host decls
  | .raw block => by
    rw [member]
    exact target.records_rawCode block
  | .aliasDecl _ | .binding _ | .ifThen _ _ _ | .whileLoop _ _ | .forLoop _ _ _ _
  | .forEach _ _ _ _ | .ret _ | .breakLoop | .continueLoop | .matchOn _ _ | .switchOn _ _
  | .expr _ => by
    simp only [member]
    exact records_refuseMember _

/-- The same of members. -/
theorem records_members {scope other : Scope} (hc : scope.Covers other) (host : Host) :
    ∀ ss : List Stmt,
      Gen.Records only ownImports ((census only env).stmts other ss) (members env scope host ss)
  | [] => by
    rw [members]
    exact .pure _
  | s :: ss => by
    rw [TypeCensus.stmts, members]
    exact .bind (records_member hc host s) fun _ => (records_members hc host ss).map _

theorem records_separated :
    ∀ ss : List Stmt, Gen.Records only ownImports ((census only env).stmts {} ss) (separated env ss)
  | [] => by
    rw [separated]
    exact .pure _
  | s :: ss => by
    rw [TypeCensus.stmts, separated]
    exact .bind (records_member (Scope.covers_empty {}) .space s) fun _ =>
      (records_separated ss).map _

end

/-! ### The implicit class -/

/-- All parts of an entry function stand in one scope. -/
theorem entryFunction_census (f : Function) :
    (census only env).entryFunction f =
      (census only env).functionIn ((census only env).scopeIn {} f) f := by
  have hscope : ({ functionGenerics := (census only env).entryGenerics f } : Scope) =
      (census only env).scopeIn {} f := rfl
  rw [TypeCensus.entryFunction, hscope]
  obtain ⟨name, params, returnType, generics, modifiers, attributes, body, _, _⟩ := f
  simp only [TypeCensus.functionIn, TypeCensus.typeOption]
  omega

/-- The loose statements count where the entry function is written. -/
def looseShare (only : Diagnostic → Bool) (env : Env) (loose : List Stmt) (entrySeen : Bool)
    (fs : List Function) : Nat :=
  if !entrySeen && (fs.find? (·.name == env.config.entryName)).isSome then
    (census only env).stmts {} loose
  else 0

/-- Functions outside a class warn within their census, and the entry takes the loose code along. -/
theorem records_implicitFunctions (loose : List Stmt) (entrySeen : Bool) (fs : List Function) :
    Gen.Records only ownImports
      (looseShare only env loose entrySeen fs +
        (census only env).functions env.config.entryName entrySeen fs)
      (implicitFunctions env loose entrySeen fs) := by
  induction fs generalizing entrySeen with
  | nil => exact .pure _
  | cons f fs ih =>
    rw [implicitFunctions, TypeCensus.functions]
    split
    · rename_i hentry
      -- The loose code falls to the first function with the name of the entry.
      have hshare : looseShare only env loose entrySeen (f :: fs) =
          (census only env).stmts {} loose := by
        rw [Bool.and_eq_true] at hentry
        simp [looseShare, hentry.1, hentry.2]
      have hrest : looseShare only env loose true fs = 0 := by simp [looseShare]
      rw [hshare]
      extract_lets +lift returnsValue options finish
      -- The entry takes the loose code along, once.
      have hloose : ∀ inner : Scope, Gen.Records only ownImports ((census only env).stmts {} loose)
          (stmts env inner none loose) :=
        fun inner => records_stmts inner.covers_empty none loose
      have hfinish : ∀ u, Gen.Records only ownImports ((census only env).stmts {} loose +
          ((census only env).entryFunction f +
            (census only env).functions env.config.entryName true fs)) (finish u) := by
        intro u
        rw [← Nat.add_assoc, entryFunction_census]
        refine .bind (records_function options hloose f (covers_scopeIn only env
          (Scope.covers_empty _) f)) fun _ => ?_
        exact ((ih true).map _).mono (by omega)
      split
      · exact .after (.information rfl) hfinish
      · exact hfinish ()
    · rename_i hentry
      have hshare : looseShare only env loose entrySeen (f :: fs) =
          looseShare only env loose entrySeen fs := by
        rw [Bool.and_eq_true, not_and] at hentry
        cases entrySeen with
        | true => rfl
        | false =>
          have hname : (f.name == env.config.entryName) = false := by simpa using hentry
          rw [looseShare, List.find?_cons, hname, looseShare]
      have hdecl : ({ implicitScope env.config with functionGenerics := f.generics } :
          Scope).Covers ((census only env).scopeIn {} f) :=
        covers_scopeIn only env (Scope.covers_empty _) f
      rw [hshare]
      refine (Gen.Records.bind (records_plainFunction _ f hdecl) fun _ =>
        (ih entrySeen).map _).mono ?_
      omega

theorem records_looseEntry (loose : List Stmt) :
    Gen.Records only ownImports ((census only env).stmts {} loose) (looseEntry env loose) :=
  (records_stmts (Scope.covers_empty _) none loose).map _

/-- The unknown types in the implicit class. -/
def implicitNodes (only : Diagnostic → Bool) (env : Env) (sections : Sections) : Nat :=
  (census only env).stmts {} sections.members +
    ((census only env).functions env.config.entryName false sections.functions +
      (census only env).stmts {} sections.loose)

/-- The implicit container warns within the census of what it holds. -/
theorem records_implicitContainer (sections : Sections) :
    Gen.Records only ownImports (implicitNodes only env sections)
      (implicitContainer env sections) := by
  unfold implicitContainer
  extract_lets +lift config synthesized
  rename_i name build
  have hbuild : ∀ helpers,
      Gen.Records only ownImports (implicitNodes only env sections) (build helpers) := by
    intro helpers
    refine .bind (records_members (Scope.covers_empty _) .module sections.members) fun _ => ?_
    refine (Gen.Records.bind
      (m := if synthesized then (census only env).stmts {} sections.loose else 0)
      (records_implicitFunctions sections.loose false sections.functions) fun _ => ?_).mono ?_
    · dsimp only
      split
      · exact (records_looseEntry sections.loose).map _
      · exact .pure _
    -- The loose statements are written in the entry function, or alone if there is none.
    have hshare : looseShare only env sections.loose false sections.functions +
        (if synthesized then (census only env).stmts {} sections.loose else 0) ≤
        (census only env).stmts {} sections.loose := by
      have hentry : sections.functions.find? (·.name == env.config.entryName) =
          sections.entry? config.entryName := rfl
      have hno : synthesized =
          ((sections.entry? config.entryName).isNone && !sections.loose.isEmpty) := rfl
      simp only [looseShare, hentry, hno]
      cases sections.entry? config.entryName with
      | some f => simp
      | none =>
        simp only [Option.isSome_none, Bool.and_false, Bool.false_eq_true, if_false, Nat.zero_add]
        split
        · exact Nat.le_refl _
        · exact Nat.zero_le _
    omega
  split
  · exact .after (.requireImport (by decide)) fun _ => hbuild _
  · exact hbuild _

/-! ### The unit -/

/-- A unit warns within the census of its containers and its loose code. -/
theorem records_unitCode (ss : List Stmt) (sections : Sections) :
    Gen.Records only ownImports
      ((census only env).stmts {} sections.containers + implicitNodes only env sections)
      (unitCode env ss sections) := by
  refine .after (target.records_separatedRawCodes sections.raw) fun _ => ?_
  refine .bind (records_separated sections.containers) fun _ => ?_
  extract_lets +lift checkEntry
  have hcheck : ∀ r, Gen.Records only ownImports 0 (checkEntry r) := by
    intro r
    dsimp only [checkEntry]
    split
    · exact .failed _
    · exact .pure _
  split
  · exact .bind (m := 0) (records_implicitContainer sections) fun r =>
      hcheck (.separator :: r.1, r.2)
  · exact (hcheck ([], none)).mono (Nat.zero_le _)

theorem records_typeAliases (aliases : List Alias) :
    Gen.Records only ownImports (aliases.map ((census only env).typeAlias {})).sum
      (typeAliases env aliases) := by
  induction aliases with
  | nil => exact .pure _
  | cons d ds ih =>
    rw [typeAliases, List.map_cons, List.sum_cons]
    split
    · refine .bind ((records_mapType (Scope.covers_empty _) d.target).mono ?_) fun _ => ih.map _
      exact Nat.le_add_right _ _
    · exact .after (.note (Text.clash_append (Text.clash_append rfl))) fun _ =>
        ih.mono (Nat.le_add_left _ _)

/-- The imports of a unit are its own and those that it asks for without another name. -/
def allImports (sections : Sections) : List String :=
  ownImports ++ (sections.imports.filter (·.localName.isNone)).map fun d => Text.join "." d.path

/-- The header warns within the census of the aliases. -/
theorem records_header (sections : Sections) :
    Gen.Records only (allImports sections)
      (sections.aliases.map ((census only env).typeAlias {})).sum
      (header env sections) := by
  unfold header
  refine .after (.forIn fun d hd u => ?_) fun _ => ?_
  · split
    · rename_i unaliased
      refine .after (.requireImport ?_) fun _ => .pure _
      refine List.mem_append_right _ (List.mem_map_of_mem ?_)
      exact List.mem_filter.mpr ⟨hd, by simpa using unaliased⟩
    · exact .pure _
  · refine .bind (m := 0) ?_ fun _ => .after .get fun _ => .pure _
    exact (records_typeAliases sections.aliases).weaken (List.subset_append_left _ _)

/-- A program warns within its census. -/
theorem records_generate (config : Config) (resolver : TypeResolver) (p : Program) :
    Gen.Records only (allImports p.sections)
      ((census only ⟨config, KnownTypes.collect (Stmt.flattenAll p.stmts), resolver⟩).sections
        config.entryName p.sections) (generate config resolver p) := by
  unfold generate
  extract_lets +lift ss env sections build
  have hbuild : ∀ u, Gen.Records only (allImports sections)
      ((census only env).sections config.entryName sections) (build u) := by
    intro u
    have hunit : Gen.Records only (allImports sections) _ (unitCode env ss sections) :=
      (records_unitCode ss sections).weaken (List.subset_append_left _ _)
    refine (Gen.Records.bind hunit fun _ => Gen.Records.bind (m := 0) (records_header sections)
      fun _ => .after .get fun _ => .pure _).mono ?_
    have hname : env.config.entryName = config.entryName := rfl
    simp only [TypeCensus.sections, implicitNodes, hname]
    omega
  split
  · exact .failed _
  · exact hbuild ()

end CSharp

end SourceGen
