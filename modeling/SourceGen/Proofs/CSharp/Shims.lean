import SourceGen.Proofs.BackendRun
import SourceGen.Proofs.CSharp.BodyCalls
import SourceGen.Proofs.CSharp.EntryPart
import SourceGen.Proofs.CSharp.UnitWritten

/-!
# Definitions of builtins in C# units

With shims a unit calls the builtins by their own names, wherever the calls stand. The definitions
of these names stand in the implicit class, and a unit has that class only for code outside any
type. A unit of types alone calls names that nothing in it defines.

## Main definitions

* `Builtin.inMember`, `Builtin.inUnit`: a declaration, or a whole unit, has a call of the builtin.
* `CSharp.DefinesShims`: the code is the implicit class with the definitions of the builtins.

## Main results

* `CSharp.shows_member`, `CSharp.shows_unitCode`: the code of declarations and units has their
  calls.
* `Backend.definesShims_iff`: when the builtins that a unit calls are defined in it.
-/

namespace SourceGen

/-! ### Calls in declarations -/

namespace Builtin

variable (fn : Builtin)

/-- The field is written, and it has a call of the builtin. -/
def inField (d : Field) : Bool :=
  (Marker.of? d.attributes).isNone &&
    (fn.inAttributes d.attributes || fn.inExprOption d.initializer)

/-- The property is written, and it has a call of the builtin. -/
def inProperty (d : Property) : Bool :=
  (Marker.of? d.attributes).isNone && (fn.inAttributes d.attributes ||
    if d.isAuto then fn.inExprOption d.initializer
    else d.accessors.any fun a => fn.inBlockOption a.body)

/-- The enum is written, and it has a call of the builtin. -/
def inEnum (d : EnumDecl) : Bool :=
  (Marker.of? d.attributes).isNone &&
    (fn.inAttributes d.attributes || d.variants.any fun v => fn.inExprOption v.value)

mutual

/-- The declaration is written, and it has a call of the builtin. Code to run has no place among
declarations. -/
def inMember : Stmt → Bool
  | .includeDecl _ decls => inMembers decls
  | .namespaceDecl _ decls => inMembers decls
  | .typeDecl _ ⟨_, _, attributes, _, _, _, decls⟩ | .moduleDecl ⟨_, _, attributes, decls⟩ =>
    (Marker.of? attributes).isNone && (fn.inAttributes attributes || inMembers decls)
  | .enumDecl decl => fn.inEnum decl
  | .functionDecl _ decl => fn.inFunction decl
  | .fieldDecl decl => fn.inField decl
  | .propertyDecl decl => fn.inProperty decl
  | .importDecl _ | .aliasDecl _ | .binding _ | .ifThen _ _ _ | .whileLoop _ _ | .forLoop _ _ _ _
  | .forEach _ _ _ _ | .ret _ | .breakLoop | .continueLoop | .matchOn _ _ | .switchOn _ _
  | .expr _ | .raw _ => false

/-- One of the declarations has a call of the builtin. -/
def inMembers : List Stmt → Bool
  | [] => false
  | s :: ss => inMember s || inMembers ss

end

/-- The loose code of a unit has a call of the builtin. The loose statements are lost if the entry
function that they belong to is not written. -/
def inLooseCode (config : Config) (sections : Sections) : Bool :=
  fn.inMembers sections.members || (sections.functions.any fn.inFunction ||
    (sections.takesLoose config && fn.inStmts sections.loose))

/-- The unit has a call of the builtin. -/
def inUnit (config : Config) (sections : Sections) : Bool :=
  fn.inMembers sections.containers || fn.inLooseCode config sections

end Builtin

namespace CSharp

open Fragment (text)

variable {fn : Builtin} {env : Env} {scope : Scope}

/-! ### Declarations without their members -/

/-- What is written with its attributes shows nothing with a marker. -/
theorem shows_unlessMarked {kind name : String} {attributes : List Attribute}
    {x : Gen (List Code)} {seen : Bool} (hx : x.Shows seen (Code.anyCalls fn)) :
    (target.skipMarked kind name attributes >>= fun skipped =>
      if skipped = true then pure [] else x).Shows ((Marker.of? attributes).isNone && seen)
        (Code.anyCalls fn) := by
  refine .given (target.always_skipMarked _ _ _) fun marked hmarked => ?_
  rw [← Option.not_isSome, ← hmarked]
  split
  · exact .pure (by grind -linarith)
  · exact hx.mono (by grind -linarith)

theorem shows_variantLines (hshims : env.config.emitShims) (variants : List EnumVariant) :
    (variantLines env scope variants).Shows (variants.any fun v => fn.inExprOption v.value)
      (Code.anyCalls fn) := by
  induction variants with
  | nil => exact .nothing
  | cons variant variants ih =>
    obtain ⟨name, value⟩ := variant
    rw [List.any_cons]
    exact .bind (@shows_exprOption fn _ hshims scope value) fun o ho => .bind ih fun cs hcs =>
      .pure (by grind -linarith)

theorem shows_enumCode (hshims : env.config.emitShims) (d : EnumDecl) :
    (enumCode env scope d).Shows (fn.inEnum d) (Code.anyCalls fn) := by
  refine shows_unlessMarked ?_
  exact .bind (@shows_attributeLines fn _ hshims scope d.attributes) fun ls hls =>
    .bind (@shows_variantLines fn _ _ hshims d.variants) fun cs hcs => .pure (by grind -linarith)

theorem shows_fieldCode (hshims : env.config.emitShims) (d : Field) :
    (fieldCode env scope d).Shows (fn.inField d) (Code.anyCalls fn) := by
  refine shows_unlessMarked ?_
  exact .bind (@shows_attributeLines fn _ hshims scope d.attributes) fun ls hls =>
    .after fun _ => .bind (@shows_exprOption fn _ hshims scope d.initializer) fun o ho =>
      .pure (by grind -linarith)

theorem shows_accessorCode (hshims : env.config.emitShims) (accessors : List Accessor) :
    (accessorCode env scope accessors).Shows (accessors.any fun a => fn.inBlockOption a.body)
      (Code.anyCalls fn) := by
  induction accessors with
  | nil => exact .nothing
  | cons a accessors ih =>
    simp only [accessorCode, pure_bind, List.any_cons]
    split
    · rename_i body hbody
      rw [hbody, Builtin.inBlockOption]
      exact .bind (@shows_stmts fn _ hshims scope none body) fun cs hcs =>
        .bind ih fun ds hds => .pure (by grind -linarith)
    · rename_i hbody
      rw [hbody, Builtin.inBlockOption]
      exact .bind ih fun ds hds => .pure (by grind -linarith)

theorem shows_propertyCode (hshims : env.config.emitShims) (d : Property) :
    (propertyCode env scope d).Shows (fn.inProperty d) (Code.anyCalls fn) := by
  refine shows_unlessMarked ?_
  refine .bind (@shows_attributeLines fn _ hshims scope d.attributes) fun ls hls =>
    .after fun _ => ?_
  split
  · refine .bind (@shows_exprOption fn _ hshims scope d.initializer) fun o ho => .pure ?_
    cases o with
    | none => grind -linarith
    | some f => grind -linarith
  · exact .bind (@shows_accessorCode fn _ _ hshims d.accessors) fun cs hcs =>
    .pure (by grind -linarith)

/-! ### Declarations -/

mutual

theorem shows_member (hshims : env.config.emitShims) (scope : Scope) (host : Host) :
    ∀ s : Stmt, (member env scope host s).Shows (fn.inMember s) (Code.anyCalls fn)
  | .namespaceDecl name decls => by
    rw [Builtin.inMember, member]
    split
    · exact .bind (shows_separated hshims decls) fun cs hcs => .pure (by grind -linarith)
    · exact Gen.Always.fail _
  | .typeDecl kind ⟨name, modifiers, attributes, generics, base, interfaces, decls⟩ => by
    rw [Builtin.inMember, member]
    split
    · exact Gen.Always.fail _
    · refine shows_unlessMarked ?_
      exact .bind (@shows_attributeLines fn _ hshims scope attributes) fun ls hls =>
        .after fun _ => .bind (shows_members hshims _ .type decls) fun cs hcs =>
          .pure (by grind -linarith)
  | .enumDecl decl => by
    rw [Builtin.inMember, member]
    split
    · exact Gen.Always.fail _
    · exact shows_enumCode hshims decl
  | .moduleDecl ⟨name, modifiers, attributes, decls⟩ => by
    rw [Builtin.inMember, member]
    split
    · exact Gen.Always.fail _
    · refine shows_unlessMarked ?_
      exact .bind (@shows_attributeLines fn _ hshims scope attributes) fun ls hls =>
        .bind (shows_members hshims _ .module decls) fun cs hcs => .pure (by grind -linarith)
  | .functionDecl kind decl => by
    rw [Builtin.inMember, member]
    split
    · exact Gen.Always.fail _
    · exact .bind (@shows_function fn _ hshims scope _ _ false
        (fun _ => .nothing) decl) fun cs hcs => .pure (by grind -linarith)
  | .fieldDecl decl => by
    rw [Builtin.inMember, member]
    split
    · exact Gen.Always.fail _
    · exact shows_fieldCode hshims decl
  | .propertyDecl decl => by
    rw [Builtin.inMember, member]
    split
    · exact Gen.Always.fail _
    · exact shows_propertyCode hshims decl
  | .includeDecl _ decls => by
    rw [Builtin.inMember, member]
    exact shows_members hshims scope host decls
  | .importDecl _ | .aliasDecl _ | .binding _ | .ifThen _ _ _ | .whileLoop _ _ | .forLoop _ _ _ _
  | .forEach _ _ _ _ | .ret _ | .breakLoop | .continueLoop | .matchOn _ _ | .switchOn _ _
  | .expr _ | .raw _ => by
    rw [Builtin.inMember]
    exact .nothing

theorem shows_members (hshims : env.config.emitShims) (scope : Scope) (host : Host) :
    ∀ ss : List Stmt, (members env scope host ss).Shows (fn.inMembers ss) (Code.anyCalls fn)
  | [] => by
    rw [Builtin.inMembers]
    exact .nothing
  | s :: ss => by
    rw [Builtin.inMembers, members]
    exact .bind (shows_member hshims scope host s) fun cs hcs =>
      .bind (shows_members hshims scope host ss) fun ds hds => .pure (by grind -linarith)

theorem shows_separated (hshims : env.config.emitShims) :
    ∀ ss : List Stmt, (separated env ss).Shows (fn.inMembers ss) (Code.anyCalls fn)
  | [] => by
    rw [Builtin.inMembers]
    exact .nothing
  | s :: ss => by
    rw [Builtin.inMembers, separated]
    exact .bind (shows_member hshims {} .space s) fun cs hcs =>
      .bind (shows_separated hshims ss) fun ds hds => .pure (by grind -linarith)

end

/-! ### The implicit class -/

/-- The entry function has the calls of the loose statements in its body. -/
theorem shows_implicitFunctions (hshims : env.config.emitShims) (loose : List Stmt) :
    ∀ (fs : List Function) (entrySeen : Bool),
      (implicitFunctions env loose entrySeen fs).Shows
        (fs.any fn.inFunction || (!entrySeen &&
          (fs.find? (·.name == env.config.entryName)).any Function.isHost && fn.inStmts loose))
        (fun r => Code.anyCalls fn r.1)
  | [], entrySeen => .pure (by simp)
  | f :: fs, entrySeen => by
    rw [implicitFunctions, List.any_cons]
    split
    · rename_i hentry
      obtain ⟨hseen, hname⟩ := (Bool.and_eq_true _ _).mp hentry
      have hfirst : (f :: fs).find? (·.name == env.config.entryName) = some f :=
        List.find?_cons_of_pos hname
      rw [hfirst, Option.any_some, hseen, Bool.true_and]
      extract_lets +lift returnsValue options build
      have hbuild : ∀ u, (build u).Shows
          (fn.inFunction f || fs.any fn.inFunction || (f.isHost && fn.inStmts loose))
          (fun r => Code.anyCalls fn r.1) := by
        intro u
        exact .bind (@shows_function fn _ hshims _ _ _ _
            (fun inner => shows_stmts hshims inner none loose) f)
          fun cs hcs => .bind (shows_implicitFunctions hshims loose fs true) fun r hr =>
            .pure (by grind -linarith)
      split
      · exact .after hbuild
      · exact hbuild ()
    · rename_i hentry
      -- Either the entry function came before, or it is still to come.
      have hlater : (!entrySeen && ((f :: fs).find? (·.name == env.config.entryName)).any
            Function.isHost) =
          (!entrySeen && (fs.find? (·.name == env.config.entryName)).any Function.isHost) := by
        cases entrySeen with
        | true => rfl
        | false => rw [List.find?_cons_of_neg (by simpa using hentry)]
      rw [hlater]
      exact .bind (@shows_function fn _ hshims _ _ _ false (fun _ => .nothing) f)
        fun cs hcs => .bind (shows_implicitFunctions hshims loose fs entrySeen) fun r hr =>
          .pure (by grind -linarith)

theorem shows_looseEntry (hshims : env.config.emitShims) (loose : List Stmt) :
    (looseEntry env loose).Shows (fn.inStmts loose) (Code.anyCalls fn) :=
  .bind (@shows_stmts fn _ hshims _ none loose) fun cs hcs => .pure (by grind -linarith)

/-- The code is the implicit class with the definitions of the builtins ahead of its members. -/
def DefinesShims (config : Config) (code : List Code) : Prop :=
  ∃ body, code = [.separator, implicitClass config (.verbatim shims :: body)]

theorem definesShims_implicitContainer (hshims : env.config.emitShims) (sections : Sections) :
    (implicitContainer env sections).Always fun r =>
      DefinesShims env.config (.separator :: r.1) := by
  unfold implicitContainer
  extract_lets +lift config
  rw [if_pos hshims]
  refine .after fun _ => ?_
  rw [pure_bind]
  refine .after fun fields => .after fun functions => ?_
  dsimp only
  split
  · exact .after fun entry => .pure
      ⟨fields ++ functions.1 ++ entry, by simp [implicitClass, config]⟩
  · exact .after fun entry => .pure
      ⟨fields ++ functions.1 ++ entry, by simp [implicitClass, config]⟩

/-- Loose statements run in the entry function, or in an entry point of their own. -/
theorem shows_implicitContainer (hshims : env.config.emitShims) (sections : Sections) :
    (implicitContainer env sections).Shows (fn.inLooseCode env.config sections)
      (fun r => Code.anyCalls fn r.1) := by
  unfold implicitContainer
  extract_lets config synthesized name build
  have hbuild : ∀ helpers, (build helpers).Shows (fn.inLooseCode env.config sections)
      (fun r => Code.anyCalls fn r.1) := by
    intro helpers
    refine .bind (@shows_members fn _ hshims _ .module sections.members)
      fun fields hfields => ?_
    refine .bind (@shows_implicitFunctions fn _ hshims sections.loose sections.functions false)
      fun functions hfunctions => ?_
    rw [Builtin.inLooseCode, Sections.takesLoose, Sections.entry?]
    rw [Bool.not_false, Bool.true_and] at hfunctions
    dsimp only
    split
    · exact .bind (@shows_looseEntry fn _ hshims sections.loose) fun entry hentry =>
        .pure (by grind -linarith)
    · -- Without an entry function there are no loose statements here.
      rename_i hnot
      have hloose : fn.inStmts sections.loose = true →
          sections.functions.find? (·.name == env.config.entryName) ≠ none := by
        intro hseen hnone
        have hempty : sections.loose = [] := by
          simpa [synthesized, config, Sections.entry?, hnone] using hnot
        rw [hempty, Builtin.inStmts] at hseen
        exact absurd hseen Bool.false_ne_true
      refine .after fun entry => .pure ?_
      cases hentry : sections.functions.find? (·.name == env.config.entryName) with
      | none => grind -linarith
      | some f => grind -linarith
  rw [if_pos hshims]
  refine .after fun _ => ?_
  exact .after hbuild

/-! ### Units -/

/-- What stands behind the code outside the implicit class: that class, if there is loose code. -/
def implicitCode (env : Env) (sections : Sections) : Gen (List Code) :=
  if sections.hasLooseCode then do
    let (code, _) ← implicitContainer env sections
    return .separator :: code
  else return []

theorem definesShims_implicitCode (hshims : env.config.emitShims) (sections : Sections) :
    (implicitCode env sections).Always fun code =>
      (DefinesShims env.config code ↔ sections.hasLooseCode = true) ∧
        (sections.hasLooseCode = false → code = []) := by
  unfold implicitCode
  split
  · rename_i hloose
    refine .bind (definesShims_implicitContainer hshims sections) fun r hr => .pure ?_
    exact ⟨iff_of_true hr hloose, fun h => by simp [h] at hloose⟩
  · rename_i hloose
    refine .pure ⟨iff_of_false ?_ hloose, fun _ => rfl⟩
    rintro ⟨body, hbody⟩
    cases hbody

theorem not_inLooseCode {sections : Sections} (h : sections.hasLooseCode = false)
    (config : Config) : fn.inLooseCode config sections = false := by
  simp only [Sections.hasLooseCode, Bool.or_eq_false_iff, Bool.not_eq_false',
    List.isEmpty_iff] at h
  obtain ⟨⟨hfunctions, hmembers⟩, hloose⟩ := h
  rw [Builtin.inLooseCode, hfunctions, hmembers, hloose, Builtin.inMembers, Builtin.inStmts]
  simp

theorem shows_implicitCode (hshims : env.config.emitShims) (sections : Sections) :
    (implicitCode env sections).Shows (fn.inLooseCode env.config sections) (Code.anyCalls fn) := by
  unfold implicitCode
  split
  · exact .bind (@shows_implicitContainer fn _ hshims sections) fun r hr =>
    .pure (by grind -linarith)
  · rename_i hloose
    rw [not_inLooseCode (by simpa using hloose)]
    exact .nothing

theorem shows_outerCode (hshims : env.config.emitShims) (sections : Sections) :
    (outerCode env sections).Shows (fn.inMembers sections.containers) (Code.anyCalls fn) :=
  .after fun raws => .bind (@shows_separated fn _ hshims sections.containers) fun cs hcs =>
    .pure (by grind -linarith)

/-- A unit is written in two parts, outside the implicit class and inside. -/
theorem exists_implicitCode {ss : List Stmt} {sections : Sections} {i k : Journal}
    {code : List Code} {entry : Option String}
    (h : (unitCode env ss sections).Yields i (code, entry) k) :
    ∃ (outer implicit : List Code) (j j' : Journal),
      (outerCode env sections).Yields i outer j ∧
        (implicitCode env sections).Yields j implicit j' ∧ code = outer ++ implicit := by
  obtain ⟨raws, i₁, hraws, h⟩ := Gen.yields_bind.mp h
  obtain ⟨containers, i₂, hcontainers, h⟩ := Gen.yields_bind.mp h
  have houter : (outerCode env sections).Yields i (raws ++ containers) i₂ :=
    Gen.yields_bind.mpr ⟨raws, i₁, hraws, Gen.yields_bind.mpr ⟨containers, i₂, hcontainers,
      Gen.yields_pure.mpr ⟨rfl, rfl⟩⟩⟩
  extract_lets +lift check at h
  -- The last check can fail but writes nothing.
  have hcheck : ∀ r : List Code × Option String, (check r).Always fun unit =>
      unit.1 = raws ++ containers ++ r.1 := by
    intro r
    dsimp only [check]
    split
    · exact .failed _
    · exact .pure rfl
  unfold implicitCode
  split at h
  · rename_i hloose
    obtain ⟨⟨container, own⟩, i₃, hcontainer, h⟩ := Gen.yields_bind.mp h
    obtain ⟨r, i₄, hr, h⟩ := Gen.yields_bind.mp h
    obtain ⟨rfl, rfl⟩ := Gen.yields_pure.mp hr
    have hcode : code = raws ++ containers ++ .separator :: container :=
      hcheck (.separator :: container, own) h
    rw [if_pos hloose]
    exact ⟨_, _, i₂, i₃, houter, Gen.yields_bind.mpr ⟨(container, own), i₃, hcontainer,
      Gen.yields_pure.mpr ⟨rfl, rfl⟩⟩, hcode⟩
  · rename_i hloose
    obtain ⟨r, i₃, hr, h⟩ := Gen.yields_bind.mp h
    obtain ⟨rfl, rfl⟩ := Gen.yields_pure.mp hr
    have hcode : code = raws ++ containers ++ [] := hcheck ([], none) h
    rw [if_neg hloose]
    exact ⟨_, _, i₂, i₂, houter, Gen.yields_pure.mpr ⟨rfl, rfl⟩, hcode⟩

end CSharp

namespace Backend

variable {b : Backend} {p : Program} {g : Generated}

/-- With shims, every call of a builtin in a unit is written under the own name of the builtin. The
definitions of these names are in the unit exactly if the unit has code outside any type: else there
is no implicit class at all. -/
theorem definesShims_iff (hlanguage : b.language = .csharp) (hshims : b.config.emitShims = true)
    (h : (b.generate p).result = .ok g) :
    ∃ (top : String) (outer implicit : List Code) (j : Journal),
      g.source = top ++ Code.render (CSharp.layoutStyle b.config) (outer ++ implicit) ∧
        (CSharp.outerCode ⟨b.config, KnownTypes.collect (Stmt.flattenAll p.stmts), b.resolver⟩
          p.sections).Yields {} outer j ∧
        (∀ fn : Builtin, fn.inUnit b.config p.sections = true →
          Code.anyCalls fn (outer ++ implicit) = true) ∧
        (CSharp.DefinesShims b.config implicit ↔ p.sections.hasLooseCode = true) ∧
        (p.sections.hasLooseCode = false → implicit = []) := by
  obtain ⟨k, hgen⟩ := exists_run_of_generate h
  obtain ⟨language, config, services⟩ := b
  obtain rfl : language = .csharp := hlanguage
  obtain ⟨top, code, entry, i, hcode, hsource⟩ := CSharp.exists_programCode_of_generate hgen
  -- Calls are shown in both parts of the unit, definitions in the implicit one only.
  obtain ⟨outer, implicit, j, j', houter, himplicit, rfl⟩ := CSharp.exists_implicitCode hcode
  refine ⟨top, outer, implicit, j, hsource, houter, fun fn hfn => ?_,
    CSharp.definesShims_implicitCode hshims _ himplicit⟩
  rw [Builtin.inUnit, Bool.or_eq_true] at hfn
  rw [Code.anyCalls_append, Bool.or_eq_true]
  exact hfn.imp (CSharp.shows_outerCode hshims _ houter)
    (CSharp.shows_implicitCode hshims _ himplicit)

/-- A class with a method that prints. -/
def printingClass : Program :=
  let greeting : Expr := .call (.ident "print") [.literal (.string "hi")]
  ⟨[.typeDecl .cls ⟨"Log", [], [], [], none, [],
    [.functionDecl .method ⟨"hello", [], none, [], [], [], some [.expr greeting], false, false⟩]⟩]⟩

/-- A C# library that calls builtins by their own names. -/
def shimmedLibrary : Backend :=
  ⟨.csharp, { outputKind := .library, emitShims := true }, Resolver.dotnet⟩

theorem printingClass_has_no_shims :
    ∃ (g : Generated) (top : String) (code : List Code),
      (shimmedLibrary.generate printingClass).result = .ok g ∧
        g.source = top ++ Code.render (CSharp.layoutStyle shimmedLibrary.config) code ∧
        Code.anyCalls .print code = true ∧ ¬ CSharp.DefinesShims shimmedLibrary.config [] ∧
        ∃ j, (CSharp.outerCode ⟨shimmedLibrary.config,
          KnownTypes.collect (Stmt.flattenAll printingClass.stmts), shimmedLibrary.resolver⟩
            printingClass.sections).Yields {} code j := by
  obtain ⟨g, hg⟩ : shimmedLibrary.Generates printingClass := generates_iff.mpr (by decide)
  obtain ⟨top, outer, implicit, j, hsource, houter, hcalls, hdefines, hempty⟩ :=
    definesShims_iff rfl rfl hg
  have hnone : printingClass.sections.hasLooseCode = false := by decide
  obtain rfl := hempty hnone
  refine ⟨g, top, outer, hg, by simpa using hsource, ?_, ?_, j, houter⟩
  · simpa using hcalls .print (by decide)
  · rw [hdefines, hnone]
    exact Bool.false_ne_true

end Backend

end SourceGen
