import SourceGen.CSharp.Unit
import SourceGen.Proofs.CSharp.BodyNesting

/-!
# C# units are nested

Declarations put braces around functions and fields, and the directives at the top have none, so the
text of a whole unit closes every delimiter that it opens.

## Main results

* `CSharp.clean_member`: the code of members.
* `CSharp.clean_unitCode`: the code of a unit.
* `CSharp.clean_generate`: the text of a finished unit.
-/

namespace SourceGen

namespace CSharp

open Fragment (text AllNested OptionNested)
open Text (isPlain NestedText)

variable {env : Env} {scope : Scope}

/-! ### Members without members of their own -/

theorem isPlain_usingLine {d : Import} (h : d.everyText isPlain = true) :
    isPlain (usingLine d) = true := by
  have hpath : isPlain (Text.join "." d.path) = true := Import.isPlain_path h rfl
  unfold usingLine
  split
  · rename_i name hname
    have hlocal := Import.isPlain_localName h hname
    simp only [Text.isPlain_append, hpath, hlocal]
    rfl
  · simp only [Text.isPlain_append, hpath]
    rfl

theorem clean_variantLines (hplain : PlainAround env scope) {variants : List EnumVariant}
    (h : EnumVariant.allText target isPlain variants = true) :
    (variantLines env scope variants).Clean Code.Nested := by
  induction variants with
  | nil => exact .pure fun _ => by simp
  | cons variant variants ih =>
    obtain ⟨name, value⟩ := variant
    rw [EnumVariant.allText, Bool.and_eq_true, Bool.and_eq_true] at h
    obtain ⟨⟨hname, hvalue⟩, hvariants⟩ := h
    refine .bind (clean_exprOption hplain value hvalue) fun o ho => ?_
    refine .bind (ih hvariants) fun ds hds => .pure ?_
    have hshown : Fragment.Nested (o.elim [] (text " = " ++ ·)) := ho.elim rfl
    exact fun _ => by simp [hname, hshown, hds]

theorem clean_enumCode (hplain : PlainAround env scope) {d : EnumDecl}
    (h : d.everyText target isPlain = true) : (enumCode env scope d).Clean Code.Nested := by
  refine target.clean_unlessMarked fun hmark => ?_
  obtain ⟨name, modifiers, attributes, variants⟩ := d
  obtain ⟨hname, hattributes, hvariants⟩ := EnumDecl.texts_of_unmarked hmark h
  refine .bind (clean_attributeLines hplain attributes hattributes) fun ls hls => ?_
  refine .bind (clean_variantLines hplain hvariants) fun cs hcs => .pure ?_
  have hwords := nested_modifierText modifiers .publicAccess false scope
  exact fun _ => by simp [hls, hwords, hname, hcs]

theorem clean_fieldCode (hplain : PlainAround env scope) {d : Field}
    (h : d.everyText target isPlain = true) : (fieldCode env scope d).Clean Code.Nested := by
  refine target.clean_unlessMarked fun hmark => ?_
  obtain ⟨name, type, modifiers, attributes, initializer⟩ := d
  obtain ⟨hname, htype, hattributes, hinitializer⟩ := Field.texts_of_unmarked hmark h
  refine .bind (clean_attributeLines hplain attributes hattributes) fun ls hls => ?_
  refine .bind (clean_mapTypeOr hplain.resolver rfl htype) fun spelling hspelling => ?_
  refine .bind (clean_exprOption hplain initializer hinitializer) fun o ho => .pure ?_
  have hwords := nested_modifierText modifiers .privateAccess
  have hvalue : Fragment.Nested (o.elim [] (text " = " ++ ·)) := ho.elim rfl
  exact fun _ => by simp [hls, hwords, hspelling, hname, hvalue]

theorem nested_accessorHead (a : Accessor) : NestedText (accessorHead a) := by
  have hwords : NestedText (String.join (a.modifiers.map (·.word ++ " "))) := by
    refine Text.nested_stringJoin fun s hs => ?_
    obtain ⟨m, -, rfl⟩ := List.mem_map.mp hs
    have hm := isPlain_word m
    exact fun _ => by simp [hm]
  have hkind : isPlain a.kind.word = true := by cases a.kind <;> rfl
  rw [accessorHead]
  generalize String.join _ = words at hwords
  exact fun _ => by simp [hwords, hkind]

theorem nested_autoAccessors (accessors : List Accessor) :
    NestedText (autoAccessors accessors) := by
  unfold autoAccessors
  split
  · exact fun _ => by simp
  · refine Text.nested_join rfl fun s hs => ?_
    obtain ⟨a, -, rfl⟩ := List.mem_map.mp hs
    have ha := nested_accessorHead a
    exact fun _ => by simp [ha]

theorem clean_accessorCode (hplain : PlainAround env scope) {accessors : List Accessor}
    (h : Accessor.allText target isPlain accessors = true) :
    (accessorCode env scope accessors).Clean Code.Nested := by
  induction accessors with
  | nil => exact .pure fun _ => by simp
  | cons a accessors ih =>
    have hhead := nested_accessorHead a
    obtain ⟨kind, modifiers, body⟩ := a
    rw [Accessor.allText, Bool.and_eq_true] at h
    simp only [accessorCode, pure_bind]
    cases body with
    | none => exact .bind (ih h.2) fun ds hds => .pure fun _ => by simp [hhead, hds]
    | some body =>
      rw [Stmt.blockText] at h
      exact .bind (clean_stmts hplain none body h.1) fun cs hcs =>
        .bind (ih h.2) fun ds hds => .pure fun _ => by simp [hhead, hcs, hds]

theorem clean_propertyCode (hplain : PlainAround env scope) {d : Property}
    (h : d.everyText target isPlain = true) : (propertyCode env scope d).Clean Code.Nested := by
  refine target.clean_unlessMarked fun hmark => ?_
  obtain ⟨name, type, modifiers, attributes, accessors, initializer⟩ := d
  obtain ⟨hname, htype, hattributes, haccessors, hinitializer⟩ := Property.texts_of_unmarked hmark h
  refine .bind (clean_attributeLines hplain attributes hattributes) fun ls hls => ?_
  refine .bind (clean_mapTypeOr hplain.resolver rfl htype) fun spelling hspelling => ?_
  have hwords := nested_modifierText modifiers .privateAccess scope.inStatic scope
  split
  · refine .bind (clean_exprOption hplain initializer hinitializer) fun o ho => .pure ?_
    have hauto := nested_autoAccessors accessors
    cases o with
    | none => exact fun _ => by simp [hls, hwords, hspelling, hname, hauto]
    | some f =>
      have hf := ho f rfl
      exact fun _ => by simp [hls, hwords, hspelling, hname, hauto, hf]
  · exact .bind (clean_accessorCode hplain haccessors) fun cs hcs =>
      .pure fun _ => by simp [hls, hwords, hspelling, hname, hcs]

theorem clean_typeHead (hresolver : env.resolver.IsPlain) {outer inner : Scope} {kind : TypeKind}
    {name : String} {modifiers : List Modifier} {generics : List GenericParam}
    {base : Option TypeRef} {interfaces : List TypeRef} (hname : isPlain name = true)
    (hgenerics : generics.all (GenericParam.everyText isPlain) = true)
    (hbase : base.all (TypeRef.everyText isPlain) = true)
    (hinterfaces : TypeRef.allText isPlain interfaces = true) :
    (typeHead env outer inner kind name modifiers generics base interfaces).Clean NestedText := by
  refine .bind (clean_mapTypes hresolver (TypeRef.allText_listed hbase hinterfaces))
    fun bases hbases => ?_
  refine .bind (clean_whereClauses hresolver generics hgenerics) fun clauses hclauses => .pure ?_
  have hwords := nested_modifierText modifiers .publicAccess false outer
  have hkeyword : isPlain (typeKeyword kind) = true := by cases kind <;> rfl
  have hlist := nested_genericList hgenerics
  have hjoin : NestedText (Text.join ", " bases) := Text.nested_join rfl hbases
  have hshown : NestedText (if bases.isEmpty then "" else " : " ++ Text.join ", " bases) := by
    split
    · exact fun _ => by simp
    · exact fun _ => by simp [hjoin]
  generalize (if bases.isEmpty then "" else " : " ++ Text.join ", " bases) = shown at hshown ⊢
  exact fun _ => by simp [hwords, hkeyword, hname, hlist, hshown, hclauses]

theorem clean_refuseMember (s : Stmt) : (refuseMember scope s).Clean Code.Nested :=
  .reporting (.pure fun _ => by simp)

/-! ### Members -/

mutual

theorem clean_member {scope : Scope} (hplain : PlainAround env scope) (host : Host) :
    ∀ s : Stmt, s.everyText target isPlain = true → (member env scope host s).Clean Code.Nested
  | .namespaceDecl name decls, h => by
    rw [Stmt.everyText, Bool.and_eq_true] at h
    rw [member]
    split
    · exact .bind (clean_separated hplain.resolver decls h.2) fun cs hcs =>
        .pure fun _ => by simp [h.1, hcs]
    · exact .fail _
  | .typeDecl kind ⟨name, modifiers, attributes, generics, base, interfaces, decls⟩, h => by
    rw [Stmt.everyText] at h
    rw [member]
    split
    · exact .fail _
    refine target.clean_unlessMarked fun hmark => ?_
    obtain ⟨hname, hattributes, hgenerics, hbase, hinterfaces, hdecls⟩ :=
      TypeDecl.texts_of_unmarked hmark h
    refine .bind (clean_attributeLines hplain attributes hattributes) fun ls hls => ?_
    -- The members stand in a scope of their own, which is plain because the name is.
    extract_lets named inner
    have hinner : PlainAround env inner := .type hplain.resolver hname rfl
    refine .bind (clean_typeHead hplain.resolver hname hgenerics hbase hinterfaces)
      fun head hhead => ?_
    exact .bind (clean_members hinner .type decls hdecls) fun cs hcs =>
      .pure fun _ => by simp [hls, hhead, hcs]
  | .enumDecl decl, h => by
    rw [Stmt.everyText] at h
    rw [member]
    split
    · exact .fail _
    · exact clean_enumCode hplain h
  | .moduleDecl ⟨name, modifiers, attributes, decls⟩, h => by
    rw [Stmt.everyText] at h
    rw [member]
    split
    · exact .fail _
    refine target.clean_unlessMarked fun hmark => ?_
    obtain ⟨hname, hattributes, hdecls⟩ := ModuleDecl.texts_of_unmarked hmark h
    refine .bind (clean_attributeLines hplain attributes hattributes) fun ls hls => ?_
    have hinner : PlainAround env { Scope.ofType name [] with inStatic := true } :=
      .type hplain.resolver hname rfl
    refine .bind (clean_members hinner .module decls hdecls) fun cs hcs => .pure ?_
    have hwords := nested_modifierText modifiers .publicAccess true scope
    exact fun _ => by simp [hls, hwords, hname, hcs]
  | .functionDecl kind decl, h => by
    rw [Stmt.everyText] at h
    rw [member]
    split
    · exact .fail _
    · refine .bind (clean_function hplain {} _ nofun nofun (fun _ _ => .pure fun _ => by simp)
        decl h) fun cs hcs => .pure fun _ => by simp [hcs]
  | .fieldDecl decl, h => by
    rw [Stmt.everyText] at h
    rw [member]
    split
    · exact .fail _
    · exact clean_fieldCode hplain h
  | .propertyDecl decl, h => by
    rw [Stmt.everyText] at h
    rw [member]
    split
    · exact .fail _
    · exact clean_propertyCode hplain h
  | .importDecl decl, h => by
    rw [Stmt.everyText] at h
    rw [member]
    split
    · have hline := isPlain_usingLine h
      exact .pure fun _ => by simp [hline]
    · exact clean_refuseMember _
  | .includeDecl _ decls, h => by
    rw [Stmt.everyText] at h
    rw [member]
    exact clean_members hplain host decls h
  | .raw block, h => by
    rw [Stmt.everyText] at h
    rw [member]
    exact target.clean_rawCode h
  | .aliasDecl _, _ | .binding _, _ | .ifThen _ _ _, _ | .whileLoop _ _, _ | .forLoop _ _ _ _, _
  | .forEach _ _ _ _, _ | .ret _, _ | .breakLoop, _ | .continueLoop, _ | .matchOn _ _, _
  | .switchOn _ _, _ | .expr _, _ => by
    rw [member.eq_def]
    exact clean_refuseMember _

theorem clean_members {scope : Scope} (hplain : PlainAround env scope) (host : Host) :
    ∀ ss : List Stmt, Stmt.allText target isPlain ss = true →
      (members env scope host ss).Clean Code.Nested
  | [], _ => by
    rw [members]
    exact .pure fun _ => by simp
  | s :: ss, h => by
    rw [Stmt.allText, Bool.and_eq_true] at h
    rw [members]
    exact .bind (clean_member hplain host s h.1) fun cs hcs =>
      .bind (clean_members hplain host ss h.2) fun ds hds => .pure fun _ => by simp [hcs, hds]

theorem clean_separated (hresolver : env.resolver.IsPlain) :
    ∀ ss : List Stmt, Stmt.allText target isPlain ss = true →
      (separated env ss).Clean Code.Nested
  | [], _ => by
    rw [separated]
    exact .pure fun _ => by simp
  | s :: ss, h => by
    rw [Stmt.allText, Bool.and_eq_true] at h
    rw [separated]
    exact .bind (clean_member (.space hresolver) .space s h.1) fun cs hcs =>
      .bind (clean_separated hresolver ss h.2) fun ds hds => .pure fun _ => by simp [hcs, hds]

end

/-! ### The implicit class -/

/-- The helper definitions close what they open. -/
theorem nested_shims : NestedText shims := by
  refine Text.nested_join rfl fun s hs => ?_
  simp only [List.mem_cons, List.not_mem_nil, or_false] at hs
  rcases hs with rfl | rfl | rfl | rfl | rfl | rfl | rfl | rfl
  -- One line is put together from two texts, which are nested only together.
  case inr.inl => exact Text.nested_ofList_append (by decide)
  all_goals exact Text.nested_ofList (by decide)

theorem clean_implicitFunctions (hplain : PlainAround env (implicitScope env.config))
    {loose : List Stmt} (hloose : Stmt.allText target isPlain loose = true) {fs : List Function}
    (h : ∀ f ∈ fs, f.everyText target isPlain = true) (entrySeen : Bool) :
    (implicitFunctions env loose entrySeen fs).Clean fun r => Code.Nested r.1 := by
  induction fs generalizing entrySeen with
  | nil => exact .pure fun _ => by simp
  | cons f fs ih =>
    obtain ⟨hf, hfs⟩ := List.forall_mem_cons.mp h
    rw [implicitFunctions]
    split
    · -- The entry function has the loose statements ahead of its own, under either name.
      have hentry : ∀ options : FunctionOptions, (∀ name ∈ options.name, isPlain name = true) →
          (∀ returns ∈ options.returns, isPlain returns = true) → (do
          let code ← function env (implicitScope env.config) options
            (fun inner => stmts env inner none loose) f
          let r ← implicitFunctions env loose true fs
          return (Code.separator :: code ++ r.1, f.marker.isNone) : Gen _).Clean
          fun r => Code.Nested r.1 := by
        intro options hname hreturns
        refine .bind (clean_function hplain options _ hname hreturns
          (fun _ hinner => clean_stmts hinner none loose hloose) f hf) fun cs hcs => ?_
        exact .bind (ih hfs true) fun r hr => .pure fun _ => by simp [hcs, hr]
      have hreturns : ∀ b : Bool, ∀ returns ∈ (if b then some "int" else none : Option String),
          isPlain returns = true := by
        intro b returns hreturns
        cases b with
        | true => cases hreturns; rfl
        | false => cases hreturns
      split
      · exact .reporting (hentry _ (by rintro _ ⟨⟩; rfl) (hreturns _))
      · exact hentry _ (by rintro _ ⟨⟩; rfl) (hreturns _)
    · refine .bind (clean_function hplain { forceStatic := true } _ nofun nofun
        (fun _ _ => .pure fun _ => by simp) f hf) fun cs hcs => ?_
      exact .bind (ih hfs entrySeen) fun r hr => .pure fun _ => by simp [hcs, hr]

theorem clean_looseEntry (hplain : PlainAround env (implicitScope env.config)) {loose : List Stmt}
    (h : Stmt.allText target isPlain loose = true) : (looseEntry env loose).Clean Code.Nested := by
  refine .bind (clean_stmts hplain none loose h) fun cs hcs => .pure fun _ => ?_
  cases Stmt.anyReturnsValue loose <;> simp [entryName, hcs]

theorem clean_implicitContainer {sections : Sections}
    (hplain : PlainAround env (implicitScope env.config))
    (hspace : isPlain env.config.implicitNamespace = true)
    (h : sections.EveryText target isPlain) :
    (implicitContainer env sections).Clean fun r => Code.Nested r.1 := by
  have hclass : isPlain env.config.implicitClass = true := hplain.className _ rfl
  unfold implicitContainer
  extract_lets config synthesized name build
  -- The helpers are raw text or nothing, and the same code follows.
  have hbuild : ∀ helpers, Code.Nested helpers →
      (build helpers).Clean fun r => Code.Nested r.1 := by
    intro helpers hhelpers
    refine .bind (clean_members hplain .module sections.members h.members) fun fields hfields => ?_
    refine .bind (clean_implicitFunctions hplain h.loose h.functions false) fun r hr => ?_
    dsimp only
    split
    · exact .bind (clean_looseEntry hplain h.loose) fun entry hentry => .pure fun _ => by
        simp [config, hspace, hclass, hhelpers, hfields, hr, hentry]
    · exact .pure fun _ => by simp [config, hspace, hclass, hhelpers, hfields, hr]
  split
  · have hshims := nested_shims
    exact .importing rfl (hbuild _ fun _ => by simp [hshims])
  · exact hbuild _ fun _ => by simp

/-! ### The unit -/

theorem clean_unitCode {ss : List Stmt} {sections : Sections}
    (hplain : PlainAround env (implicitScope env.config))
    (hspace : isPlain env.config.implicitNamespace = true)
    (h : sections.EveryText target isPlain) :
    (unitCode env ss sections).Clean fun r => Code.Nested r.1 := by
  refine .bind (target.clean_separatedRawCodes h.raw) fun raws hraws => ?_
  refine .bind (clean_separated hplain.resolver sections.containers h.containers) fun cs hcs => ?_
  -- The same check follows with and without an implicit class.
  extract_lets +lift checkEntry
  have hcheck : ∀ r : List Code × Option String, Code.Nested r.1 →
      (checkEntry r).Clean fun r => Code.Nested r.1 := by
    intro r hr
    dsimp only [checkEntry]
    split
    · exact .failed _
    · exact .pure fun _ => by simp [hraws, hcs, hr]
  split
  · exact .bind (clean_implicitContainer hplain hspace h) fun r hr =>
      hcheck (.separator :: r.1, r.2) fun _ => by simp [hr]
  · exact hcheck ([], none) fun _ => by simp

/-! ### Directives -/

theorem nested_importAliases {imports : List Import}
    (h : ∀ d ∈ imports, d.everyText isPlain = true) :
    ∀ line ∈ importAliases imports, NestedText line := by
  intro line hline
  obtain ⟨d, hd, hline⟩ := List.mem_filterMap.mp hline
  obtain ⟨name, hname, rfl⟩ := Option.map_eq_some_iff.mp hline
  have hpath : isPlain (Text.join "." d.path) = true := Import.isPlain_path (h d hd) rfl
  have hlocal := Import.isPlain_localName (h d hd) hname
  exact fun _ => by simp [hlocal, hpath]

theorem clean_typeAliases (hresolver : env.resolver.IsPlain) {aliases : List Alias}
    (h : ∀ d ∈ aliases, d.everyText isPlain = true) :
    (typeAliases env aliases).Clean fun lines => ∀ line ∈ lines, NestedText line := by
  induction aliases with
  | nil => exact .pure (List.forall_mem_nil _)
  | cons d ds ih =>
    obtain ⟨hd, hds⟩ := List.forall_mem_cons.mp h
    rw [Alias.everyText, Bool.and_eq_true, Bool.and_eq_true] at hd
    rw [typeAliases]
    split
    · refine .bind (clean_mapType hresolver hd.2) fun spelling hspelling => ?_
      refine .bind (ih hds) fun lines hlines => .pure ?_
      exact List.forall_mem_cons.mpr ⟨fun _ => by simp [hd.1.1, hspelling], hlines⟩
    · exact .reporting (ih hds)

theorem clean_header {sections : Sections} (hresolver : env.resolver.IsPlain)
    (h : sections.EveryText target isPlain) : (header env sections).Clean NestedText := by
  unfold header
  refine .bind (.forIn (fun d hd _ => ?_) _) fun _ _ => ?_
  · split
    · exact .importing (Import.isPlain_path (h.imports d hd) rfl) (.pure trivial)
    · exact .pure trivial
  refine .bind (clean_typeAliases hresolver h.aliases) fun lines hlines => ?_
  extract_lets aliases
  refine .reading fun j hj => ?_
  extract_lets imports usings gap
  have husings : NestedText usings := by
    refine Text.nested_stringJoin fun s hs => ?_
    obtain ⟨name, hname, rfl⟩ := List.mem_map.mp hs
    have hname := hj name hname
    exact fun _ => by simp [hname]
  have hgap : NestedText gap := by
    dsimp only [gap]
    split
    · exact Text.nested_of_isPlain rfl
    · exact Text.nested_of_isPlain rfl
  have haliases : NestedText (String.join (aliases.map (· ++ "\n"))) := by
    refine Text.nested_stringJoin fun s hs => ?_
    obtain ⟨line, hline, rfl⟩ := List.mem_map.mp hs
    have hline : NestedText line := by
      rcases List.mem_append.mp hline with hline | hline
      · exact nested_importAliases h.imports line hline
      · exact hlines line hline
    exact fun _ => by simp [hline]
  generalize String.join _ = rest at haliases ⊢
  exact .pure fun _ => by simp [husings, hgap, haliases]

/-- The text of a unit closes every delimiter that it opens. -/
theorem clean_generate {config : Config} {resolver : TypeResolver} {program : Program}
    (hresolver : resolver.IsPlain) (hspace : isPlain config.implicitNamespace = true)
    (hclass : isPlain config.implicitClass = true)
    (h : program.everyText target isPlain = true) :
    (generate config resolver program).Clean fun g => NestedText g.source := by
  have hsections : (Sections.of (Stmt.flattenAll program.stmts)).EveryText target isPlain :=
    Sections.everyText_of (Stmt.allText_flattenAll program.stmts h)
  unfold generate
  extract_lets +lift stmts env sections build
  have hplain : PlainAround env (implicitScope env.config) := .type hresolver hclass rfl
  have hbuild : ∀ u, (build u).Clean fun g => NestedText g.source := by
    intro u
    refine .bind (clean_unitCode hplain hspace hsections) fun r hr => ?_
    refine .bind (clean_header hresolver hsections) fun top htop => .reading fun j _ => .pure ?_
    have hbody : NestedText (Code.render (layoutStyle config) r.1) := Code.nested_render hr _
    dsimp only
    split
    · exact hbody
    · exact fun _ => by simp [htop, hbody]
  split
  · exact .failed _
  · exact hbuild ()

end CSharp

end SourceGen
