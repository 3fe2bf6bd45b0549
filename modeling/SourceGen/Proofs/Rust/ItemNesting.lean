import SourceGen.Proofs.Rust.BodyNesting
import SourceGen.Proofs.Rust.ItemTraps

/-!
# Rust items are nested

A class becomes several items, and its members are sorted before they are written. Sorting keeps the
texts of the members that are written, so the items close every delimiter that they open.

## Main definitions

* `Rust.StructParts.Plain`: the texts of sorted members are plain.

## Main results

* `Rust.clean_structParts`: sorting keeps texts plain.
* `Rust.clean_structCode`: the code of a class or struct.
* `Rust.clean_items`: the code of items.
-/

namespace SourceGen

namespace Rust

open Fragment (text AllNested OptionNested)
open Text (isPlain NestedText)

/-! ### Sorted members -/

/-- The texts of a field of a struct; its visibility and its type may have delimiters of their
own. -/
structure FieldSpec.Plain (f : FieldSpec) : Prop where
  visibility : NestedText f.visibility
  name : isPlain f.name = true
  type : NestedText f.type
  init : Expr.optionText target isPlain f.init = true

/-- The texts of sorted members are plain. Marked members are left out before, except for
methods. -/
structure StructParts.Plain (parts : StructParts) : Prop where
  fields : ∀ f ∈ parts.fields, f.Plain
  consts : ∀ f ∈ parts.consts, Marker.of? f.attributes = none ∧ f.everyText target isPlain = true
  constructor : ∀ f ∈ parts.constructor,
    Marker.of? f.attributes = none ∧ f.everyText target isPlain = true
  methods : ∀ f ∈ parts.methods, f.everyText target isPlain = true
  accessors : ∀ p ∈ parts.accessors,
    Marker.of? p.attributes = none ∧ p.everyText target isPlain = true
  raws : ∀ r ∈ parts.raws, r.everyText target isPlain = true

variable {env : Env} {place : Place}

theorem clean_memberMarked (s : Stmt) : (memberMarked s).Clean (· = memberSkipped s) := by
  cases s with
  | fieldDecl f => exact target.clean_skipMarked _ _ _
  | propertyDecl p => exact target.clean_skipMarked _ _ _
  | functionDecl kind f =>
    rw [memberMarked, memberSkipped]
    split
    · rename_i h
      simpa [h] using target.clean_skipMarked _ _ _
    · rename_i h
      exact .pure (by simp [h])
  | _ => exact .pure rfl

theorem clean_structParts {owner : String} (hasConstructor : Bool) {members : List Stmt}
    (h : Stmt.allText target isPlain members = true) :
    (structParts env place owner hasConstructor members).Clean StructParts.Plain := by
  induction members generalizing hasConstructor with
  | nil => exact .pure ⟨nofun, nofun, nofun, nofun, nofun, nofun⟩
  | cons s ss ih =>
    rw [Stmt.allText, Bool.and_eq_true] at h
    obtain ⟨hs, hss⟩ := h
    unfold structParts
    refine .bind (clean_memberMarked s) fun skipped hskipped => ?_
    rw [hskipped]
    split
    · exact ih hasConstructor hss
    -- From here on the member is unmarked, or a method that will be reported when it is written.
    rename_i hmark
    cases s with
    | fieldDecl f =>
      rw [Stmt.everyText] at hs
      have hmark : Marker.of? f.attributes = none := by simpa [memberSkipped] using hmark
      dsimp only
      split
      · refine .bind (ih hasConstructor hss) fun rest hrest => .pure ?_
        exact { hrest with consts := List.forall_mem_cons.mpr ⟨⟨hmark, hs⟩, hrest.consts⟩ }
      · obtain ⟨name, type, modifiers, attributes, initializer⟩ := f
        obtain ⟨hname, htype, -, hinitializer⟩ := Field.texts_of_unmarked hmark hs
        refine .bind (clean_typeOr htype) fun spelling hspelling => ?_
        refine .bind (ih hasConstructor hss) fun rest hrest => .pure ?_
        have hspec : FieldSpec.Plain
            ⟨visibility modifiers false, name, spelling, initializer, false⟩ :=
          ⟨nested_visibility _ _, hname, hspelling, hinitializer⟩
        exact { hrest with fields := List.forall_mem_cons.mpr ⟨hspec, hrest.fields⟩ }
    | propertyDecl p =>
      rw [Stmt.everyText] at hs
      have hmark : Marker.of? p.attributes = none := by simpa [memberSkipped] using hmark
      dsimp only
      split
      · obtain ⟨name, type, modifiers, attributes, accessors, initializer⟩ := p
        obtain ⟨hname, htype, -, -, hinitializer⟩ := Property.texts_of_unmarked hmark hs
        refine .bind (clean_typeOr htype) fun spelling hspelling => ?_
        refine .bind (ih hasConstructor hss) fun rest hrest => .pure ?_
        have hspec : FieldSpec.Plain
            ⟨visibility modifiers false, name, spelling, initializer, true⟩ :=
          ⟨nested_visibility _ _, hname, hspelling, hinitializer⟩
        exact { hrest with fields := List.forall_mem_cons.mpr ⟨hspec, hrest.fields⟩ }
      · refine .bind (ih hasConstructor hss) fun rest hrest => .pure ?_
        exact { hrest with accessors := List.forall_mem_cons.mpr ⟨⟨hmark, hs⟩, hrest.accessors⟩ }
    | functionDecl kind f =>
      rw [Stmt.everyText] at hs
      dsimp only
      split
      · rename_i hconstructor
        -- Only the first constructor is written.
        split
        · exact .reporting (ih true hss)
        · refine .bind (ih true hss) fun rest hrest => .pure { hrest with constructor := ?_ }
          rintro _ ⟨⟩
          exact ⟨by simpa [memberSkipped, hconstructor] using hmark, hs⟩
      · refine .bind (ih hasConstructor hss) fun rest hrest => .pure ?_
        exact { hrest with methods := List.forall_mem_cons.mpr ⟨hs, hrest.methods⟩ }
    | raw block =>
      rw [Stmt.everyText] at hs
      refine .bind (ih hasConstructor hss) fun rest hrest => .pure ?_
      exact { hrest with raws := List.forall_mem_cons.mpr ⟨hs, hrest.raws⟩ }
    | _ => exact .reporting (ih hasConstructor hss)

/-! ### Listed types -/

/-- The traits read off a base are nested. -/
theorem clean_baseTraits {owner : String} {base : Option TypeRef}
    (h : base.all (TypeRef.everyText isPlain) = true) :
    (baseTraits env owner base).Clean fun r => (∀ t ∈ r.1, t.IsPlain) ∧ Code.Nested r.2 := by
  unfold baseTraits
  cases base with
  | none => exact .pure ⟨nofun, fun _ => by simp⟩
  | some base =>
    have hbase : base.IsPlain := h
    have hdisplay := TypeRef.isPlain_display base hbase
    dsimp only
    split
    · exact .pure ⟨by simpa using hbase, fun _ => by simp⟩
    · exact .reporting (.pure ⟨nofun, fun _ => by simp [hdisplay]⟩)

/-- The listed traits are nested. -/
theorem clean_listedTraits {owner : String} {ts : List TypeRef}
    (h : TypeRef.allText isPlain ts = true) :
    (listedTraits env owner ts).Clean fun r => (∀ t ∈ r.1, t.IsPlain) ∧ Code.Nested r.2 := by
  induction ts with
  | nil => exact .pure ⟨nofun, fun _ => by simp⟩
  | cons t ts ih =>
    rw [TypeRef.allText, Bool.and_eq_true] at h
    have hdisplay := TypeRef.isPlain_display t h.1
    rw [listedTraits]
    split
    · exact .bind (ih h.2) fun r hr => .pure ⟨List.forall_mem_cons.mpr ⟨h.1, hr.1⟩, hr.2⟩
    · exact .reporting (.bind (ih h.2) fun r hr =>
        .pure ⟨hr.1, fun _ => by simp [hdisplay, hr.2]⟩)

/-! ### Members -/

/-- A constant of plain text is nested. -/
theorem clean_constCode {f : Field} (hmark : Marker.of? f.attributes = none)
    (h : f.everyText target isPlain = true) : (constCode env place f).Clean Code.Nested := by
  obtain ⟨name, type, modifiers, attributes, initializer⟩ := f
  obtain ⟨hname, htype, -, hinitializer⟩ := Field.texts_of_unmarked hmark h
  cases initializer with
  | none => exact .reporting (.pure fun _ => by simp)
  | some init =>
    rw [Expr.optionText] at hinitializer
    unfold constCode
    refine .bind (clean_typeOr htype) fun spelling hspelling => ?_
    extract_lets shown
    have hshown : NestedText shown := by
      dsimp only [shown]
      split
      · exact Text.nested_of_isPlain rfl
      · exact hspelling
    have hvisibility := nested_visibility modifiers true
    exact .bind (clean_expr init hinitializer) fun f hf =>
      .pure fun _ => by simp [hvisibility, hname, hshown, hf]

theorem clean_constCodes {fs : List Field}
    (h : ∀ f ∈ fs, Marker.of? f.attributes = none ∧ f.everyText target isPlain = true) :
    (constCodes env place fs).Clean Code.Nested := by
  induction fs with
  | nil => exact .pure fun _ => by simp
  | cons f fs ih =>
    obtain ⟨hf, hfs⟩ := List.forall_mem_cons.mp h
    exact .bind (clean_constCode hf.1 hf.2) fun cs hcs => .bind (ih hfs) fun ds hds =>
      .pure fun _ => by simp [hcs, hds]

theorem clean_fieldValues {fs : List FieldSpec} (h : ∀ f ∈ fs, f.Plain) :
    (fieldValues env place fs).Clean Code.Nested := by
  induction fs with
  | nil => exact .pure fun _ => by simp
  | cons f fs ih =>
    obtain ⟨hf, hfs⟩ := List.forall_mem_cons.mp h
    refine .bind (clean_ownedOption f.init hf.init) fun o ho => ?_
    refine .bind (ih hfs) fun ds hds => .pure ?_
    have hshown : Fragment.Nested (o.getD (text "Default::default()")) := ho.getD fun _ => by simp
    exact fun _ => by simp [hf.name, hshown, hds]

/-- A constructor of plain text is nested. -/
theorem clean_constructorCode {constructor : Option Function} {fields : List FieldSpec}
    (hconstructor : ∀ f ∈ constructor,
      Marker.of? f.attributes = none ∧ f.everyText target isPlain = true)
    (hfields : ∀ f ∈ fields, f.Plain) :
    (constructorCode env place constructor fields).Clean fun code => Text.Nested code.flat := by
  -- A constructor that is not declared has no parameters and no body.
  have hparts : Parameter.allText target isPlain (constructor.elim [] (·.params)) = true ∧
      Stmt.allText target isPlain ((constructor.bind (·.body)).getD []) = true := by
    cases constructor with
    | none => exact ⟨by rw [Option.elim_none, Parameter.allText], by rfl⟩
    | some f =>
      obtain ⟨hmark, h⟩ := hconstructor f rfl
      obtain ⟨name, params, returnType, generics, modifiers, attributes, body, _, _⟩ := f
      obtain ⟨-, hparams, -, -, -, hbody⟩ := Function.texts_of_unmarked hmark h
      refine ⟨hparams, ?_⟩
      cases body with
      | none => rfl
      | some body => simpa [Stmt.blockText] using hbody
  obtain ⟨hparams, hbody⟩ := hparts
  unfold constructorCode
  refine .bind (clean_parameters hparams) fun params hparams => ?_
  extract_lets shown inner head
  have hshown : NestedText shown := by
    dsimp only [shown]
    cases constructor with
    | none => exact fun _ => by simp
    | some f => exact nested_visibility _ _
  have hjoin : NestedText (Text.join ", " params) := Text.nested_join rfl hparams
  have hhead : NestedText head := fun _ => by simp [head, hshown, hjoin]
  refine .bind (clean_fieldValues hfields) fun values hvalues => ?_
  split
  · exact .pure fun _ => by simp [hhead, hvalues]
  · exact .bind (clean_stmts _ hbody) fun cs hcs => .pure fun _ => by simp [hhead, hvalues, hcs]

theorem clean_accessorBodies {inTrait : Bool} {shown name type : String} (hshown : NestedText shown)
    (hname : isPlain name = true) (htype : NestedText type) {accessors : List Accessor}
    (h : Accessor.allText target isPlain accessors = true) :
    (accessorBodies env place inTrait shown name type accessors).Clean Code.Nested := by
  induction accessors with
  | nil => exact .pure fun _ => by simp
  | cons a accessors ih =>
    obtain ⟨kind, modifiers, body⟩ := a
    rw [Accessor.allText, Bool.and_eq_true] at h
    rw [accessorBodies]
    cases body with
    | none => exact ih h.2
    | some body =>
      rw [Stmt.blockText] at h
      refine .bind (clean_stmts body h.1) fun cs hcs => .bind (ih h.2) fun ds hds => .pure ?_
      split
      · exact fun _ => by simp [hshown, hname, htype, hcs, hds]
      · cases (!inTrait && Stmt.anyAssignsThis body) with
        | true => exact fun _ => by simp [hshown, hname, htype, hcs, hds]
        | false => exact fun _ => by simp [hshown, hname, htype, hcs, hds]

/-- The accessors of a property of plain text are nested. -/
theorem clean_accessorCode {inTrait : Bool} {p : Property} (hmark : Marker.of? p.attributes = none)
    (h : p.everyText target isPlain = true) :
    (accessorCode env place inTrait p).Clean Code.Nested := by
  obtain ⟨name, type, modifiers, attributes, accessors, initializer⟩ := p
  obtain ⟨hname, htype, -, haccessors, -⟩ := Property.texts_of_unmarked hmark h
  refine .bind (clean_typeOr htype) fun spelling hspelling => ?_
  have hshown : NestedText (if inTrait then "" else visibility modifiers false) := by
    split
    · exact Text.nested_of_isPlain rfl
    · exact nested_visibility _ _
  exact clean_accessorBodies hshown hname hspelling haccessors

theorem clean_accessorCodes {inTrait : Bool} {ps : List Property}
    (h : ∀ p ∈ ps, Marker.of? p.attributes = none ∧ p.everyText target isPlain = true) :
    (accessorCodes env place inTrait ps).Clean Code.Nested := by
  induction ps with
  | nil => exact .pure fun _ => by simp
  | cons p ps ih =>
    obtain ⟨hp, hps⟩ := List.forall_mem_cons.mp h
    exact .bind (clean_accessorCode hp.1 hp.2) fun cs hcs => .bind (ih hps) fun ds hds =>
      .pure fun _ => by simp [hcs, hds]

/-- A function under its own name and with its own return type. -/
theorem clean_plainFunction {visibility : String} {receiver : Receiver} {requireBody : Bool}
    (hvisibility : NestedText visibility) {f : Function} (h : f.everyText target isPlain = true) :
    (function env place ⟨none, none, visibility, receiver, requireBody⟩
      (fun _ => return []) f).Clean
      Code.Nested :=
  clean_function _ _ hvisibility (by simp) (by simp) (fun _ => .pure fun _ => by simp) f h

/-- Inherent methods of plain text are nested. -/
theorem clean_inherentMethods {fs : List Function}
    (h : ∀ f ∈ fs, f.everyText target isPlain = true) :
    (inherentMethods env place fs).Clean Code.Nested := by
  induction fs with
  | nil => exact .pure fun _ => by simp
  | cons f fs ih =>
    obtain ⟨hf, hfs⟩ := List.forall_mem_cons.mp h
    exact .bind (clean_plainFunction (nested_visibility _ _) hf) fun cs hcs =>
      .bind (ih hfs) fun ds hds => .pure fun _ => by simp [hcs, hds]

theorem clean_traitMethods {trait : String} {fs : List Function}
    (h : ∀ f ∈ fs, f.everyText target isPlain = true) :
    (traitMethods env place trait fs).Clean Code.Nested := by
  induction fs with
  | nil => exact .pure fun _ => by simp
  | cons f fs ih =>
    obtain ⟨hf, hfs⟩ := List.forall_mem_cons.mp h
    exact .bind (clean_plainFunction (Text.nested_of_isPlain rfl) hf) fun cs hcs =>
      .bind (ih hfs) fun ds hds => .pure fun _ => by simp [hcs, hds]

/-- The accessors that stand for plain fields are nested. -/
theorem nested_backedAccessors {fs : List FieldSpec} (h : ∀ f ∈ fs, f.Plain)
    (setter : FieldSpec → Bool) :
    Code.Nested (fs.flatMap fun f => backedAccessors f (setter f)) := by
  induction fs with
  | nil => exact fun _ => by simp
  | cons f fs ih =>
    obtain ⟨hf, hfs⟩ := List.forall_mem_cons.mp h
    have hfirst : Code.Nested (backedAccessors f (setter f)) := by
      unfold backedAccessors
      extract_lets name
      have hname : isPlain name = true := by simpa [name] using hf.name
      split
      · exact fun _ => by simp [hname, hf.name, hf.type]
      · exact fun _ => by simp [hname, hf.type]
    have hrest := ih hfs
    exact fun _ => by simp [hfirst, hrest]

/-! ### The type -/

section Implementations

variable {owner bounds args : String} {parts : StructParts}

/-- An impl of plain parts is nested. -/
theorem clean_traitImpl (howner : isPlain owner = true) (hbounds : NestedText bounds)
    (hargs : NestedText args) (hparts : parts.Plain) (traits : List TypeRef) (index : Nat)
    {trait : TypeRef} (h : trait.IsPlain) :
    (traitImpl env place owner bounds args traits parts index trait).Clean Code.Nested := by
  refine .bind (clean_mapType h) fun spelling hspelling => ?_
  extract_lets backed getters
  -- The members of the trait are some of those of the type.
  have hgetters : Code.Nested getters :=
    nested_backedAccessors (fun f hf => hparts.fields f (List.mem_filter.mp hf).1) _
  refine .bind (clean_accessorCodes fun p hp => hparts.accessors p (List.mem_filter.mp hp).1)
    fun accessors haccessors => ?_
  refine .bind (clean_traitMethods fun f hf => hparts.methods f (List.mem_filter.mp hf).1)
    fun methods hmethods => ?_
  exact .pure fun _ => by
    simp [hbounds, hspelling, howner, hargs, hgetters, haccessors, hmethods]

theorem clean_traitImpls (howner : isPlain owner = true) (hbounds : NestedText bounds)
    (hargs : NestedText args) (hparts : parts.Plain) (traits : List TypeRef) (index : Nat)
    {ts : List TypeRef} (h : ∀ t ∈ ts, t.IsPlain) :
    (traitImpls env place owner bounds args traits parts index ts).Clean Code.Nested := by
  induction ts generalizing index with
  | nil => exact .pure fun _ => by simp
  | cons t ts ih =>
    obtain ⟨ht, hts⟩ := List.forall_mem_cons.mp h
    exact .bind (clean_traitImpl howner hbounds hargs hparts traits index ht) fun cs hcs =>
      .bind (ih (index + 1) hts) fun ds hds => .pure fun _ => by simp [hcs, hds]

end Implementations

theorem nested_fieldLines {fields : List FieldSpec} (h : ∀ f ∈ fields, f.Plain) :
    Code.Nested
      (fields.map fun f => .text (f.visibility ++ ident f.name ++ ": " ++ f.type ++ ",")) := by
  induction fields with
  | nil => exact fun _ => by simp
  | cons f fields ih =>
    obtain ⟨hf, hfields⟩ := List.forall_mem_cons.mp h
    have hrest := ih hfields
    exact fun _ => by simp [hf.visibility, hf.name, hf.type, hrest]

/-- The block of fields is nested. -/
theorem nested_structBlock {head : String} {fields : List FieldSpec} (hhead : NestedText head)
    (h : ∀ f ∈ fields, f.Plain) : Text.Nested (structBlock head fields).flat := by
  unfold structBlock
  split
  · exact fun _ => by simp [hhead]
  · have hlines := nested_fieldLines h
    exact fun _ => by simp [hhead, hlines]

theorem nested_deriveLine (attributes : List Attribute) (fields : List FieldSpec) :
    Code.Nested (deriveLine attributes fields) := by
  unfold deriveLine
  split
  · exact fun _ => by simp
  · exact fun _ => by simp

/-- A struct of plain text is nested. -/
theorem clean_structCode {d : TypeDecl} (h : d.everyText target isPlain = true) :
    (structCode env d).Clean Code.Nested := by
  refine target.clean_unlessMarked fun hmark => ?_
  obtain ⟨name, modifiers, attributes, generics, base, interfaces, members⟩ := d
  obtain ⟨hname, hattributes, hgenerics, hbase, hinterfaces, hmembers⟩ :=
    TypeDecl.texts_of_unmarked hmark h
  refine .bind (clean_structParts false hmembers) fun parts hparts => ?_
  refine .bind (clean_baseTraits hbase) fun based hbased => ?_
  refine .bind (clean_listedTraits hinterfaces) fun listed hlisted => ?_
  dsimp only
  -- What is not implemented stands in the comments, what is implemented in the traits.
  have htraits : ∀ t ∈ based.1 ++ listed.1, t.IsPlain :=
    List.forall_mem_append.mpr ⟨hbased.1, hlisted.1⟩
  refine .bind (clean_attributeLines attributes hattributes) fun lines hlines => ?_
  refine .bind (clean_genericParams hgenerics) fun bounds hbounds => ?_
  have hargs := nested_genericArgs hgenerics
  have hvisibility := nested_visibility modifiers true
  have hhead : NestedText (visibility modifiers true ++ "struct " ++ ident name ++ bounds) :=
    fun _ => by simp [hvisibility, hname, hbounds]
  refine .bind (clean_constCodes hparts.consts) fun consts hconsts => ?_
  refine .bind (clean_constructorCode hparts.constructor hparts.fields) fun constructor
    hconstructor => ?_
  refine .bind (clean_accessorCodes fun p hp => hparts.accessors p (List.mem_filter.mp hp).1)
    fun accessors haccessors => ?_
  refine .bind (clean_inherentMethods fun f hf => hparts.methods f (List.mem_filter.mp hf).1)
    fun methods hmethods => ?_
  refine .bind (target.clean_rawCodes hparts.raws) fun raws hraws => ?_
  refine .bind (clean_traitImpls hname hbounds hargs hparts _ 0 htraits) fun impls himpls =>
    .pure ?_
  have hderive := nested_deriveLine attributes parts.fields
  have hblock := nested_structBlock hhead hparts.fields
  exact fun _ => by
    simp [hbased.2, hlisted.2, hlines, hderive, hblock, hbounds, hname, hargs, hconsts,
      hconstructor, haccessors, hmethods, hraws, himpls]

/-! ### Other items -/

/-- An import of plain text has no delimiter. -/
theorem isPlain_useLine {d : Import} (h : d.everyText isPlain = true) :
    isPlain (useLine d) = true := by
  have hpath : isPlain (Text.join "::" d.path) = true := Import.isPlain_path h rfl
  unfold useLine
  split
  · rename_i name hname
    have hlocal := Import.isPlain_localName h hname
    simp only [Text.isPlain_append, hpath, hlocal]
    rfl
  · simp only [Text.isPlain_append, hpath]
    rfl

theorem clean_aliasLine {scope : Scope} {d : Alias} (h : d.everyText isPlain = true) :
    (aliasLine env scope d).Clean NestedText := by
  rw [Alias.everyText, Bool.and_eq_true, Bool.and_eq_true] at h
  obtain ⟨⟨hname, hgenerics⟩, htarget⟩ := h
  refine .bind (clean_mapType htarget) fun spelling hspelling => .pure ?_
  have hargs := nested_genericArgs hgenerics
  exact fun _ => by simp [hname, hargs, hspelling]

theorem clean_traitMembers {owner : String} {members : List Stmt}
    (h : Stmt.allText target isPlain members = true) :
    (traitMembers env place owner members).Clean Code.Nested := by
  induction members with
  | nil => exact .pure fun _ => by simp
  | cons s ss ih =>
    rw [Stmt.allText, Bool.and_eq_true] at h
    obtain ⟨hs, hss⟩ := h
    unfold traitMembers
    refine .bind (clean_memberMarked s) fun skipped hskipped => ?_
    rw [hskipped]
    split
    · exact ih hss
    rename_i hmark
    cases s with
    | functionDecl kind f =>
      rw [Stmt.everyText] at hs
      exact .bind (clean_plainFunction (Text.nested_of_isPlain rfl) hs) fun cs hcs =>
        .bind (ih hss) fun ds hds => .pure fun _ => by simp [hcs, hds]
    | propertyDecl p =>
      rw [Stmt.everyText] at hs
      have hmark : Marker.of? p.attributes = none := by simpa [memberSkipped] using hmark
      obtain ⟨name, type, modifiers, attributes, accessors, initializer⟩ := p
      obtain ⟨hname, htype, -, -, -⟩ := Property.texts_of_unmarked hmark hs
      refine .bind (clean_typeOr htype) fun spelling hspelling => .bind (ih hss) fun ds hds =>
        .pure ?_
      split
      · exact fun _ => by simp [hname, hspelling, hds]
      · exact fun _ => by simp [hname, hspelling, hds]
    | _ => exact .reporting (ih hss)

/-- A trait of plain text is nested. -/
theorem clean_traitCode {d : TypeDecl} (h : d.everyText target isPlain = true) :
    (traitCode env d).Clean Code.Nested := by
  refine target.clean_unlessMarked fun hmark => ?_
  obtain ⟨name, modifiers, attributes, generics, base, interfaces, members⟩ := d
  obtain ⟨hname, hattributes, hgenerics, hbase, hinterfaces, hmembers⟩ :=
    TypeDecl.texts_of_unmarked hmark h
  refine .bind (clean_attributeLines attributes hattributes) fun lines hlines => ?_
  refine .bind (clean_mapTypes (TypeRef.allText_listed hbase hinterfaces)) fun supertraits
    hsupertraits => ?_
  refine .bind (clean_genericParams hgenerics) fun bounds hbounds => ?_
  refine .bind (clean_traitMembers hmembers) fun cs hcs => .pure ?_
  have hvisibility := nested_visibility modifiers true
  have hjoin : NestedText (Text.join " + " supertraits) := Text.nested_join rfl hsupertraits
  have hlisted : NestedText
      (if supertraits.isEmpty then "" else ": " ++ Text.join " + " supertraits) := by
    split
    · exact fun _ => by simp
    · exact fun _ => by simp [hjoin]
  generalize (if supertraits.isEmpty then "" else ": " ++ Text.join " + " supertraits) = listed
    at hlisted ⊢
  exact fun _ => by simp [hlines, hvisibility, hname, hbounds, hlisted, hcs]

theorem clean_variantLines {variants : List EnumVariant}
    (h : EnumVariant.allText target isPlain variants = true) :
    (variantLines env variants).Clean Code.Nested := by
  induction variants with
  | nil => exact .pure fun _ => by simp
  | cons variant variants ih =>
    obtain ⟨name, value⟩ := variant
    rw [EnumVariant.allText, Bool.and_eq_true, Bool.and_eq_true] at h
    obtain ⟨⟨hname, hvalue⟩, hvariants⟩ := h
    unfold variantLines
    cases value with
    | none =>
      simp only [pure_bind]
      exact .bind (ih hvariants) fun ds hds => .pure fun _ => by simp [hname, hds]
    | some value =>
      rw [Expr.optionText] at hvalue
      simp only [pure_bind]
      exact .bind (clean_expr value hvalue) fun f hf => .bind (ih hvariants) fun ds hds =>
        .pure fun _ => by simp [hname, hf, hds]

/-- An enumeration of plain text is nested. -/
theorem clean_enumCode {d : EnumDecl} (h : d.everyText target isPlain = true) :
    (enumCode env d).Clean Code.Nested := by
  refine target.clean_unlessMarked fun hmark => ?_
  obtain ⟨name, modifiers, attributes, variants⟩ := d
  obtain ⟨hname, hattributes, hvariants⟩ := EnumDecl.texts_of_unmarked hmark h
  refine .bind (clean_attributeLines attributes hattributes) fun lines hlines => ?_
  refine .bind (clean_variantLines hvariants) fun cs hcs => .pure ?_
  have hvisibility := nested_visibility modifiers true
  split
  · exact fun _ => by simp [hlines, hvisibility, hname, hcs]
  · exact fun _ => by simp [hlines, hvisibility, hname, hcs]

/-- Modules around nested code are nested. -/
theorem nested_nestedMods {body : List Code} (hbody : Code.Nested body) {parts : List String}
    (h : ∀ part ∈ parts, isPlain part = true) : Code.Nested (nestedMods body parts) := by
  induction parts with
  | nil => exact hbody
  | cons part parts ih =>
    obtain ⟨hpart, hparts⟩ := List.forall_mem_cons.mp h
    have hrest := ih hparts
    exact fun _ => by simp [nestedMods, hpart, hrest]

mutual

/-- An item of plain text is nested, by induction on its syntax. -/
theorem clean_item {place : Place} (host : Host) :
    ∀ s : Stmt, s.everyText target isPlain = true → (item env place host s).Clean Code.Nested
  | .namespaceDecl name decls, h => by
    rw [Stmt.everyText, Bool.and_eq_true] at h
    rw [item]
    refine .bind (clean_separatedItems decls h.2) fun cs hcs => .pure ?_
    -- Each part of a dotted name opens a module around the rest.
    have hparts : ∀ part ∈ Text.splitOn '.' name, isPlain part = true :=
      fun part hpart => Text.isPlain_of_mem_splitOn h.1 hpart
    have hmods := nested_nestedMods hcs hparts
    exact fun _ => by simp [hmods]
  | .typeDecl .interface decl, h => by
    rw [Stmt.everyText] at h
    rw [item]
    exact clean_traitCode h
  | .typeDecl .cls decl, h | .typeDecl .struct decl, h => by
    rw [Stmt.everyText] at h
    rw [item]
    · exact clean_structCode h
    · nofun
  | .enumDecl decl, h => by
    rw [Stmt.everyText] at h
    rw [item]
    exact clean_enumCode h
  | .moduleDecl ⟨name, modifiers, attributes, decls⟩, h => by
    rw [Stmt.everyText] at h
    rw [item]
    refine target.clean_unlessMarked fun hmark => ?_
    obtain ⟨hname, hattributes, hdecls⟩ := ModuleDecl.texts_of_unmarked hmark h
    refine .bind (clean_attributeLines attributes hattributes) fun lines hlines => ?_
    refine .bind (clean_items .module decls hdecls) fun cs hcs => .pure ?_
    have hvisibility := nested_visibility modifiers true
    exact fun _ => by simp [hlines, hvisibility, hname, hcs]
  | .functionDecl kind decl, h => by
    rw [Stmt.everyText] at h
    rw [item]
    exact .bind (clean_plainFunction (nested_visibility _ _) h) fun cs hcs =>
      .pure fun _ => by simp [hcs]
  | .fieldDecl decl, h => by
    rw [Stmt.everyText] at h
    rw [item]
    split
    · exact target.clean_unlessMarked fun hmark => clean_constCode hmark h
    · exact .fail _
  | .propertyDecl decl, _ => by
    rw [item]
    exact .fail _
  | .importDecl decl, h => by
    rw [Stmt.everyText] at h
    rw [item]
    have hline := isPlain_useLine h
    exact .pure fun _ => by simp [hline]
  | .aliasDecl decl, h => by
    rw [Stmt.everyText] at h
    rw [item]
    exact .bind (clean_aliasLine h) fun line hline => .pure fun _ => by simp [hline]
  | .includeDecl _ decls, h => by
    rw [Stmt.everyText] at h
    rw [item]
    exact clean_items host decls h
  | .raw block, h => by
    rw [Stmt.everyText] at h
    rw [item]
    exact target.clean_rawCode h
  | .binding _, _ | .ifThen _ _ _, _ | .whileLoop _ _, _ | .forLoop _ _ _ _, _
  | .forEach _ _ _ _, _ | .ret _, _ | .breakLoop, _ | .continueLoop, _ | .matchOn _ _, _
  | .switchOn _ _, _ | .expr _, _ => by
    rw [item.eq_def]
    exact .reporting (.pure fun _ => by simp)

/-- The same of items. -/
theorem clean_items {place : Place} (host : Host) :
    ∀ ss : List Stmt, Stmt.allText target isPlain ss = true →
      (items env place host ss).Clean Code.Nested
  | [], _ => by
    rw [items]
    exact .pure fun _ => by simp
  | s :: ss, h => by
    rw [Stmt.allText, Bool.and_eq_true] at h
    rw [items]
    exact .bind (clean_item host s h.1) fun cs hcs =>
      .bind (clean_items host ss h.2) fun ds hds => .pure fun _ => by simp [hcs, hds]

theorem clean_separatedItems :
    ∀ ss : List Stmt, Stmt.allText target isPlain ss = true →
      (separatedItems env ss).Clean Code.Nested
  | [], _ => by
    rw [separatedItems]
    exact .pure fun _ => by simp
  | s :: ss, h => by
    rw [Stmt.allText, Bool.and_eq_true] at h
    rw [separatedItems]
    exact .bind (clean_item .space s h.1) fun cs hcs =>
      .bind (clean_separatedItems ss h.2) fun ds hds => .pure fun _ => by simp [hcs, hds]

end

end Rust

end SourceGen
