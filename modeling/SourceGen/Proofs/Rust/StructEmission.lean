import SourceGen.Proofs.Rust.BodyEmission
import SourceGen.Rust.Emit.Struct

/-!
# Emitted Rust structs

The emitter of Rust structs follows the generator.

## Main results

* `Rust.adds_struct`: a class or struct, with its implementations.
-/

namespace SourceGen

namespace Rust

open Emit (Follows)
open Fragment (text)

variable {env : Env} {place : Place} {st : Emitter}

/-! ### Listed types -/

/-- A base that is no interface is written as a comment, and the traits are returned. -/
theorem follows_baseTraits (owner : String) (base : Option TypeRef) :
    Follows st (emitBaseTraits env owner base) (baseTraits env owner base)
      fun p => (p.1, st.put p.2) := by
  unfold emitBaseTraits baseTraits
  cases base with
  | none => exact .pure rfl
  | some base =>
    dsimp only
    split
    · exact .pure rfl
    · exact .step <| .lift fun _ => .pure (by simp)

/-- Listed types that are no interfaces are written as comments, and the traits are returned. -/
theorem follows_listedTraits (owner : String) : ∀ (ts : List TypeRef) {st : Emitter},
    Follows st (emitListedTraits env owner ts) (listedTraits env owner ts)
      fun p => (p.1, st.put p.2)
  | [], _ => .pure rfl
  | t :: ts, st => by
    rw [emitListedTraits, listedTraits]
    split
    · exact .bind (follows_listedTraits owner ts) fun p => .pure rfl
    · exact .step <| .lift fun _ => .last (follows_listedTraits owner ts) fun p => by simp

/-! ### Members -/

/-- The emitter writes the tree of a constant. -/
theorem adds_const (f : Field) : Adds (emitConst env place f) (constCode env place f) := by
  intro st hst
  unfold emitConst constCode
  cases f.initializer with
  | none => exact .report rfl
  | some init =>
    exact .lift fun type => .bind (renders_expr init st hst) fun g =>
      .done (by simp [String.append_assoc])

theorem adds_consts : ∀ fs : List Field,
    Adds (emitConsts env place fs) (constCodes env place fs)
  | [], _, hst => Adds.nil hst
  | f :: fs, _, hst => (adds_const f).append (adds_consts fs) hst

theorem adds_fieldValues : ∀ fs : List FieldSpec,
    Adds (emitFieldValues env place fs) (fieldValues env place fs)
  | [], _, hst => Adds.nil hst
  | f :: fs, st, hst =>
    .bind (renders_ownedOption f.init st hst) fun o => .step <|
      .last (adds_fieldValues fs hst) fun rest => by
        simp [Emitter.render_getD, String.append_assoc]

/-- The emitter writes the tree of the constructor, its fields inside a block of their own. -/
theorem follows_constructor (constructor : Option Function) (fields : List FieldSpec)
    (hst : st.out.style = .sameLine) :
    Follows st (emitConstructor env place constructor fields)
      (constructorCode env place constructor fields) fun c => ((), st.putOne c) := by
  unfold emitConstructor constructorCode
  refine .lift fun params => .step ?_
  dsimp only
  cases (constructor.bind (·.body)).getD [] with
  | nil =>
    refine .step <| .bind (adds_fieldValues fields (style_eq (by simp) hst)) fun values =>
      .step <| .done ?_
    simp
  | cons s ss =>
    refine .step <| .bind (adds_fieldValues fields (style_eq (by simp) hst)) fun values =>
      .step <| .bind (adds_stmts (s :: ss) (style_eq (by simp) hst)) fun code =>
      .step <| .done ?_
    simp

/-- The emitter writes the trees of accessors. -/
theorem adds_accessorBodies (inTrait : Bool) (shown name type : String) :
    ∀ accessors : List Accessor,
      Adds (emitAccessorBodies env place inTrait shown name type accessors)
        (accessorBodies env place inTrait shown name type accessors)
  | [], _, hst => Adds.nil hst
  | ⟨kind, modifiers, none⟩ :: accessors, _, hst =>
    adds_accessorBodies inTrait shown name type accessors hst
  | ⟨kind, modifiers, some body⟩ :: accessors, st, hst => by
    have hopen (s : String) :
        ((st.write Buffer.separator).write (·.openBlock s)).out.style = .sameLine :=
      style_eq (by simp) hst
    exact .step <| .step <| .bind (adds_stmts body (hopen _)) fun code => .step <|
      .last (adds_accessorBodies inTrait shown name type accessors (style_eq (by simp) hst))
        fun rest => by simp

theorem adds_accessors (inTrait : Bool) (p : Property) :
    Adds (emitAccessors env place inTrait p) (accessorCode env place inTrait p) := fun _ hst =>
  .lift fun type => adds_accessorBodies inTrait _ p.name type p.accessors hst

theorem adds_allAccessors (inTrait : Bool) : ∀ ps : List Property,
    Adds (emitAllAccessors env place inTrait ps) (accessorCodes env place inTrait ps)
  | [], _, hst => Adds.nil hst
  | p :: ps, _, hst => (adds_accessors inTrait p).append (adds_allAccessors inTrait ps) hst

/-- Nothing in front of the body of a function. -/
theorem adds_noPrologue (place : Place) :
    Adds ((fun _ => pure () : Place → Emit Unit) place)
      ((fun _ => pure [] : Place → Gen (List Code)) place) :=
  Adds.nil

/-- The emitter writes the trees of inherent methods. -/
theorem adds_inherentMethods : ∀ fs : List Function,
    Adds (emitInherentMethods env place fs) (inherentMethods env place fs)
  | [], _, hst => Adds.nil hst
  | f :: fs, st, hst =>
    .step <| .bind (adds_function _ adds_noPrologue f (style_eq st.out.layout_separator hst))
      fun code => .last (adds_inherentMethods fs (style_eq (by simp) hst)) fun rest => by simp

/-- The emitter writes the trees of the methods of a trait. -/
theorem adds_traitMethods (trait : String) : ∀ fs : List Function,
    Adds (emitTraitMethods env place trait fs) (traitMethods env place trait fs)
  | [], _, hst => Adds.nil hst
  | f :: fs, st, hst =>
    .step <| .bind (adds_function _ adds_noPrologue f (style_eq st.out.layout_separator hst))
      fun code => .last (adds_traitMethods trait fs (style_eq (by simp) hst)) fun rest => by simp

/-- The emitter writes the trees of the accessors that stand for a field. -/
theorem follows_backedAccessors (f : FieldSpec) (setter : Bool) :
    Follows st (emitBackedAccessors f setter) (pure (backedAccessors f setter))
      fun code => ((), st.put code) := by
  unfold emitBackedAccessors backedAccessors
  refine .step <| .step <| .step <| .step ?_
  cases setter with
  | false => exact .pure (by simp)
  | true => exact .step <| .step <| .step <| .done (by simp)

theorem follows_allBacked (trait : String) : ∀ (fs : List FieldSpec) {st : Emitter},
    Follows st (emitAllBacked env trait fs)
      (pure (fs.flatMap fun f =>
        backedAccessors f ((env.traits.lookup trait).any (·.hasSetter f.name))))
      fun code => ((), st.put code)
  | [], _ => .pure rfl
  | f :: fs, st => by
    rw [List.flatMap_cons]
    exact .alone (follows_backedAccessors f _) <|
      .last (y := pure _) (follows_allBacked trait fs) fun rest => by simp

/-! ### The type -/

/-- The emitter writes the tree of an impl. -/
theorem adds_traitImpl (owner bounds args : String) (traits : List TypeRef)
    (parts : StructParts) (index : Nat) (trait : TypeRef) :
    Adds (emitTraitImpl env place owner bounds args traits parts index trait)
      (traitImpl env place owner bounds args traits parts index trait) := by
  intro st hst
  refine .lift fun spelling => .step <| .step <| .alone (follows_allBacked trait.name _) ?_
  refine .bind (adds_allAccessors true _ (style_eq (by simp) hst)) fun accessors => ?_
  refine .bind (adds_traitMethods trait.name _ (style_eq (by simp) hst)) fun methods => .done ?_
  simp

/-- The emitter writes the trees of the impls of a struct. -/
theorem adds_traitImpls (owner bounds args : String) (traits : List TypeRef)
    (parts : StructParts) : ∀ (ts : List TypeRef) (index : Nat),
      Adds (emitTraitImpls env place owner bounds args traits parts index ts)
        (traitImpls env place owner bounds args traits parts index ts)
  | [], _, _, hst => Adds.nil hst
  | t :: ts, index, _, hst =>
    (adds_traitImpl owner bounds args traits parts index t).append
      (adds_traitImpls owner bounds args traits parts ts (index + 1)) hst

/-- The emitter writes the block of fields. -/
theorem follows_fields (head : String) (fields : List FieldSpec) :
    Follows st (emitFields head fields) (pure (structBlock head fields))
      fun c => ((), st.putOne c) := by
  unfold emitFields structBlock
  split
  · exact .done (by simp)
  · refine .step <| .alone (.lines _) <| .done ?_
    simp [Function.comp_def]

/-- The emitter writes the tree of a struct. -/
theorem adds_struct (d : TypeDecl) : Adds (emitStruct env d) (structCode env d) := by
  intro st hst
  unfold emitStruct structCode
  refine .lift fun skipped => ?_
  split
  · exact .pure rfl
  refine .lift fun parts => .step ?_
  refine .bind (follows_baseTraits d.name d.base) fun base => ?_
  refine .bind (follows_listedTraits d.name d.interfaces) fun listed => ?_
  refine .bind (adds_attributes d.attributes (style_eq (by simp) hst)) fun lines => ?_
  refine .alone (.lineUnless _ _) <| .lift fun bounds => ?_
  refine .alone (follows_fields _ parts.fields) <| .step <| .step ?_
  refine .bind (adds_consts parts.consts (style_eq (by simp) hst)) fun consts => ?_
  refine .bind (follows_constructor parts.constructor parts.fields (style_eq (by simp) hst))
    fun constructor => ?_
  refine .bind (adds_allAccessors false _ (style_eq (by simp) hst)) fun accessors => ?_
  refine .bind (adds_inherentMethods _ (style_eq (by simp) hst)) fun methods => ?_
  refine .bind (target.follows_rawCodes parts.raws _) fun raws => .step ?_
  refine .last (adds_traitImpls _ _ _ _ parts _ 0 (style_eq (by simp) hst)) fun impls => ?_
  simp [deriveLine]

end Rust

end SourceGen
