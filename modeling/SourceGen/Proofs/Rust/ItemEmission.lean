import SourceGen.Proofs.Rust.StructEmission
import SourceGen.Rust.Emit.Declaration

/-!
# Emitted Rust items

The emitter of Rust items follows the generator.

## Main results

* `Rust.adds_item`, `Rust.adds_items`: the induction over the tree.
-/

namespace SourceGen

namespace Rust

open Emit (Follows)
open Fragment (text)

variable {env : Env} {place : Place} {st : Emitter}

/-! ### Items without items of their own -/

theorem adds_traitMembers (owner : String) (members : List Stmt) :
    Adds (emitTraitMembers env place owner members) (traitMembers env place owner members) := by
  induction members with
  | nil => exact Adds.nil
  | cons s ss ih =>
    intro st hst
    refine .lift fun marked => ?_
    split
    · exact ih hst
    cases s with
    | functionDecl kind f =>
      exact .step <| .bind (adds_function _ adds_noPrologue f
        (style_eq st.out.layout_separator hst)) fun code =>
        .last (ih (style_eq (by simp) hst)) fun rest => by simp
    | propertyDecl p =>
      refine .lift fun type => .step <| .alone (.lineUnless _ _) <|
        .last (ih (style_eq (by simp) hst)) fun rest => ?_
      cases p.accessors.any TraitShape.isSetter <;> simp
    | _ => exact .lift fun _ => ih hst

theorem adds_trait (d : TypeDecl) : Adds (emitTrait env d) (traitCode env d) := by
  intro st hst
  unfold emitTrait traitCode
  refine .lift fun skipped => ?_
  split
  · exact .pure rfl
  refine .step <| .bind (adds_attributes d.attributes (style_eq (by simp) hst)) fun lines =>
    .lift fun supertraits => .lift fun bounds => .step <|
    .bind (adds_traitMembers d.name d.members (style_eq (by simp) hst)) fun code => .done ?_
  simp

theorem adds_variants : ∀ vs : List EnumVariant,
    Adds (emitVariants env vs) (variantLines env vs)
  | [], _, hst => Adds.nil hst
  | ⟨name, some value⟩ :: vs, st, hst => by
    refine .bind (renders_expr value st hst) fun f => ?_
    rw [pure_bind]
    exact .step <| .last (adds_variants vs hst) fun rest => by simp [String.append_assoc]
  | ⟨name, none⟩ :: vs, st, hst =>
    .step <| .last (adds_variants vs hst) fun rest => by simp

theorem adds_enum (d : EnumDecl) : Adds (emitEnum env d) (enumCode env d) := by
  intro st hst
  unfold emitEnum enumCode
  refine .lift fun skipped => ?_
  split
  · exact .pure rfl
  refine .step <| .bind (adds_attributes d.attributes (style_eq (by simp) hst)) fun lines =>
    .alone (.lineUnless _ _) <| .step <|
    .bind (adds_variants d.variants (style_eq (by simp) hst)) fun code => .done ?_
  simp

/-! ### Modules inside each other -/

/-- The state inside of a module for each part of a dotted name. -/
def inMods : List String → Emitter → Emitter
  | [], st => st
  | part :: parts, st =>
    inMods parts
      ((st.write (·.openBlock ("pub mod " ++ ident part))).write (·.line "use super::*;"))

/-- The state behind as many modules as there are parts. -/
def outOfMods : List String → Emitter → Emitter
  | [], st => st
  | _ :: parts, st => (outOfMods parts st).closeBlock ""

theorem layout_inMods (parts : List String) (st : Emitter) :
    (inMods parts st).out.layout = st.out.layout := by
  induction parts generalizing st with
  | nil => rfl
  | cons part parts ih => simp [inMods, ih]

/-- Every module that is opened is closed. -/
theorem outOfMods_inMods (parts : List String) (code : List Code) (st : Emitter) :
    outOfMods parts ((inMods parts st).put code) = st.put (nestedMods code parts) := by
  induction parts generalizing st with
  | nil => rfl
  | cons part parts ih => simp [inMods, outOfMods, nestedMods, ih]

theorem follows_openMods : ∀ (parts : List String) (st : Emitter),
    Follows st (openMods parts) (pure ()) fun _ => ((), inMods parts st)
  | [], _ => .pure rfl
  | _ :: parts, _ => .step <| .step <| follows_openMods parts _

theorem follows_closeMods : ∀ (parts : List String) (st : Emitter),
    Follows st (closeMods parts) (pure ()) fun _ => ((), outOfMods parts st)
  | [], _ => .pure rfl
  | _ :: parts, st => .alone (follows_closeMods parts st) <| .done rfl

theorem adds_mods {x : Emit Unit} {y : Gen (List Code)} (parts : List String)
    (hx : Adds x y) :
    Adds
      (Emit.separator >>= fun _ => openMods parts >>= fun _ => x >>= fun _ => closeMods parts)
      (y >>= fun code => pure (.separator :: nestedMods code parts)) := by
  intro st hst
  have hopen := style_eq (layout_inMods parts (st.write Buffer.separator))
    (style_eq st.out.layout_separator hst)
  refine .step <| .alone (follows_openMods parts _) <| .bind (hx hopen) fun code => ?_
  exact (follows_closeMods parts _).pure_congr (by simp [outOfMods_inMods])

/-! ### The induction over the tree -/

mutual

theorem adds_item {place : Place} {host : Host} : ∀ s : Stmt,
    Adds (emitItem env place host s) (item env place host s)
  | .namespaceDecl name decls, _, hst =>
    adds_mods (Text.splitOn '.' name) (adds_separatedItems decls) hst
  | .typeDecl kind decl, _, hst => by
    cases kind with
    | interface => exact adds_trait decl hst
    | _ => exact adds_struct decl hst
  | .enumDecl decl, _, hst => adds_enum decl hst
  | .moduleDecl ⟨name, modifiers, attributes, decls⟩, st, hst => by
    rw [emitItem, item]
    refine .lift fun skipped => ?_
    split
    · exact .pure rfl
    refine .step <| .bind (adds_attributes attributes (style_eq (by simp) hst)) fun lines =>
      .step <| .step <|
      .bind (adds_items decls (style_eq (by simp) hst)) fun code => .done ?_
    simp
  | .functionDecl _ decl, st, hst =>
    .step <| .last (adds_function _ adds_noPrologue decl
      (style_eq st.out.layout_separator hst)) fun code => by simp
  | .fieldDecl decl, st, hst => by
    rw [emitItem, item]
    split
    · refine .lift fun skipped => ?_
      split
      · exact .pure rfl
      · exact adds_const decl hst
    · exact .fail
  | .propertyDecl _, _, _ => .fail
  | .importDecl _, _, _ => .done (by simp)
  | .aliasDecl _, _, _ => .lift fun shown => .done (by simp)
  | .includeDecl _ decls, _, hst => adds_items decls hst
  | .raw block, _, _ => target.follows_rawCode block
  | .binding _, _, _ | .expr _, _, _ | .ifThen _ _ _, _, _ | .whileLoop _ _, _, _
  | .forLoop _ _ _ _, _, _ | .forEach _ _ _ _, _, _ | .ret _, _, _ | .breakLoop, _, _
  | .continueLoop, _, _ | .matchOn _ _, _, _ | .switchOn _ _, _, _ => .report rfl

theorem adds_items {place : Place} {host : Host} : ∀ ss : List Stmt,
    Adds (emitItems env place host ss) (items env place host ss)
  | [], _, hst => Adds.nil hst
  | s :: ss, _, hst => (adds_item s).append (adds_items ss) hst

theorem adds_separatedItems : ∀ ss : List Stmt,
    Adds (emitSeparatedItems env ss) (separatedItems env ss)
  | [], _, hst => Adds.nil hst
  | s :: ss, st, hst =>
    .step <| .bind (adds_item s (style_eq st.out.layout_separator hst)) fun code =>
      .last (adds_separatedItems ss (style_eq (by simp) hst)) fun rest => by simp

end

end Rust

end SourceGen
