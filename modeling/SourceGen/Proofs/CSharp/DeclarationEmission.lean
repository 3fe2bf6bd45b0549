import SourceGen.CSharp.Emit.Declaration
import SourceGen.Proofs.CSharp.BodyEmission

/-!
# Emitted C# declarations

Outside of all loops, the emitter of C# declarations follows the generator.

## Main results

* `CSharp.adds_member`, `CSharp.adds_members`: the induction over the tree.
-/

namespace SourceGen

namespace CSharp

open Emit (Follows)
open Fragment (text)

variable {env : Env} {scope : Scope}

/-! ### Members without members of their own -/

theorem adds_variants : ∀ variants : List EnumVariant,
    Adds none (emitVariants env scope variants) (variantLines env scope variants)
  | [], _, _ => .pure (by simp)
  | ⟨name, value⟩ :: variants, st, hst =>
    .bind (renders_exprOption value st hst.braces_eq) fun o => .step <|
      .last (adds_variants variants (hst.write rfl)) fun rest => by simp [String.append_assoc]

theorem adds_enum (d : EnumDecl) :
    Adds none (emitEnum env scope d) (enumCode env scope d) := by
  intro st hst
  unfold emitEnum enumCode
  refine .lift fun skipped => ?_
  split
  · exact .pure (by simp)
  · have hattributes := hst.write st.out.layout_separator
    refine .step <| .bind (adds_attributes none d.attributes hattributes) fun lines => .step <|
      .bind (adds_variants d.variants ((hattributes.wrote lines).openBlock _)) fun code =>
      .done ?_
    simp

theorem adds_field (d : Field) :
    Adds none (emitField env scope d) (fieldCode env scope d) := by
  intro st hst
  unfold emitField fieldCode
  refine .lift fun skipped => ?_
  split
  · exact .pure (by simp)
  · refine .bind (adds_attributes none d.attributes hst) fun lines => .lift fun spelling =>
      .bind (renders_exprOption d.initializer _ (hst.wrote lines).braces_eq) fun o => .done ?_
    simp [String.append_assoc]

theorem adds_accessors : ∀ accessors : List Accessor,
    Adds none (emitAccessors env scope accessors) (accessorCode env scope accessors)
  | [], _, _ => .pure (by simp)
  | ⟨kind, modifiers, some body⟩ :: accessors, st, hst => by
    refine .step <| .bind (adds_stmts none body (hst.openBlock _)) fun code => .step <|
      .last (adds_accessors accessors (((hst.openBlock _).wrote code).closeBlock "")) ?_
    intro rest
    rw [Emitter.wrote_cons, hst.wroteOne_function, Emitter.render_text]
  | ⟨kind, modifiers, none⟩ :: accessors, st, hst =>
    .step <| .last (adds_accessors accessors (hst.write rfl)) fun rest => by simp

theorem adds_property (d : Property) :
    Adds none (emitProperty env scope d) (propertyCode env scope d) := by
  intro st hst
  unfold emitProperty propertyCode
  refine .lift fun skipped => ?_
  split
  · exact .pure (by simp)
  · refine .bind (adds_attributes none d.attributes hst) fun lines => .lift fun spelling => ?_
    have hlines := hst.wrote lines
    dsimp only
    split
    · refine .bind (renders_exprOption d.initializer _ hlines.braces_eq) fun o => .done ?_
      cases o <;> simp [String.append_assoc]
    · refine .step <| .step <| .bind (adds_accessors d.accessors
        ((hlines.write (Buffer.layout_separator _)).openBlock _)) fun code => .done ?_
      simp

/-! ### The induction over the tree -/

mutual

theorem adds_member {scope : Scope} {host : Host} : ∀ s : Stmt,
    Adds none (emitMember env scope host s) (member env scope host s)
  | .namespaceDecl name decls, st, hst => by
    rw [emitMember, member]
    split
    · exact .step <| .bind (adds_separated decls (hst.openBlock _)) fun code => .done (by simp)
    · exact .fail
  | .typeDecl kind ⟨name, modifiers, attributes, generics, base, interfaces, decls⟩, st, hst => by
    rw [emitMember, member]
    split
    · exact .fail
    refine .lift fun skipped => ?_
    split
    · exact .pure (by simp)
    have hattributes := hst.write st.out.layout_separator
    refine .step <| .bind (adds_attributes none attributes hattributes) fun lines =>
      .lift fun head => .step <|
      .bind (adds_members decls ((hattributes.wrote lines).openBlock _)) fun code => .done ?_
    simp
  | .enumDecl decl, st, hst => by
    rw [emitMember, member]
    split
    · exact .fail
    · exact adds_enum decl hst
  | .moduleDecl ⟨name, modifiers, attributes, decls⟩, st, hst => by
    rw [emitMember, member]
    split
    · exact .fail
    refine .lift fun skipped => ?_
    split
    · exact .pure (by simp)
    have hattributes := hst.write st.out.layout_separator
    refine .step <| .bind (adds_attributes none attributes hattributes) fun lines => .step <|
      .bind (adds_members decls ((hattributes.wrote lines).openBlock _)) fun code => .done ?_
    simp
  | .functionDecl kind decl, st, hst => by
    rw [emitMember, member]
    split
    · exact .fail
    · exact .step <| .last (adds_function {} (fun _ _ _ => .pure (by simp)) decl
        (hst.write st.out.layout_separator)) fun code => by simp
  | .fieldDecl decl, st, hst => by
    rw [emitMember, member]
    split
    · exact .fail
    · exact adds_field decl hst
  | .propertyDecl decl, st, hst => by
    rw [emitMember, member]
    split
    · exact .fail
    · exact adds_property decl hst
  | .importDecl decl, st, hst => by
    rw [emitMember, member]
    split
    · exact .done (by simp)
    · exact .report (by simp)
  | .includeDecl _ decls, st, hst => adds_members decls hst
  | .raw block, _, hst => adds_rawCode block hst
  | .binding _, _, _ | .expr _, _, _ | .ifThen _ _ _, _, _ | .whileLoop _ _, _, _
  | .forLoop _ _ _ _, _, _ | .forEach _ _ _ _, _, _ | .ret _, _, _ | .breakLoop, _, _
  | .continueLoop, _, _ | .matchOn _ _, _, _ | .switchOn _ _, _, _ | .aliasDecl _, _, _ =>
    .report (by simp)

theorem adds_members {scope : Scope} {host : Host} : ∀ ss : List Stmt,
    Adds none (emitMembers env scope host ss) (members env scope host ss)
  | [], _, _ => .pure (by simp)
  | s :: ss, _, hst =>
    .bind (adds_member s hst) fun code =>
      .last (adds_members ss (hst.wrote code)) fun rest => by simp

theorem adds_separated : ∀ ss : List Stmt,
    Adds none (emitSeparated env ss) (separated env ss)
  | [], _, _ => .pure (by simp)
  | s :: ss, st, hst => by
    have hs := hst.write st.out.layout_separator
    exact .step <| .bind (adds_member s hs) fun code =>
      .last (adds_separated ss (hs.wrote code)) fun rest => by simp

end

end CSharp

end SourceGen
