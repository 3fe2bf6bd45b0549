import SourceGen.Proofs.CSharp.DeclarationEmission
import SourceGen.Proofs.Restoration

/-!
# Restored states in C#

In every state, with whatever loops are open, the emitter of C# restores the state behind an
expression, a statement or a member. Expressions and statements follow the generator in any loop. A
member follows it outside of all loops only, so its own steps are followed from one depth to the
next.

## Main results

* `CSharp.restores_stmt`, `CSharp.shifts_member`: statements and members.
-/

namespace SourceGen

/-- All that code may have changed besides the buffer is that the label behind the innermost loop
has come into use. -/
theorem Emitter.restored_wrote (st : Emitter) (code : List Code) : st.Restored (st.wrote code) where
  level_eq := level_wrote code
  layout_eq := layout_wrote code
  nesting_eq := rfl
  slips_eq := rfl
  loops_kept := by
    obtain ⟨out, nesting, _ | ⟨loop, loops⟩, slips⟩ := st
    · exact .nil
    · exact .cons ⟨rfl, rfl, fun h => by simp [h]⟩ (List.forall₂_same.mpr fun loop _ => .refl loop)

namespace CSharp

open Emit (Restores Shifts)

variable {env : Env} {scope : Scope} {n : Nat}

/-! ### Expressions and statements -/

theorem restores_of_adds {x : Emit Unit} {y : Option LoopFrame → Gen (List Code)}
    (h : ∀ loop, Adds loop x (y loop)) : Restores .nextLine x := fun st hst =>
  (h (OpenLoop.innermost st.loops) ⟨hst, rfl⟩).restores fun code => st.restored_wrote code

theorem restores_stmt (s : Stmt) : Restores .nextLine (emitStmt env scope s) :=
  restores_of_adds fun loop => adds_stmt loop s

theorem shifts_stmts (ss : List Stmt) : Shifts .nextLine n n (emitStmts env scope ss) :=
  .of_restores <| restores_of_adds fun loop => adds_stmts loop ss

theorem shifts_attributes (attributes : List Attribute) :
    Shifts .nextLine n n (emitAttributes env scope attributes) :=
  .of_restores <| restores_of_adds fun loop => adds_attributes loop attributes

theorem shifts_exprOption (e : Option Expr) :
    Shifts .nextLine n n (emitExprOption env scope e) :=
  .of_restores (renders_exprOption e).restores

theorem shifts_rawCode (raw : RawBlock) : Shifts .nextLine n n (target.emitRaw raw) :=
  .of_restores <| restores_of_adds fun _ => adds_rawCode raw

/-! ### Members without members of their own -/

theorem shifts_functionBody {scope : Scope} {prologue : Scope → Emit Unit}
    (hprologue : ∀ scope, Shifts .nextLine (n + 1) (n + 1) (prologue scope)) (head : String)
    (body : Option (List Stmt)) :
    Shifts .nextLine n n (emitFunctionBody env scope prologue head body) := by
  cases body with
  | none => exact .line _
  | some body =>
    exact .bind (.openBlock head) fun _ => .bind (hprologue scope) fun _ =>
      .bind (shifts_stmts body) fun _ => .closeBlock ""

/-- A function is at the depth where it started, if what is written ahead of its own body stays
inside of its block. -/
theorem shifts_function (options : FunctionOptions) {prologue : Scope → Emit Unit}
    (hprologue : ∀ scope, Shifts .nextLine (n + 1) (n + 1) (prologue scope)) (decl : Function) :
    Shifts .nextLine n n (emitFunction env scope options prologue decl) := by
  obtain ⟨name, params, returnType, generics, modifiers, attributes, body, isConstructor,
    isStatic⟩ := decl
  rw [emitFunction]
  refine .lift fun skipped => ?_
  split
  · exact .pure ()
  split
  · exact .lift fun _ => .pure ()
  refine .bind (shifts_attributes attributes) fun _ => ?_
  refine .bind (.of_restores (renders_parameters params).restores) fun _ => ?_
  dsimp -zeta only
  extract_lets +lift shown words finish named
  have hnamed : ∀ returns, Shifts .nextLine n n (named returns) := fun returns =>
    .lift fun clauses => shifts_functionBody hprologue _ body
  split
  · exact shifts_functionBody hprologue _ body
  · cases options.returns with
    | some returns => exact hnamed returns
    | none => exact .lift hnamed

/-- The variants of an enumeration are written one below the other. -/
theorem shifts_variants (variants : List EnumVariant) :
    Shifts .nextLine n n (emitVariants env scope variants) := by
  induction variants with
  | nil => exact .pure ()
  | cons variant variants ih =>
    obtain ⟨name, value⟩ := variant
    exact .bind (shifts_exprOption value) fun _ => .bind (.line _) fun _ => ih

theorem shifts_enum (d : EnumDecl) : Shifts .nextLine n n (emitEnum env scope d) := by
  unfold emitEnum
  refine .lift fun skipped => ?_
  split
  · exact .pure ()
  · exact .bind .separator fun _ => .bind (shifts_attributes d.attributes) fun _ =>
      .block _ "" (shifts_variants d.variants)

theorem shifts_field (d : Field) : Shifts .nextLine n n (emitField env scope d) := by
  unfold emitField
  refine .lift fun skipped => ?_
  split
  · exact .pure ()
  · exact .bind (shifts_attributes d.attributes) fun _ => .lift fun _ =>
      .bind (shifts_exprOption d.initializer) fun _ => .line _

theorem shifts_accessors : ∀ accessors : List Accessor,
    Shifts .nextLine n n (emitAccessors env scope accessors)
  | [] => .pure ()
  | ⟨_, _, some body⟩ :: accessors => .bind (.openBlock _) fun _ =>
      .bind (shifts_stmts body) fun _ => .bind (.closeBlock "") fun _ => shifts_accessors accessors
  | ⟨_, _, none⟩ :: accessors => .bind (.line _) fun _ => shifts_accessors accessors

theorem shifts_property (d : Property) : Shifts .nextLine n n (emitProperty env scope d) := by
  unfold emitProperty
  refine .lift fun skipped => ?_
  split
  · exact .pure ()
  · refine .bind (shifts_attributes d.attributes) fun _ => .lift fun _ => ?_
    dsimp only
    split
    · exact .bind (shifts_exprOption d.initializer) fun _ => .line _
    · exact .bind .separator fun _ => .block _ "" (shifts_accessors d.accessors)

/-! ### The induction over the tree -/

mutual

theorem shifts_member {scope : Scope} {host : Host} {n : Nat} : ∀ s : Stmt,
    Shifts .nextLine n n (emitMember env scope host s)
  | .namespaceDecl name decls => by
    rw [emitMember]
    split
    · exact .block _ "" (shifts_separated decls)
    · exact .fail _
  | .typeDecl kind ⟨name, modifiers, attributes, generics, base, interfaces, decls⟩ => by
    rw [emitMember]
    split
    · exact .fail _
    refine .lift fun skipped => ?_
    split
    · exact .pure ()
    · exact .bind .separator fun _ => .bind (shifts_attributes attributes) fun _ => .lift fun _ =>
        .block _ "" (shifts_members decls)
  | .enumDecl decl => by
    rw [emitMember]
    split
    · exact .fail _
    · exact shifts_enum decl
  | .moduleDecl ⟨name, modifiers, attributes, decls⟩ => by
    rw [emitMember]
    split
    · exact .fail _
    refine .lift fun skipped => ?_
    split
    · exact .pure ()
    · exact .bind .separator fun _ => .bind (shifts_attributes attributes) fun _ =>
        .block _ "" (shifts_members decls)
  | .functionDecl kind decl => by
    rw [emitMember]
    split
    · exact .fail _
    · exact .bind .separator fun _ => shifts_function {} (fun _ => .pure ()) decl
  | .fieldDecl decl => by
    rw [emitMember]
    split
    · exact .fail _
    · exact shifts_field decl
  | .propertyDecl decl => by
    rw [emitMember]
    split
    · exact .fail _
    · exact shifts_property decl
  | .importDecl decl => by
    rw [emitMember]
    split
    · exact .line _
    · exact .lifted _
  | .includeDecl _ decls => shifts_members decls
  | .raw block => shifts_rawCode block
  | .binding _ | .expr _ | .ifThen _ _ _ | .whileLoop _ _ | .forLoop _ _ _ _ | .forEach _ _ _ _
  | .ret _ | .breakLoop | .continueLoop | .matchOn _ _ | .switchOn _ _ | .aliasDecl _ => .lifted _

theorem shifts_members {scope : Scope} {host : Host} {n : Nat} : ∀ ss : List Stmt,
    Shifts .nextLine n n (emitMembers env scope host ss)
  | [] => .pure ()
  | s :: ss => .bind (shifts_member s) fun _ => shifts_members ss

theorem shifts_separated {n : Nat} : ∀ ss : List Stmt,
    Shifts .nextLine n n (emitSeparated env ss)
  | [] => .pure ()
  | s :: ss => .bind .separator fun _ => .bind (shifts_member s) fun _ => shifts_separated ss

end

end CSharp

end SourceGen
