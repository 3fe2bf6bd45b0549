import SourceGen.Proofs.CSharp.RestoredMembers
import SourceGen.Proofs.CSharp.UnitEmission
import SourceGen.Proofs.Rust.UnitEmission

/-!
# Emission restores the state

Whatever is emitted for an expression, a statement or a declaration, the state of the emitter is
afterwards what it was before. An expression changes nothing at all, the buffer included. A
statement or a declaration adds to the buffer, at the same level, at the same nesting and with the
same loops around it; all it may have changed there is that the label behind a loop has come into
use. No step back is ever made from the margin. The units that are emitted are the generated ones.

## Main results

* `emission_restores_state`: expressions, statements and declarations of both targets, from every
  state.
-/

namespace SourceGen

open Emit (Renders Restores)

/-- From every state with this layout of braces, the emitter leaves the whole state as it is. -/
def Emit.Keeps {α : Type} (braces : BraceStyle) (x : Emit α) : Prop :=
  ∀ st : Emitter, st.out.style = braces → (x st).Always fun r => r.2 = st

theorem Emit.Renders.keeps {α β : Type} {braces : BraceStyle} {x : Emit α} {y : Gen β}
    {view : Emitter → β → α} (h : Renders braces view x y) : Keeps braces x := by
  intro st hst
  rw [show x st = _ from h st hst, map_eq_pure_bind]
  exact .after fun _ => .pure rfl

namespace CSharp

/-- A unit is emitted outside of all loops. -/
theorem restored_unitCode {env : Env} (stmts : List Stmt) (sections : Sections) {st : Emitter}
    (hst : Fits none st) :
    (emitUnitCode env stmts sections st).Always fun r => st.Restored r.2 :=
  (follows_unitCode stmts sections hst).restores fun r => st.restored_wrote r.1

end CSharp

namespace Rust

theorem Adds.restores {x : Emit Unit} {y : Gen (List Code)} (h : Adds x y) :
    Restores .sameLine x := fun st hst =>
  (h hst).restores fun code => st.restored_put code

theorem restores_unitCode {env : Env} (sections : Sections) :
    Restores .sameLine (emitUnitCode env sections) := fun st hst =>
  (follows_unitCode sections hst).restores fun r => st.restored_put r.1

end Rust

/-- From every state of an emitter of C# or of Rust, an expression is rendered without any change of
the state, and a statement or a declaration is written with the state restored. That includes the
parts of a unit, and the unit itself, which is the one that the generator yields. -/
theorem emission_restores_state :
    (∀ (env : CSharp.Env) (scope : Scope) (e : Expr),
      Emit.Keeps .nextLine (CSharp.emitExpr env scope e)) ∧
    (∀ (env : CSharp.Env) (scope : Scope) (s : Stmt),
      Restores .nextLine (CSharp.emitStmt env scope s)) ∧
    (∀ (env : CSharp.Env) (scope : Scope) (host : CSharp.Host) (s : Stmt),
      Restores .nextLine (CSharp.emitMember env scope host s)) ∧
    (∀ (env : Rust.Env) (place : Rust.Place) (position : Rust.Position) (e : Expr),
      Emit.Keeps .sameLine (Rust.emitExpr env place position e)) ∧
    (∀ (env : Rust.Env) (place : Rust.Place) (s : Stmt),
      Restores .sameLine (Rust.emitStmt env place s)) ∧
    (∀ (env : Rust.Env) (place : Rust.Place) (host : Rust.Host) (s : Stmt),
      Restores .sameLine (Rust.emitItem env place host s)) ∧
    (∀ (env : CSharp.Env) (ss : List Stmt) (sections : Sections) (st : Emitter),
      CSharp.Fits none st →
        (CSharp.emitUnitCode env ss sections st).Always fun r => st.Restored r.2) ∧
    (∀ (env : Rust.Env) (sections : Sections),
      Restores .sameLine (Rust.emitUnitCode env sections)) ∧
    CSharp.emitUnit = CSharp.generate ∧ Rust.emitUnit = Rust.compose :=
  ⟨fun _ _ e => (CSharp.renders_expr e).keeps, fun _ _ s => CSharp.restores_stmt s,
    fun _ _ _ s => (CSharp.shifts_member s).restores, fun _ _ _ e => (Rust.renders_expr e).keeps,
    fun _ _ s => (Rust.adds_stmt s).restores, fun _ _ _ s => (Rust.adds_item s).restores,
    fun _ ss sections _ hst => CSharp.restored_unitCode ss sections hst,
    fun _ sections => Rust.restores_unitCode sections, CSharp.emitUnit_eq, Rust.emitUnit_eq⟩

/-- An emitter in a switch in a loop, two levels deep. -/
def inSwitch : Emitter :=
  { out := { level := 2, style := .nextLine }, loops := [⟨0, 1, false⟩] }

/-- A branch that leaves the loop around the switch, and a closure with a loop of its own. -/
def leavingBranch : Stmt :=
  .ifThen (.ident "done") [.breakLoop]
    (some [.expr (.lambda [] (.block [.whileLoop (.ident "busy") [.breakLoop]]))])

theorem leavingBranch_restores_state : ∃ (st : Emitter) (k : Journal),
    (CSharp.emitStmt ⟨{}, KnownTypes.collect [], Resolver.dotnet⟩ {} leavingBranch
      inSwitch).Yields {} ((), st) k ∧ inSwitch.Restored st ∧ st.loops = [⟨0, 1, true⟩] := by
  have hrun : (CSharp.emitStmt ⟨{}, KnownTypes.collect [], Resolver.dotnet⟩ {} leavingBranch
      inSwitch).Yields {} ((), _) _ := rfl
  exact ⟨_, _, hrun, emission_restores_state.2.1 _ _ leavingBranch inSwitch rfl hrun, rfl⟩

end SourceGen
