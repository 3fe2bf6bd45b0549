import SourceGen.Proofs.Rust.BodyShape
import SourceGen.Proofs.Rust.Trace

/-!
# Rust bodies make the jumps of their traces

A trace is what remains of a shape when it is forgotten which loop of the tree a jump stands in. So
code that has the jumps of a shape makes those of its trace, no more and no less.

## Main definitions

* `JumpShape.trace`: the trace of a shape.

## Main results

* `Rust.Shows.tracks`: code with the jumps of a shape makes those of its trace.
* `Rust.tracks_stmts`: the code of statements.
* `Rust.tracks_function`: the code of functions.
-/

namespace SourceGen

/-! ### The traces of shapes -/

/-- The trace of a shape. -/
def JumpShape.trace : JumpShape → Trace
  | .empty => {}
  | .append s t => s.trace ++ t.trace
  | .leave => ⟨[⟨.leave, false⟩], false⟩
  | .next => ⟨[⟨.next, false⟩], false⟩
  | .closed s => s.trace.closed
  | .loop s | .step s => s.trace.inLoop
  | .labelled s => s.trace.labelled.inLoop

/-- The trace of two shapes in a row is theirs in a row. -/
@[simp] theorem JumpShape.trace_append (s t : JumpShape) : (s ++ t).trace = s.trace ++ t.trace :=
  rfl

theorem JumpShape.trace_append_eq {s t : JumpShape} {u v : Trace} (hs : s.trace = u)
    (ht : t.trace = v) : (s ++ t).trace = u ++ v := by
  rw [trace_append, hs, ht]

theorem JumpShape.trace_closed_eq {s : JumpShape} {t : Trace} (h : s.trace = t) :
    s.closed.trace = t.closed :=
  congrArg Trace.closed h

theorem JumpShape.trace_loop_eq {s : JumpShape} {t : Trace} (h : s.trace = t) :
    s.loop.trace = t.inLoop :=
  congrArg Trace.inLoop h

open JumpShape (trace_append_eq trace_closed_eq trace_loop_eq)

mutual

/-- The trace of the shape of an expression is the trace of the expression. -/
@[simp] theorem Expr.trace_shape : ∀ e : Expr, e.shape.trace = e.trace
  | .literal _ | .ident _ | .path _ | .this => rfl
  | .member object _ => Expr.trace_shape object
  | .index object i => trace_append_eq (Expr.trace_shape object) (Expr.trace_shape i)
  | .binary left _ right => trace_append_eq (Expr.trace_shape left) (Expr.trace_shape right)
  | .unary _ operand _ => Expr.trace_shape operand
  | .assign target _ value => trace_append_eq (Expr.trace_shape target) (Expr.trace_shape value)
  | .call callee args => trace_append_eq (Expr.trace_shape callee) (Expr.trace_allShape args)
  | .construct _ args => Expr.trace_allShape args
  | .array elements _ => Expr.trace_allShape elements
  | .lambda _ (.expr value) => trace_closed_eq (Expr.trace_shape value)
  | .lambda _ (.block block) => trace_closed_eq (Stmt.trace_allShape block)
  | .range start stop _ =>
    trace_append_eq (Expr.trace_optionShape start) (Expr.trace_optionShape stop)
  | .block block => Stmt.trace_valueShape block
  | .matchOn scrutinee arms =>
    trace_append_eq (Expr.trace_shape scrutinee) (MatchArm.trace_valueShape arms)

@[simp] theorem Expr.trace_allShape : ∀ es : List Expr, (Expr.allShape es).trace = Expr.allTrace es
  | [] => rfl
  | e :: es => trace_append_eq (Expr.trace_shape e) (Expr.trace_allShape es)

@[simp] theorem Expr.trace_optionShape :
    ∀ e : Option Expr, (Expr.optionShape e).trace = Expr.optionTrace e
  | none => rfl
  | some e => Expr.trace_shape e

theorem Stmt.trace_valueShape :
    ∀ block : List Stmt, (Stmt.valueShape block).trace = Stmt.valueTrace block
  | [] => rfl
  | [s] => by
    have hs := trace_append_eq (Stmt.trace_shape s) (Stmt.trace_valueShape [])
    cases s with
    | expr value => exact Expr.trace_shape value
    | _ => exact hs
  | s :: s' :: ss => by
    have hss := trace_append_eq (Stmt.trace_shape s) (Stmt.trace_valueShape (s' :: ss))
    -- The definition looks at the first statement before it looks for a second one.
    cases s <;> exact hss

theorem MatchArm.trace_valueShape :
    ∀ arms : List MatchArm, (MatchArm.valueShape arms).trace = MatchArm.valueTrace arms
  | [] => rfl
  | ⟨pattern, .expr value⟩ :: arms =>
    trace_append_eq (trace_append_eq (Pattern.trace_shape pattern) (Expr.trace_shape value))
      (MatchArm.trace_valueShape arms)
  | ⟨pattern, .block block⟩ :: arms => by
    have hblock := trace_closed_eq (Stmt.trace_allShape block)
    exact trace_append_eq (trace_append_eq (Pattern.trace_shape pattern) hblock)
      (MatchArm.trace_valueShape arms)

theorem Pattern.trace_shape : ∀ pattern : Pattern, pattern.shape.trace = pattern.trace
  | .default => rfl
  | .values values => Expr.trace_allShape values

/-- The trace of the shape of a statement is the trace of the statement. -/
theorem Stmt.trace_shape : ∀ s : Stmt, s.shape.trace = s.trace
  | .binding ⟨_, _, value, _⟩ => Expr.trace_optionShape value
  | .ifThen condition thenBranch elseBranch =>
    trace_append_eq (trace_append_eq (Expr.trace_shape condition) (Stmt.trace_allShape thenBranch))
      (Stmt.trace_optionShape elseBranch)
  | .whileLoop condition body =>
    trace_append_eq (Expr.trace_shape condition) (trace_loop_eq (Stmt.trace_allShape body))
  | .forLoop start condition step body => by
    have hbody := Stmt.trace_allShape body
    -- The body is labelled or not, as the same search decides for both.
    have hloop : ∀ labelled : Bool, JumpShape.trace
        (if labelled then .labelled (Stmt.allShape body) else .loop (Stmt.allShape body)) =
          (if labelled then (Stmt.allTrace body).labelled else Stmt.allTrace body).inLoop := by
      rintro (_ | _)
      · exact trace_loop_eq hbody
      · exact congrArg (·.labelled.inLoop) hbody
    have hahead := trace_append_eq (Stmt.trace_startShape start) (Expr.trace_optionShape condition)
    exact trace_append_eq (trace_append_eq hahead (hloop _))
      (trace_loop_eq (Expr.trace_optionShape step))
  | .forEach _ _ iterable body =>
    trace_append_eq (Expr.trace_shape iterable) (trace_loop_eq (Stmt.trace_allShape body))
  | .ret value => Expr.trace_optionShape value
  | .breakLoop | .continueLoop => rfl
  | .matchOn scrutinee arms =>
    trace_append_eq (Expr.trace_shape scrutinee) (MatchArm.trace_allShape arms)
  | .switchOn subject cases =>
    trace_append_eq (Expr.trace_shape subject) (SwitchCase.trace_allShape cases)
  | .expr value => by
    have hvalue : value.shape.trace = value.trace := Expr.trace_shape value
    cases value with
    | matchOn scrutinee arms =>
      exact trace_append_eq (Expr.trace_shape scrutinee) (MatchArm.trace_allShape arms)
    | _ => exact hvalue
  | .functionDecl _ decl => Function.trace_shape .empty decl
  | .raw _ | .typeDecl _ _ | .enumDecl _ | .importDecl _ | .includeDecl _ _ | .aliasDecl _
  | .namespaceDecl _ _ | .moduleDecl _ | .fieldDecl _ | .propertyDecl _ => rfl

/-- The same of a block. -/
@[simp] theorem Stmt.trace_allShape :
    ∀ ss : List Stmt, (Stmt.allShape ss).trace = Stmt.allTrace ss
  | [] => rfl
  | s :: ss => trace_append_eq (Stmt.trace_shape s) (Stmt.trace_allShape ss)

@[simp] theorem Stmt.trace_optionShape :
    ∀ block : Option (List Stmt), (Stmt.optionShape block).trace = Stmt.optionTrace block
  | none => rfl
  | some block => Stmt.trace_allShape block

theorem Stmt.trace_startShape :
    ∀ start : Option Stmt, (Stmt.startShape start).trace = Stmt.startTrace start
  | none => rfl
  | some s => by
    cases s with
    | binding b =>
      obtain ⟨name, type, value, mutability⟩ := b
      exact Expr.trace_optionShape value
    | expr value => exact Expr.trace_shape value
    | _ => rfl

theorem MatchArm.trace_allShape :
    ∀ arms : List MatchArm, (MatchArm.allShape arms).trace = MatchArm.allTrace arms
  | [] => rfl
  | ⟨pattern, .expr value⟩ :: arms =>
    trace_append_eq (trace_append_eq (Pattern.trace_shape pattern) (Expr.trace_shape value))
      (MatchArm.trace_allShape arms)
  | ⟨pattern, .block block⟩ :: arms =>
    trace_append_eq (trace_append_eq (Pattern.trace_shape pattern) (Stmt.trace_allShape block))
      (MatchArm.trace_allShape arms)

theorem SwitchCase.trace_allShape :
    ∀ cases : List SwitchCase, (SwitchCase.allShape cases).trace = SwitchCase.allTrace cases
  | [] => rfl
  | ⟨pattern, body⟩ :: cases =>
    trace_append_eq (trace_append_eq (Pattern.trace_shape pattern) (Stmt.trace_allShape body))
      (SwitchCase.trace_allShape cases)

theorem Attribute.trace_allShape : ∀ attributes : List Attribute,
    (Attribute.allShape attributes).trace = Attribute.allTrace attributes
  | [] => rfl
  | ⟨name, args⟩ :: attributes => by
    have hargs := trace_closed_eq (Expr.trace_allShape args)
    refine trace_append_eq ?_ (Attribute.trace_allShape attributes)
    split
    · rfl
    · exact hargs

/-- A function behind a prologue has the trace of both. -/
theorem Function.trace_shape (before : JumpShape) :
    ∀ decl : Function, (decl.shape before).trace = decl.trace before.trace
  | ⟨name, _, _, _, _, attributes, body, _, _⟩ => by
    have hbody := trace_closed_eq (Stmt.trace_bodyShape before body)
    rw [Function.shape, Function.trace]
    split
    · rfl
    · exact trace_append_eq (Attribute.trace_allShape attributes) hbody

theorem Stmt.trace_bodyShape (before : JumpShape) : ∀ body : Option (List Stmt),
    (Stmt.bodyShape before body).trace = Stmt.bodyTrace before.trace body
  | none => rfl
  | some body => trace_append_eq rfl (Stmt.trace_allShape body)

end

namespace Rust

/-- Code with the jumps of a shape makes those of its trace. -/
theorem Shows.tracks {label : Option Nat} {s : JumpShape} {ms : List Mark}
    (h : Shows label s ms) : Tracks label s.trace ms := by
  induction h with
  | empty => exact .nil
  | append _ _ ih ih' => exact ih.append ih'
  | double _ ih => exact ih.double
  | switch _ ih => exact ih.switch
  | leave => exact .jump .leave
  | next => exact .jump .next
  | closed _ ih => exact ih.closed
  | loop _ ih => exact ih.inLoop
  | @labelled _ s ms n _ ih =>
    have hwalls : ms.map (Mark.under [.labelled n, .loop none]) =
        (ms.map (Mark.under [.labelled n])).map (Mark.under [.loop none]) := by
      rw [Mark.map_under_under, List.singleton_append]
    rw [hwalls]
    exact ih.labelled.inLoop
  | step _ ih => exact ih.inLoop

variable {env : Env}

/-- A written statement has the jumps its trace tells. -/
theorem tracks_stmt {place : Place} (s : Stmt) :
    (stmt env place s).Always fun cs =>
      Tracks place.continueLabel s.trace (Code.allMarks cs) :=
  (shows_stmt s).mono fun _ h => Stmt.trace_shape s ▸ h.tracks

/-- The same of a block. -/
theorem tracks_stmts {place : Place} (ss : List Stmt) :
    (stmts env place ss).Always fun cs =>
      Tracks place.continueLabel (Stmt.allTrace ss) (Code.allMarks cs) :=
  (shows_stmts ss).mono fun _ h => Stmt.trace_allShape ss ▸ h.tracks

/-- The step of a counted loop has the jumps its trace tells. -/
theorem tracks_stepLine {place : Place} (step : Option Expr) :
    (stepLine env place step).Always fun cs =>
      Tracks place.continueLabel (Expr.optionTrace step) (Code.allMarks cs) :=
  (shows_stepLine step).mono fun _ h => Expr.trace_optionShape step ▸ h.tracks

end Rust

end SourceGen
