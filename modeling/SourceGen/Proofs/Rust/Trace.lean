import SourceGen.Proofs.Mark
import SourceGen.Rust.Body

/-!
# Traces of a tree

Which jumps a tree makes outside its own loops, and whether one of its counted loops puts a jump
where Rust does not allow it. A `continue` becomes a jump out of the labelled body of its loop, but
a `break` has no label, and neither has a jump in a closure.

## Main definitions

* `Exit`: a jump of a tree that no loop of the tree stops.
* `Trace`: the exits of a tree, and whether it has a counted loop that traps one.
* `Expr.trace`, `Stmt.allTrace`: the traces of expressions and statements.
* `Rust.Tracks`: the marks of code are those of a trace.

## Main results

* `Rust.Tracks.append`, `Rust.Tracks.closed`, `Rust.Tracks.inLoop`, `Rust.Tracks.labelled`: how
  traces and marks compose.
* `Stmt.next_mem_of_anyContinues`: the search for a `continue` finds only real ones.
-/

namespace SourceGen

/-! ### Exits -/

/-- What a jump asks for. -/
inductive ExitKind where
  /-- The end of the loop. -/
  | leave
  /-- Its next round. -/
  | next
  deriving DecidableEq, Repr

/-- A jump of a tree that no loop of the tree stops. -/
structure Exit where
  kind : ExitKind
  /-- A closure or a function of the tree is around the jump. -/
  closed : Bool := false
  deriving DecidableEq, Repr

namespace Exit

/-- The exit from inside a closure or a function. -/
def close (x : Exit) : Exit :=
  { x with closed := true }

/-- The jump is written without a label, also in a labelled body. -/
def isBare (x : Exit) : Bool :=
  x.closed || x.kind == .leave

/-- The jump that is written in the body of a loop with this label. -/
def jump (label : Option Nat) : Exit → Jump
  | ⟨.leave, _⟩ => .leaveInnermost
  | ⟨.next, closed⟩ => Rust.nextRound (if closed then none else label)

end Exit

/-! ### Traces -/

/-- What matters of a tree for its jumps. -/
structure Trace where
  exits : List Exit := []
  /-- A counted loop of the tree has a labelled body with a bare exit. -/
  traps : Bool := false
  deriving DecidableEq, Repr

namespace Trace

instance : Append Trace :=
  ⟨fun s t => ⟨s.exits ++ t.exits, s.traps || t.traps⟩⟩

/-- The trace of a closure or a function. -/
def closed (t : Trace) : Trace :=
  { t with exits := t.exits.map Exit.close }

/-- The trace of a loop. -/
def inLoop (t : Trace) : Trace :=
  { t with exits := [] }

/-- The trace of a labelled body. -/
def labelled (t : Trace) : Trace :=
  { t with traps := t.traps || t.exits.any Exit.isBare }

variable (s t u : Trace)

@[simp] theorem exits_append : (s ++ t).exits = s.exits ++ t.exits := rfl

@[simp] theorem traps_append : (s ++ t).traps = (s.traps || t.traps) := rfl

@[simp] theorem empty_append : ({} : Trace) ++ t = t := by
  cases t
  rfl

@[simp] theorem append_empty : t ++ ({} : Trace) = t := by
  cases t with
  | mk exits traps =>
    change Trace.mk (exits ++ []) (traps || false) = _
    simp

end Trace

mutual

/-- The trace of an expression. -/
def Expr.trace : Expr → Trace
  | .literal _ | .ident _ | .path _ | .this => {}
  | .member object _ => object.trace
  | .index object i => object.trace ++ i.trace
  | .binary left _ right => left.trace ++ right.trace
  | .unary _ operand _ => operand.trace
  | .assign target _ value => target.trace ++ value.trace
  | .call callee args => callee.trace ++ Expr.allTrace args
  | .construct _ args => Expr.allTrace args
  | .array elements _ => Expr.allTrace elements
  | .lambda _ (.expr value) => value.trace.closed
  | .lambda _ (.block block) => (Stmt.allTrace block).closed
  | .range start stop _ => Expr.optionTrace start ++ Expr.optionTrace stop
  | .block block => Stmt.valueTrace block
  | .matchOn scrutinee arms => scrutinee.trace ++ MatchArm.valueTrace arms

/-- The trace of expressions. -/
def Expr.allTrace : List Expr → Trace
  | [] => {}
  | e :: es => e.trace ++ Expr.allTrace es

/-- The trace of an optional expression. -/
def Expr.optionTrace : Option Expr → Trace
  | none => {}
  | some e => e.trace

/-- The trace of a block with a value; the last expression is never a statement. -/
def Stmt.valueTrace : List Stmt → Trace
  | [] => {}
  | [.expr value] => value.trace
  | s :: ss => s.trace ++ Stmt.valueTrace ss

/-- The trace of the arms of a match expression, where blocks are closures. -/
def MatchArm.valueTrace : List MatchArm → Trace
  | [] => {}
  | ⟨pattern, .expr value⟩ :: arms => pattern.trace ++ value.trace ++ MatchArm.valueTrace arms
  | ⟨pattern, .block block⟩ :: arms =>
    pattern.trace ++ (Stmt.allTrace block).closed ++ MatchArm.valueTrace arms

/-- The trace of a pattern. -/
def Pattern.trace : Pattern → Trace
  | .default => {}
  | .values values => Expr.allTrace values

/-- The trace of a statement. The step of a counted loop is no part of its labelled body. -/
def Stmt.trace : Stmt → Trace
  | .binding ⟨_, _, value, _⟩ => Expr.optionTrace value
  | .ifThen condition thenBranch elseBranch =>
    condition.trace ++ Stmt.allTrace thenBranch ++ Stmt.optionTrace elseBranch
  | .whileLoop condition body => condition.trace ++ (Stmt.allTrace body).inLoop
  | .forLoop start condition step body =>
    Stmt.startTrace start ++ Expr.optionTrace condition ++
      (if step.isSome && Stmt.anyContinues body then (Stmt.allTrace body).labelled
        else Stmt.allTrace body).inLoop ++
      (Expr.optionTrace step).inLoop
  | .forEach _ _ iterable body => iterable.trace ++ (Stmt.allTrace body).inLoop
  | .ret value => Expr.optionTrace value
  | .breakLoop => ⟨[⟨.leave, false⟩], false⟩
  | .continueLoop => ⟨[⟨.next, false⟩], false⟩
  | .matchOn scrutinee arms => scrutinee.trace ++ MatchArm.allTrace arms
  | .expr (.matchOn scrutinee arms) => scrutinee.trace ++ MatchArm.allTrace arms
  | .expr value => value.trace
  | .switchOn subject cases => subject.trace ++ SwitchCase.allTrace cases
  | .functionDecl _ decl => decl.trace {}
  | _ => {}

/-- The trace of statements. -/
def Stmt.allTrace : List Stmt → Trace
  | [] => {}
  | s :: ss => s.trace ++ Stmt.allTrace ss

/-- The trace of an optional block. -/
def Stmt.optionTrace : Option (List Stmt) → Trace
  | none => {}
  | some block => Stmt.allTrace block

/-- The trace of the first clause of a counted loop. -/
def Stmt.startTrace : Option Stmt → Trace
  | some (.binding ⟨_, _, value, _⟩) => Expr.optionTrace value
  | some (.expr value) => value.trace
  | _ => {}

/-- The trace of the arms of a match statement. -/
def MatchArm.allTrace : List MatchArm → Trace
  | [] => {}
  | ⟨pattern, .expr value⟩ :: arms => pattern.trace ++ value.trace ++ MatchArm.allTrace arms
  | ⟨pattern, .block block⟩ :: arms =>
    pattern.trace ++ Stmt.allTrace block ++ MatchArm.allTrace arms

/-- The trace of the cases of a switch. -/
def SwitchCase.allTrace : List SwitchCase → Trace
  | [] => {}
  | ⟨pattern, body⟩ :: cases => pattern.trace ++ Stmt.allTrace body ++ SwitchCase.allTrace cases

/-- The trace of attributes, not counting markers. -/
def Attribute.allTrace : List Attribute → Trace
  | [] => {}
  | ⟨name, args⟩ :: attributes =>
    (if (Marker.ofName? name).isSome then {} else (Expr.allTrace args).closed) ++
      Attribute.allTrace attributes

/-- The trace of a function with something ahead of its own body. Marked functions and functions
with a qualified name are not written. -/
def Function.trace (before : Trace) : Function → Trace
  | ⟨name, _, _, _, _, attributes, body, _, _⟩ =>
    if (Marker.of? attributes).isSome || Text.hasChar '.' name then {}
    else Attribute.allTrace attributes ++ (Stmt.bodyTrace before body).closed

/-- The trace of the body of a function. -/
def Stmt.bodyTrace (before : Trace) : Option (List Stmt) → Trace
  | none => {}
  | some body => before ++ Stmt.allTrace body

end

/-! ### The search for a `continue` -/

mutual

theorem Stmt.next_mem_of_continues :
    ∀ s : Stmt, s.continues = true → (⟨.next, false⟩ : Exit) ∈ s.trace.exits
  | .continueLoop, _ => List.mem_cons_self
  | .ifThen _ thenBranch none, h => by
    have hthen := Stmt.next_mem_of_anyContinues thenBranch h
    exact List.mem_append_left _ (List.mem_append_right _ hthen)
  | .ifThen _ thenBranch (some elseBranch), h => by
    rcases Bool.or_eq_true_iff.mp h with h | h
    · have hthen := Stmt.next_mem_of_anyContinues thenBranch h
      exact List.mem_append_left _ (List.mem_append_right _ hthen)
    · exact List.mem_append_right _ (Stmt.next_mem_of_anyContinues elseBranch h)
  | .matchOn _ arms, h => List.mem_append_right _ (MatchArm.next_mem_of_anyArmContinues arms h)
  | .switchOn _ cases, h =>
    List.mem_append_right _ (SwitchCase.next_mem_of_anyCaseContinues cases h)
  -- The search looks into nothing else.
  | .importDecl _, h | .includeDecl _ _, h | .aliasDecl _, h | .namespaceDecl _ _, h
  | .typeDecl _ _, h | .enumDecl _, h | .moduleDecl _, h | .functionDecl _ _, h | .fieldDecl _, h
  | .propertyDecl _, h | .binding _, h | .whileLoop _ _, h | .forLoop _ _ _ _, h
  | .forEach _ _ _ _, h | .ret _, h | .breakLoop, h | .expr _, h | .raw _, h =>
    absurd h Bool.false_ne_true

/-- The search finds only jumps that are there. -/
theorem Stmt.next_mem_of_anyContinues :
    ∀ ss : List Stmt, Stmt.anyContinues ss = true →
      (⟨.next, false⟩ : Exit) ∈ (Stmt.allTrace ss).exits
  | [], h => absurd h Bool.false_ne_true
  | s :: ss, h => by
    rcases Bool.or_eq_true_iff.mp h with h | h
    · exact List.mem_append_left _ (Stmt.next_mem_of_continues s h)
    · exact List.mem_append_right _ (Stmt.next_mem_of_anyContinues ss h)

theorem MatchArm.next_mem_of_anyArmContinues :
    ∀ arms : List MatchArm, Stmt.anyArmContinues arms = true →
      (⟨.next, false⟩ : Exit) ∈ (MatchArm.allTrace arms).exits
  | [], h => absurd h Bool.false_ne_true
  | ⟨_, .expr _⟩ :: arms, h =>
    List.mem_append_right _ (MatchArm.next_mem_of_anyArmContinues arms h)
  | ⟨_, .block block⟩ :: arms, h => by
    rcases Bool.or_eq_true_iff.mp h with h | h
    · have hblock := Stmt.next_mem_of_anyContinues block h
      exact List.mem_append_left _ (List.mem_append_right _ hblock)
    · exact List.mem_append_right _ (MatchArm.next_mem_of_anyArmContinues arms h)

theorem SwitchCase.next_mem_of_anyCaseContinues :
    ∀ cases : List SwitchCase, Stmt.anyCaseContinues cases = true →
      (⟨.next, false⟩ : Exit) ∈ (SwitchCase.allTrace cases).exits
  | [], h => absurd h Bool.false_ne_true
  | ⟨_, body⟩ :: cases, h => by
    rcases Bool.or_eq_true_iff.mp h with h | h
    · have hbody := Stmt.next_mem_of_anyContinues body h
      exact List.mem_append_left _ (List.mem_append_right _ hbody)
    · exact List.mem_append_right _ (SwitchCase.next_mem_of_anyCaseContinues cases h)

end

namespace Rust

/-! ### Marks of a trace -/

/-- In the body of a loop with this label, the code makes the jumps of the trace. -/
structure Tracks (label : Option Nat) (t : Trace) (ms : List Mark) : Prop where
  atLevel_iff : ∀ c j, Mark.AtLevel c ms j ↔ ∃ k, ⟨k, c⟩ ∈ t.exits ∧ Exit.jump label ⟨k, c⟩ = j
  trapped_iff : Mark.Trapped ms ↔ t.traps = true

namespace Tracks

variable {label label' : Option Nat} {s t : Trace} {ms ms' : List Mark}

theorem nil : Tracks label {} [] where
  atLevel_iff := by simp
  trapped_iff := by simp

theorem append (h : Tracks label s ms) (h' : Tracks label t ms') :
    Tracks label (s ++ t) (ms ++ ms') where
  atLevel_iff c j := by
    simp only [Mark.atLevel_append, h.atLevel_iff, h'.atLevel_iff, Trace.exits_append,
      List.mem_append, or_and_right, exists_or]
  trapped_iff := by
    rw [Mark.trapped_append, h.trapped_iff, h'.trapped_iff, Trace.traps_append, Bool.or_eq_true]

/-- Code that is written twice. -/
theorem double (h : Tracks label t ms) : Tracks label t (ms ++ ms) where
  atLevel_iff c j := by rw [Mark.atLevel_append, or_self, h.atLevel_iff]
  trapped_iff := by rw [Mark.trapped_append, or_self, h.trapped_iff]

/-- A jump on its own. -/
theorem jump (k : ExitKind) :
    Tracks label ⟨[⟨k, false⟩], false⟩ [.jump [] (Exit.jump label ⟨k, false⟩)] where
  atLevel_iff c j := by
    constructor
    · rintro ⟨path, hmem, -, hclosed⟩
      obtain ⟨rfl, rfl⟩ := by simpa using hmem
      obtain rfl : c = false := by simpa using hclosed
      exact ⟨k, by simp, rfl⟩
    · rintro ⟨k', hmem, rfl⟩
      obtain ⟨rfl, rfl⟩ := by simpa using hmem
      exact ⟨[], by simp, by simp, by simp⟩
  trapped_iff := by simp [Mark.Trapped]

/-- Inside a switch nothing changes. -/
theorem switch (h : Tracks label t ms) : Tracks label t (ms.map (Mark.under [.switch])) where
  atLevel_iff c j := by rw [Mark.atLevel_under_of_keepsLoop rfl, h.atLevel_iff]
  trapped_iff := by
    rw [Mark.trapped_under, h.trapped_iff]
    simp

/-- A closure or a function is written without a label around it. -/
theorem closed (h : Tracks none t ms) : Tracks label t.closed (ms.map (Mark.under [.body])) where
  atLevel_iff c j := by
    -- In a closure every jump is closed, and a closed jump never has a label.
    rw [Mark.atLevel_under_body]
    simp only [h.atLevel_iff]
    constructor
    · rintro ⟨rfl, c', k, hmem, hj⟩
      refine ⟨k, List.mem_map.mpr ⟨_, hmem, rfl⟩, ?_⟩
      cases k <;> simpa [Exit.jump] using hj
    · rintro ⟨k, hmem, hj⟩
      obtain ⟨⟨k', c'⟩, hmem', hx⟩ := List.mem_map.mp hmem
      simp only [Exit.close, Exit.mk.injEq] at hx
      obtain ⟨rfl, rfl⟩ := hx
      refine ⟨rfl, c', k', hmem', ?_⟩
      cases k' <;> simpa [Exit.jump] using hj
  trapped_iff := by
    rw [Mark.trapped_under, h.trapped_iff]
    simp [Trace.closed]

/-- A loop stops all jumps in it. -/
theorem inLoop (h : Tracks label' t ms) :
    Tracks label t.inLoop (ms.map (Mark.under [.loop none])) where
  atLevel_iff c j := by simp [Mark.not_atLevel_under_loop, Trace.inLoop]
  trapped_iff := by
    rw [Mark.trapped_under, h.trapped_iff]
    simp [Trace.inLoop]

/-- The bare exits of a labelled body are trapped in it. -/
theorem labelled {n m : Nat} (h : Tracks (some n) t ms) :
    Tracks (some n) t.labelled (ms.map (Mark.under [.labelled m])) where
  atLevel_iff c j := by
    rw [Mark.atLevel_under_of_keepsLoop rfl, h.atLevel_iff]
    rfl
  trapped_iff := by
    -- With a label around, the bare exits are those that are written without it.
    have hbare : ∀ x : Exit, Mark.Unlabelled (x.jump (some n)) ↔ x.isBare = true := by
      rintro ⟨_ | _, _ | _⟩ <;> simp [Mark.Unlabelled, Exit.jump, Exit.isBare, nextRound]
    rw [Mark.trapped_under, h.trapped_iff, Trace.labelled, Bool.or_eq_true, List.any_eq_true]
    simp only [h.atLevel_iff]
    constructor
    · rintro (ht | ⟨-, c, j, ⟨k, hmem, rfl⟩, hj⟩)
      · exact .inl ht
      · exact .inr ⟨_, hmem, (hbare _).mp hj⟩
    · rintro (ht | ⟨x, hmem, hx⟩)
      · exact .inl ht
      · exact .inr ⟨⟨m, rfl⟩, x.closed, _, ⟨x.kind, hmem, rfl⟩, (hbare x).mpr hx⟩

/-- A `continue` of the loop itself has the label, if there is one. -/
theorem atLevel_nextRound_iff (h : Tracks label t ms) (c : Bool) :
    Mark.AtLevel c ms .nextRound ↔ ⟨.next, c⟩ ∈ t.exits ∧ (c = true ∨ label = none) := by
  rw [h.atLevel_iff]
  constructor
  · rintro ⟨_ | _, hmem, hj⟩
    · simp [Exit.jump] at hj
    · refine ⟨hmem, ?_⟩
      cases c <;> cases label <;> simp_all [Exit.jump, nextRound]
  · rintro ⟨hmem, hlabel⟩
    refine ⟨.next, hmem, ?_⟩
    cases c <;> cases label <;> simp_all [Exit.jump, nextRound]

end Tracks

end Rust

end SourceGen
