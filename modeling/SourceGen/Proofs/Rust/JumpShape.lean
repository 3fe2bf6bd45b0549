import Mathlib.Data.List.Basic
import SourceGen.Proofs.Mark
import SourceGen.Rust.Body

/-!
# Shapes of jumps

The order of the jumps of a tree and what stands around each of them, with nothing else of the tree.
A `continue` in a labelled body is written as a jump out of that body. Everything that can stand
between the two is known from the shape: a closure and the body of another loop are written without
the label, the step of a loop is written with it.

## Main definitions

* `JumpShape`: the jumps of a tree.
* `JumpShape.strays`: a jump out of a labelled body stands in a loop in that body.
* `Expr.shape`, `Stmt.allShape`: the shapes of expressions and statements.
* `Rust.Shows`: the marks of code are those of a shape.
* `Rust.Caught`: a jump is made in the labelled body of a loop.

## Main results

* `Rust.Shows.caught`: a jump to a label that is not around the code is caught by the code.
* `Rust.Shows.strays_iff`: when a caught jump has another loop around it.
-/

namespace SourceGen

/-- The jumps of a tree, with what is written around them. -/
inductive JumpShape where
  | empty
  | append (s t : JumpShape)
  /-- A `break`. -/
  | leave
  /-- A `continue`. -/
  | next
  /-- A closure or a function. -/
  | closed (s : JumpShape)
  /-- The body of a loop. -/
  | loop (s : JumpShape)
  /-- The labelled body of a loop. -/
  | labelled (s : JumpShape)
  /-- The step of a loop, behind its body. -/
  | step (s : JumpShape)
  deriving DecidableEq, Repr

namespace JumpShape

instance : Append JumpShape :=
  ⟨append⟩

/-- A `continue` with no loop around it. -/
def nexts : JumpShape → Bool
  | .next => true
  | .append s t => s.nexts || t.nexts
  | _ => false

/-- A `continue` in the step of a loop, and in no other part of a loop. -/
def stepNexts : JumpShape → Bool
  | .append s t => s.stepNexts || t.stepNexts
  | .step s => s.nexts || s.stepNexts
  | _ => false

/-- A labelled body has a `continue` in the step of a loop in it. -/
def strays : JumpShape → Bool
  | .append s t => s.strays || t.strays
  | .labelled s => s.stepNexts || s.strays
  | .closed s | .loop s | .step s => s.strays
  | .empty | .leave | .next => false

variable (s t : JumpShape)

@[simp] theorem nexts_append : (s ++ t).nexts = (s.nexts || t.nexts) := rfl

@[simp] theorem stepNexts_append : (s ++ t).stepNexts = (s.stepNexts || t.stepNexts) := rfl

@[simp] theorem strays_append : (s ++ t).strays = (s.strays || t.strays) := rfl

end JumpShape

/-! ### Shapes of trees -/

mutual

/-- The shape of an expression. -/
def Expr.shape : Expr → JumpShape
  | .literal _ | .ident _ | .path _ | .this => .empty
  | .member object _ => object.shape
  | .index object i => object.shape ++ i.shape
  | .binary left _ right => left.shape ++ right.shape
  | .unary _ operand _ => operand.shape
  | .assign target _ value => target.shape ++ value.shape
  | .call callee args => callee.shape ++ Expr.allShape args
  | .construct _ args => Expr.allShape args
  | .array elements _ => Expr.allShape elements
  | .lambda _ (.expr value) => .closed value.shape
  | .lambda _ (.block block) => .closed (Stmt.allShape block)
  | .range start stop _ => Expr.optionShape start ++ Expr.optionShape stop
  | .block block => Stmt.valueShape block
  | .matchOn scrutinee arms => scrutinee.shape ++ MatchArm.valueShape arms

/-- The shape of expressions. -/
def Expr.allShape : List Expr → JumpShape
  | [] => .empty
  | e :: es => e.shape ++ Expr.allShape es

/-- The shape of an optional expression. -/
def Expr.optionShape : Option Expr → JumpShape
  | none => .empty
  | some e => e.shape

/-- The shape of a block with a value; the last expression is never a statement. -/
def Stmt.valueShape : List Stmt → JumpShape
  | [] => .empty
  | [.expr value] => value.shape
  | s :: ss => s.shape ++ Stmt.valueShape ss

/-- The shape of the arms of a match expression, where blocks are closures. -/
def MatchArm.valueShape : List MatchArm → JumpShape
  | [] => .empty
  | ⟨pattern, .expr value⟩ :: arms => pattern.shape ++ value.shape ++ MatchArm.valueShape arms
  | ⟨pattern, .block block⟩ :: arms =>
    pattern.shape ++ .closed (Stmt.allShape block) ++ MatchArm.valueShape arms

/-- The shape of a pattern. -/
def Pattern.shape : Pattern → JumpShape
  | .default => .empty
  | .values values => Expr.allShape values

/-- The shape of a statement. The body of a counted loop is labelled if the loop has a step and the
search finds a `continue` in the body. -/
def Stmt.shape : Stmt → JumpShape
  | .binding ⟨_, _, value, _⟩ => Expr.optionShape value
  | .ifThen condition thenBranch elseBranch =>
    condition.shape ++ Stmt.allShape thenBranch ++ Stmt.optionShape elseBranch
  | .whileLoop condition body => condition.shape ++ .loop (Stmt.allShape body)
  | .forLoop start condition step body =>
    Stmt.startShape start ++ Expr.optionShape condition ++
      (if step.isSome && Stmt.anyContinues body then .labelled (Stmt.allShape body)
        else .loop (Stmt.allShape body)) ++
      .step (Expr.optionShape step)
  | .forEach _ _ iterable body => iterable.shape ++ .loop (Stmt.allShape body)
  | .ret value => Expr.optionShape value
  | .breakLoop => .leave
  | .continueLoop => .next
  | .matchOn scrutinee arms => scrutinee.shape ++ MatchArm.allShape arms
  | .expr (.matchOn scrutinee arms) => scrutinee.shape ++ MatchArm.allShape arms
  | .expr value => value.shape
  | .switchOn subject cases => subject.shape ++ SwitchCase.allShape cases
  | .functionDecl _ decl => decl.shape .empty
  | _ => .empty

/-- The shape of statements. -/
def Stmt.allShape : List Stmt → JumpShape
  | [] => .empty
  | s :: ss => s.shape ++ Stmt.allShape ss

/-- The shape of an optional block. -/
def Stmt.optionShape : Option (List Stmt) → JumpShape
  | none => .empty
  | some block => Stmt.allShape block

/-- The shape of the first clause of a counted loop. -/
def Stmt.startShape : Option Stmt → JumpShape
  | some (.binding ⟨_, _, value, _⟩) => Expr.optionShape value
  | some (.expr value) => value.shape
  | _ => .empty

/-- The shape of the arms of a match statement. -/
def MatchArm.allShape : List MatchArm → JumpShape
  | [] => .empty
  | ⟨pattern, .expr value⟩ :: arms => pattern.shape ++ value.shape ++ MatchArm.allShape arms
  | ⟨pattern, .block block⟩ :: arms =>
    pattern.shape ++ Stmt.allShape block ++ MatchArm.allShape arms

/-- The shape of the cases of a switch. -/
def SwitchCase.allShape : List SwitchCase → JumpShape
  | [] => .empty
  | ⟨pattern, body⟩ :: cases => pattern.shape ++ Stmt.allShape body ++ SwitchCase.allShape cases

/-- The shape of attributes, not counting markers. -/
def Attribute.allShape : List Attribute → JumpShape
  | [] => .empty
  | ⟨name, args⟩ :: attributes =>
    (if (Marker.ofName? name).isSome then .empty else .closed (Expr.allShape args)) ++
      Attribute.allShape attributes

/-- The shape of a function with something ahead of its own body. Marked functions and functions
with a qualified name are not written. -/
def Function.shape (before : JumpShape) : Function → JumpShape
  | ⟨name, _, _, _, _, attributes, body, _, _⟩ =>
    if (Marker.of? attributes).isSome || Text.hasChar '.' name then .empty
    else Attribute.allShape attributes ++ .closed (Stmt.bodyShape before body)

/-- The shape of the body of a function. -/
def Stmt.bodyShape (before : JumpShape) : Option (List Stmt) → JumpShape
  | none => .empty
  | some body => before ++ Stmt.allShape body

end

/-- The body of a function can be around a jump, or the labelled body of a loop; anything else
leaves the label of the jump in scope and is not what the label names. -/
def Enclosure.isOpen : Enclosure → Bool
  | .loop _ | .switch => true
  | .labelled _ | .body => false

/-- Walls put around walls are one list of walls. -/
theorem Mark.map_under_under {ms : List Mark} {walls walls' : Path} :
    (ms.map (Mark.under walls)).map (Mark.under walls') =
      ms.map (Mark.under (walls ++ walls')) := by
  rw [List.map_map]
  refine List.map_congr_left fun m _ => ?_
  cases m <;> simp [Mark.under]

namespace Rust

/-! ### Marks of a shape -/

/-- In the body of a loop with this label, code with these marks has the jumps of the shape. -/
inductive Shows : Option Nat → JumpShape → List Mark → Prop
  | empty {label} : Shows label .empty []
  | append {label s t ms ms'} :
      Shows label s ms → Shows label t ms' → Shows label (s ++ t) (ms ++ ms')
  /-- Code that is written twice. -/
  | double {label s ms} : Shows label s ms → Shows label s (ms ++ ms)
  | switch {label s ms} : Shows label s ms → Shows label s (ms.map (Mark.under [.switch]))
  | leave {label} : Shows label .leave [.jump [] .leaveInnermost]
  | next {label} : Shows label .next [.jump [] (nextRound label)]
  | closed {label s ms} : Shows none s ms → Shows label (.closed s) (ms.map (Mark.under [.body]))
  | loop {label s ms} :
      Shows none s ms → Shows label (.loop s) (ms.map (Mark.under [.loop none]))
  | labelled {label s ms n} :
      Shows (some n) s ms →
        Shows label (.labelled s) (ms.map (Mark.under [.labelled n, .loop none]))
  /-- The label of the loop itself is not in scope in its step, the label around the loop is. -/
  | step {label s ms} :
      Shows label s ms → Shows label (.step s) (ms.map (Mark.under [.loop none]))

/-! ### Jumps out of labelled bodies -/

/-- Only loops and switches are around the jump. -/
def Free (path : Path) : Prop :=
  ∀ e ∈ path, e.isOpen = true

/-- A loop is around the jump. -/
def InLoop (path : Path) : Prop :=
  ∃ l, .loop l ∈ path

/-- The jump out of the labelled body with this number is made in that body, which is the body of a
loop, with only loops and switches in between. -/
def Caught (n : Nat) (path : Path) : Prop :=
  ∃ inner outer, path = inner ++ .labelled n :: .loop none :: outer ∧ Free inner

/-- The jump out of a labelled body stands in another loop in that body. -/
def Stray (n : Nat) (path : Path) : Prop :=
  ∃ inner outer, path = inner ++ .labelled n :: .loop none :: outer ∧ Free inner ∧ InLoop inner

/-- The marks have a jump out of the labelled body with this number, whose path is as `P` says. -/
def Makes (n : Nat) (P : Path → Prop) (ms : List Mark) : Prop :=
  ∃ path, .jump path (.leaveBody n) ∈ ms ∧ P path

section Paths

variable {path walls inner outer : Path} {e : Enclosure} {n m : Nat}

@[simp] theorem free_nil : Free [] := by
  simp [Free]

@[simp] theorem free_cons : Free (e :: path) ↔ e.isOpen = true ∧ Free path := by
  simp only [Free, List.forall_mem_cons]

/-- A path is free when nothing on it stops a jump. -/
@[simp] theorem free_append : Free (path ++ walls) ↔ Free path ∧ Free walls := by
  simp only [Free, List.mem_append, or_imp, forall_and]

@[simp] theorem not_inLoop_nil : ¬ InLoop [] := by
  simp [InLoop]

@[simp] theorem inLoop_cons : InLoop (e :: path) ↔ (∃ l, e = .loop l) ∨ InLoop path := by
  simp only [InLoop, List.mem_cons, exists_or, eq_comm]

/-- A path is in a loop when one of its parts is. -/
@[simp] theorem inLoop_append : InLoop (path ++ walls) ↔ InLoop path ∨ InLoop walls := by
  simp only [InLoop, List.mem_append, exists_or]

/-- Walls further out do not change what has caught a jump. -/
theorem Caught.append (h : Caught n path) (walls : Path) : Caught n (path ++ walls) := by
  obtain ⟨inner, outer, rfl, hinner⟩ := h
  exact ⟨inner, outer ++ walls, by simp, hinner⟩

/-- A jump that is caught is not free. -/
theorem Caught.not_free (h : Caught n path) : ¬ Free path := by
  obtain ⟨inner, outer, rfl, -⟩ := h
  intro hfree
  simp [Enclosure.isOpen] at hfree

/-- What is around a jump tells the labelled body that is the first thing not open. -/
theorem labelled_unique {inner' outer' : Path} (h : Free inner) (h' : Free inner')
    (heq : inner ++ .labelled n :: outer = inner' ++ .labelled m :: outer') :
    inner = inner' ∧ n = m ∧ outer = outer' := by
  have hinner := congrArg (List.takeWhile Enclosure.isOpen) heq
  have houter := congrArg (List.dropWhile Enclosure.isOpen) heq
  rw [List.takeWhile_append_of_pos h, List.takeWhile_append_of_pos h'] at hinner
  rw [List.dropWhile_append_of_pos h, List.dropWhile_append_of_pos h'] at houter
  simpa [Enclosure.isOpen, and_assoc] using And.intro hinner houter

/-- A stray jump is caught, though not by the innermost loop. -/
theorem Stray.caught (h : Stray n path) : Caught n path := by
  obtain ⟨inner, outer, hpath, hinner, -⟩ := h
  exact ⟨inner, outer, hpath, hinner⟩

/-- More around a caught jump changes nothing about where it is caught. -/
theorem Caught.stray_append (h : Caught n path) (walls : Path) :
    Stray n (path ++ walls) ↔ Stray n path := by
  obtain ⟨inner, outer, rfl, hinner⟩ := h
  have hiff : ∀ outer, Stray n (inner ++ .labelled n :: .loop none :: outer) ↔ InLoop inner := by
    intro outer
    constructor
    · rintro ⟨inner', outer', heq, hinner', hloop⟩
      obtain ⟨rfl, -, -⟩ := labelled_unique hinner hinner' heq
      exact hloop
    · exact fun hloop => ⟨inner, outer, rfl, hinner, hloop⟩
  rw [List.append_assoc, List.cons_append, List.cons_append, hiff, hiff]

/-- A jump with nothing but loops and switches around it is not caught. -/
theorem Free.not_stray (h : Free path) : ¬ Stray n path := by
  rintro ⟨inner, outer, rfl, hinner, -⟩
  exact Caught.not_free ⟨inner, outer, rfl, hinner⟩ h

/-- A free jump strays at a labelled body exactly when a loop lies between. -/
theorem Free.stray_labelled (h : Free path) :
    Stray n (path ++ [.labelled n, .loop none]) ↔ InLoop path := by
  constructor
  · rintro ⟨inner, outer, heq, hinner, hloop⟩
    obtain ⟨rfl, -, -⟩ := labelled_unique h hinner heq
    exact hloop
  · exact fun hloop => ⟨path, [], rfl, h, hloop⟩

end Paths

section Marks

variable {n : Nat} {P Q : Path → Prop} {ms ms' : List Mark} {walls : Path}

theorem not_makes_nil : ¬ Makes n P [] := by
  simp [Makes]

theorem not_makes_false : ¬ Makes n (fun _ => False) ms := by
  simp [Makes]

/-- Two parts make a jump when one of them does. -/
theorem makes_append : Makes n P (ms ++ ms') ↔ Makes n P ms ∨ Makes n P ms' := by
  simp only [Makes, List.mem_append, or_and_right, exists_or]

/-- A jump on either kind of path is made on one of them. -/
theorem makes_or : Makes n (fun path => P path ∨ Q path) ms ↔ Makes n P ms ∨ Makes n Q ms := by
  simp only [Makes, and_or_left, exists_or]

/-- A jump is made behind walls when it is made inside with the walls added. -/
theorem makes_under :
    Makes n P (ms.map (Mark.under walls)) ↔ Makes n (fun path => P (path ++ walls)) ms := by
  simp only [Makes, Mark.jump_mem_under]
  constructor
  · rintro ⟨_, ⟨path, hmem, rfl⟩, hP⟩
    exact ⟨path, hmem, hP⟩
  · rintro ⟨path, hmem, hP⟩
    exact ⟨_, ⟨path, hmem, rfl⟩, hP⟩

/-- Only the paths that occur matter. -/
theorem makes_congr (h : ∀ path, .jump path (.leaveBody n) ∈ ms → (P path ↔ Q path)) :
    Makes n P ms ↔ Makes n Q ms :=
  exists_congr fun path => and_congr_right fun hmem => h path hmem

end Marks

namespace Shows

variable {label : Option Nat} {s : JumpShape} {ms : List Mark} {n : Nat}

/-- An empty shape in front shows nothing. -/
theorem behindEmpty (h : Shows label s ms) : Shows label (.empty ++ s) ms :=
  .append .empty h

/-- An empty shape behind shows nothing. -/
theorem beforeEmpty (h : Shows label s ms) : Shows label (s ++ .empty) ms := by
  simpa using h.append .empty

/-- A jump out of a labelled body is made in that body, if not in the one around the code. -/
theorem caught (h : Shows label s ms) {path : Path} (hmem : .jump path (.leaveBody n) ∈ ms) :
    (label = some n ∧ Free path) ∨ Caught n path := by
  induction h generalizing path with
  | empty => simp at hmem
  | append _ _ ih ih' =>
    rcases List.mem_append.mp hmem with hmem | hmem
    · exact ih hmem
    · exact ih' hmem
  | double _ ih => exact ih (by simpa using hmem)
  | switch _ ih =>
    obtain ⟨p, hp, rfl⟩ := Mark.jump_mem_under.mp hmem
    refine (ih hp).imp (fun ⟨hlabel, hfree⟩ => ⟨hlabel, ?_⟩) (·.append _)
    exact by simpa [Enclosure.isOpen] using hfree
  | leave => simp at hmem
  | @next label =>
    obtain ⟨rfl, hjump⟩ := by simpa using hmem
    refine .inl ⟨?_, free_nil⟩
    cases label with
    | none => simp [nextRound] at hjump
    | some m => simpa [nextRound, eq_comm] using hjump
  | closed _ ih | loop _ ih =>
    -- Without a label around them, all jumps are caught inside.
    obtain ⟨p, hp, rfl⟩ := Mark.jump_mem_under.mp hmem
    exact .inr (((ih hp).resolve_left (by simp)).append _)
  | labelled _ ih =>
    obtain ⟨p, hp, rfl⟩ := Mark.jump_mem_under.mp hmem
    rcases ih hp with ⟨hlabel, hfree⟩ | hcaught
    · obtain rfl := Option.some.inj hlabel
      exact .inr ⟨p, [], rfl, hfree⟩
    · exact .inr (hcaught.append _)
  | step _ ih =>
    obtain ⟨p, hp, rfl⟩ := Mark.jump_mem_under.mp hmem
    refine (ih hp).imp (fun ⟨hlabel, hfree⟩ => ⟨hlabel, ?_⟩) (·.append _)
    exact by simpa [Enclosure.isOpen] using hfree

/-- Without a label around the code, every jump out of a labelled body is made in it. -/
theorem caught_of_none (h : Shows none s ms) {path : Path}
    (hmem : .jump path (.leaveBody n) ∈ ms) : Caught n path :=
  (h.caught hmem).resolve_left (by simp)

/-- The jumps out of the body around the code with no loop in between. -/
theorem nexts_iff (h : Shows (some n) s ms) :
    Makes n (fun path => Free path ∧ ¬ InLoop path) ms ↔ s.nexts = true := by
  generalize hlabel : some n = label at h
  induction h with
  | empty => simp [not_makes_nil, JumpShape.nexts]
  | append _ _ ih ih' => simp [makes_append, ih hlabel, ih' hlabel]
  | double _ ih => simp [makes_append, ih hlabel]
  | switch _ ih => simpa [makes_under, Enclosure.isOpen] using ih hlabel
  | leave => simp [Makes, JumpShape.nexts]
  | next => simp [← hlabel, Makes, nextRound, JumpShape.nexts]
  | closed | labelled | loop | step =>
    simp [makes_under, not_makes_false, Enclosure.isOpen, JumpShape.nexts]

/-- The jumps out of the body around the code that stand in a loop of the code: only the step of a
loop is written with the label. -/
theorem stepNexts_iff (h : Shows (some n) s ms) :
    Makes n (fun path => Free path ∧ InLoop path) ms ↔ s.stepNexts = true := by
  generalize hlabel : some n = label at h
  induction h with
  | empty => simp [not_makes_nil, JumpShape.stepNexts]
  | append _ _ ih ih' => simp [makes_append, ih hlabel, ih' hlabel]
  | double _ ih => simp [makes_append, ih hlabel]
  | switch _ ih => simpa [makes_under, Enclosure.isOpen] using ih hlabel
  | leave => simp [Makes, JumpShape.stepNexts]
  | next => simp [Makes, JumpShape.stepNexts]
  | closed | labelled =>
    simp [makes_under, not_makes_false, Enclosure.isOpen, JumpShape.stepNexts]
  | loop hs =>
    refine iff_of_false ?_ (by simp [JumpShape.stepNexts])
    rw [makes_under]
    rintro ⟨path, hmem, hfree, -⟩
    exact (hs.caught_of_none hmem).not_free (free_append.mp hfree).1
  | step hs ih =>
    subst hlabel
    rw [makes_under, JumpShape.stepNexts, Bool.or_eq_true, ← hs.nexts_iff, ← ih rfl, ← makes_or]
    refine makes_congr fun path _ => ?_
    simp [Enclosure.isOpen, ← and_or_left, em']

/-- What is around a part without a label, or a loop or a switch around any part, changes nothing
about where jumps are caught. -/
theorem makes_stray_under (h : Shows label s ms) {walls : Path}
    (hwalls : label = none ∨ Free walls) :
    Makes n (Stray n) (ms.map (Mark.under walls)) ↔ Makes n (Stray n) ms := by
  rw [makes_under]
  refine makes_congr fun path hmem => ?_
  rcases h.caught hmem with ⟨hlabel, hfree⟩ | hcaught
  · have hwalls : Free walls := hwalls.resolve_left (by simp [hlabel])
    exact iff_of_false (free_append.mpr ⟨hfree, hwalls⟩).not_stray hfree.not_stray
  · exact hcaught.stray_append walls

/-- A jump out of a labelled body has another loop around it exactly if it stands in the step of a
loop in that body. -/
theorem strays_iff (h : Shows label s ms) :
    (∃ n, Makes n (Stray n) ms) ↔ s.strays = true := by
  induction h with
  | empty => simp [not_makes_nil, JumpShape.strays]
  | append _ _ ih ih' => simp [makes_append, exists_or, ih, ih']
  | double _ ih => simpa [makes_append] using ih
  | leave => simp [Makes, JumpShape.strays]
  | next => simp [Makes, free_nil.not_stray, JumpShape.strays]
  | switch hs ih =>
    have hfree : Free [.switch] := by simp [Enclosure.isOpen]
    simpa only [hs.makes_stray_under (.inr hfree)] using ih
  | step hs ih =>
    simpa only [hs.makes_stray_under (.inr (show Free [.loop none] by simp [Enclosure.isOpen])),
      JumpShape.strays] using ih
  | closed hs ih | loop hs ih =>
    simpa [hs.makes_stray_under (.inl rfl), JumpShape.strays] using ih
  | @labelled _ s ms n hs ih =>
    -- The jumps of this body are those with its number that are not caught inside.
    rw [JumpShape.strays, Bool.or_eq_true, ← hs.stepNexts_iff, ← ih]
    constructor
    · rintro ⟨m, hm⟩
      obtain ⟨path, hmem, hstray⟩ := makes_under.mp hm
      rcases hs.caught hmem with ⟨hlabel, hfree⟩ | hcaught
      · obtain rfl := Option.some.inj hlabel
        exact .inl ⟨path, hmem, hfree, hfree.stray_labelled.mp hstray⟩
      · exact .inr ⟨m, path, hmem, (hcaught.stray_append _).mp hstray⟩
    · rintro (⟨path, hmem, hfree, hloop⟩ | ⟨m, path, hmem, hstray⟩)
      · exact ⟨n, makes_under.mpr ⟨path, hmem, hfree.stray_labelled.mpr hloop⟩⟩
      · exact ⟨m, makes_under.mpr ⟨path, hmem, (hstray.caught.stray_append _).mpr hstray⟩⟩

end Shows

end Rust

end SourceGen
