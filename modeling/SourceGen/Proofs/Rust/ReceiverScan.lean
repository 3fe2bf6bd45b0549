import SourceGen.Proofs.Rust.TraitShapes

/-!
# Which changes decide a receiver

A method takes its object exclusively when a scan of its body finds a change of the object. The scan
does not go everywhere: it looks into the condition of an `if` but not into that of a loop, into the
arguments of a call but not into its callee, and into no operand, subject, closure or block at all.
Here all expressions of a body are listed together with the way from the body to each of them, and
the scan is characterized by the ways that it follows.

## Main definitions

* `Site`, `Site.isScanned`: where an expression stands in what is around it.
* `Stmt.occurrences`, `Expr.occurrences`: the expressions in a statement or an expression.
* `Expr.changesThis`: an assignment or a step whose place is inside `this`.

## Main results

* `Stmt.anyAssignsThis_eq_any_isFound`: what the scan of a body finds.
* `Rust.receiverOf_eq_exclusive_iff_found`: when a method takes its object exclusively.
-/

namespace SourceGen

/-- Where an expression stands in the statement, expression or declaration around it. -/
inductive Site where
  /-- A statement of its own, the first value of a variable, the value that is returned. -/
  | statement | initialValue | returned
  /-- The parts of an `if`. -/
  | condition | branch
  /-- The parts of a loop. -/
  | loopStart | loopCondition | loopStep | iterable | loopBody
  /-- The parts of a match or a switch. -/
  | subject | pattern | result
  /-- The parts of an assignment. -/
  | target | assigned
  /-- The parts of a call. -/
  | callee | argument
  /-- A part of an operation, an access, a construction, an array or a range. -/
  | operand
  /-- Inside a closure, a block or a match that stands for a value. -/
  | closure | block | choice
  /-- Inside a declaration. -/
  | declaration
  deriving DecidableEq, Repr

/-- The scan goes on to this site. -/
def Site.isScanned : Site → Bool
  | .statement | .initialValue | .returned | .condition | .branch | .loopStep | .loopBody | .result
  | .assigned | .argument => true
  | _ => false

/-- The expression assigns to a place inside `this`, or steps it up or down. -/
def Expr.changesThis : Expr → Bool
  | .assign target _ _ => target.rootedInThis
  | .unary op operand _ => (op == .plusPlus || op == .minusMinus) && operand.rootedInThis
  | _ => false

/-- The expression calls a method of something inside `this`. -/
def Expr.callsPart : Expr → Bool
  | .call callee _ => callee.callsInsideThis
  | _ => false

/-- An expression inside a statement or another expression. -/
structure Occurrence where
  /-- The sites on the way to the expression, the outermost one first. -/
  way : List Site
  expr : Expr

namespace Occurrence

/-- The scan gets to the expression. -/
def isScanned (o : Occurrence) : Bool :=
  o.way.all Site.isScanned

/-- The scan gets to the expression and takes it for a change of the object. -/
def isFound (o : Occurrence) : Bool :=
  o.isScanned && (o.expr.changesThis || o.expr.callsPart)

/-- What occurs at a site also occurs in what is around the site. -/
def under (site : Site) (os : List Occurrence) : List Occurrence :=
  os.map fun o => { o with way := site :: o.way }

theorem isFound_self (e : Expr) : isFound ⟨[], e⟩ = (e.changesThis || e.callsPart) :=
  rfl

@[simp] theorem any_isFound_under (site : Site) (os : List Occurrence) :
    (under site os).any isFound = (site.isScanned && os.any isFound) := by
  rw [under, List.any_map]
  induction os with
  | nil => simp
  | cons o os ih =>
    rw [List.any_cons, ih, List.any_cons, Bool.and_or_distrib_left]
    congr 1
    simp only [Function.comp_apply, isFound, isScanned, List.all_cons, Bool.and_assoc]

end Occurrence

open Occurrence (under)

mutual

/-- The expressions in a statement. Those inside functions that are declared there are left out. -/
def Stmt.occurrences : Stmt → List Occurrence
  | .expr value => under .statement value.occurrences
  | .binding ⟨_, _, value, _⟩ => under .initialValue (Expr.optionOccurrences value)
  | .ret value => under .returned (Expr.optionOccurrences value)
  | .ifThen condition thenBranch none =>
    under .condition condition.occurrences ++ under .branch (Stmt.allOccurrences thenBranch)
  | .ifThen condition thenBranch (some elseBranch) =>
    under .condition condition.occurrences ++ under .branch (Stmt.allOccurrences thenBranch) ++
      under .branch (Stmt.allOccurrences elseBranch)
  | .whileLoop condition body =>
    under .loopCondition condition.occurrences ++ under .loopBody (Stmt.allOccurrences body)
  | .forLoop none condition step body =>
    under .loopCondition (Expr.optionOccurrences condition) ++
      under .loopStep (Expr.optionOccurrences step) ++ under .loopBody (Stmt.allOccurrences body)
  | .forLoop (some start) condition step body =>
    under .loopStart start.occurrences ++ under .loopCondition (Expr.optionOccurrences condition) ++
      under .loopStep (Expr.optionOccurrences step) ++ under .loopBody (Stmt.allOccurrences body)
  | .forEach _ _ iterable body =>
    under .iterable iterable.occurrences ++ under .loopBody (Stmt.allOccurrences body)
  | .matchOn scrutinee arms => under .subject scrutinee.occurrences ++ MatchArm.allOccurrences arms
  | .switchOn subject cases => under .subject subject.occurrences ++ SwitchCase.allOccurrences cases
  | .includeDecl _ stmts => under .declaration (Stmt.allOccurrences stmts)
  | .namespaceDecl _ members => under .declaration (Stmt.allOccurrences members)
  | .typeDecl _ ⟨_, _, attributes, _, _, _, members⟩ =>
    under .declaration (Attribute.allOccurrences attributes ++ Stmt.allOccurrences members)
  | .moduleDecl ⟨_, _, attributes, members⟩ =>
    under .declaration (Attribute.allOccurrences attributes ++ Stmt.allOccurrences members)
  | .enumDecl ⟨_, _, attributes, variants⟩ =>
    under .declaration (Attribute.allOccurrences attributes ++ EnumVariant.allOccurrences variants)
  | .fieldDecl ⟨_, _, _, attributes, initializer⟩ =>
    under .declaration
      (Attribute.allOccurrences attributes ++ Expr.optionOccurrences initializer)
  | .propertyDecl ⟨_, _, _, attributes, accessors, initializer⟩ =>
    under .declaration (Attribute.allOccurrences attributes ++
      Accessor.allOccurrences accessors ++ Expr.optionOccurrences initializer)
  | .functionDecl _ _ | .importDecl _ | .aliasDecl _ | .breakLoop | .continueLoop | .raw _ => []

/-- The expressions in a block. -/
def Stmt.allOccurrences : List Stmt → List Occurrence
  | [] => []
  | s :: ss => s.occurrences ++ Stmt.allOccurrences ss

/-- The expression itself and those inside it. -/
def Expr.occurrences : Expr → List Occurrence
  | .assign target op value =>
    ⟨[], .assign target op value⟩ ::
      (under .target target.occurrences ++ under .assigned value.occurrences)
  | .call callee args =>
    ⟨[], .call callee args⟩ ::
      (under .callee callee.occurrences ++ under .argument (Expr.allOccurrences args))
  | .unary op operand trailing =>
    ⟨[], .unary op operand trailing⟩ :: under .operand operand.occurrences
  | .binary left op right =>
    ⟨[], .binary left op right⟩ :: under .operand (left.occurrences ++ right.occurrences)
  | .member object name => ⟨[], .member object name⟩ :: under .operand object.occurrences
  | .index object position =>
    ⟨[], .index object position⟩ :: under .operand (object.occurrences ++ position.occurrences)
  | .construct type args => ⟨[], .construct type args⟩ :: under .operand (Expr.allOccurrences args)
  | .array elements type =>
    ⟨[], .array elements type⟩ :: under .operand (Expr.allOccurrences elements)
  | .range start stop inclusive =>
    ⟨[], .range start stop inclusive⟩ ::
      under .operand (Expr.optionOccurrences start ++ Expr.optionOccurrences stop)
  | .lambda params (.expr value) =>
    ⟨[], .lambda params (.expr value)⟩ ::
      under .closure (Parameter.allOccurrences params ++ value.occurrences)
  | .lambda params (.block stmts) =>
    ⟨[], .lambda params (.block stmts)⟩ ::
      under .closure (Parameter.allOccurrences params ++ Stmt.allOccurrences stmts)
  | .block stmts => ⟨[], .block stmts⟩ :: under .block (Stmt.allOccurrences stmts)
  | .matchOn scrutinee arms =>
    ⟨[], .matchOn scrutinee arms⟩ ::
      under .choice (scrutinee.occurrences ++ MatchArm.allOccurrences arms)
  | e => [⟨[], e⟩]

/-- The expressions in a list of expressions. -/
def Expr.allOccurrences : List Expr → List Occurrence
  | [] => []
  | e :: es => e.occurrences ++ Expr.allOccurrences es

/-- The expressions in one that may be missing. -/
def Expr.optionOccurrences : Option Expr → List Occurrence
  | none => []
  | some e => e.occurrences

/-- The expressions in the values of a pattern. -/
def Pattern.occurrences : Pattern → List Occurrence
  | .default => []
  | .values values => under .pattern (Expr.allOccurrences values)

/-- The expressions in the arms of a match. -/
def MatchArm.allOccurrences : List MatchArm → List Occurrence
  | [] => []
  | ⟨pattern, .expr value⟩ :: arms =>
    pattern.occurrences ++ under .result value.occurrences ++ MatchArm.allOccurrences arms
  | ⟨pattern, .block stmts⟩ :: arms =>
    pattern.occurrences ++ under .result (Stmt.allOccurrences stmts) ++
      MatchArm.allOccurrences arms

/-- The expressions in the cases of a switch. -/
def SwitchCase.allOccurrences : List SwitchCase → List Occurrence
  | [] => []
  | ⟨pattern, body⟩ :: cases =>
    pattern.occurrences ++ under .result (Stmt.allOccurrences body) ++
      SwitchCase.allOccurrences cases

/-- The expressions in the arguments of attributes. -/
def Attribute.allOccurrences : List Attribute → List Occurrence
  | [] => []
  | ⟨_, args⟩ :: attributes => Expr.allOccurrences args ++ Attribute.allOccurrences attributes

/-- The expressions in the defaults of parameters. -/
def Parameter.allOccurrences : List Parameter → List Occurrence
  | [] => []
  | ⟨_, _, default⟩ :: params => Expr.optionOccurrences default ++ Parameter.allOccurrences params

/-- The expressions in the variants of an enum. -/
def EnumVariant.allOccurrences : List EnumVariant → List Occurrence
  | [] => []
  | ⟨_, value⟩ :: variants => Expr.optionOccurrences value ++ EnumVariant.allOccurrences variants

/-- The expressions in the bodies of accessors. -/
def Accessor.allOccurrences : List Accessor → List Occurrence
  | [] => []
  | ⟨_, _, none⟩ :: accessors => Accessor.allOccurrences accessors
  | ⟨_, _, some body⟩ :: accessors =>
    Stmt.allOccurrences body ++ Accessor.allOccurrences accessors

end

/-- The expressions in the body of a function. -/
def Function.occurrences (f : Function) : List Occurrence :=
  Stmt.allOccurrences (f.body.getD [])

/-! ### What the scan finds -/

section

open Occurrence

theorem Pattern.any_isFound (pattern : Pattern) : pattern.occurrences.any isFound = false := by
  cases pattern with
  | default => rfl
  | values values =>
    change List.any (under _ _) isFound = _
    rw [any_isFound_under]
    rfl

-- Each list of occurrences is taken apart as its definition puts it together; what is left says,
-- part by part, what the scan does by definition.

mutual

theorem Stmt.assignsThis_eq_any_isFound : ∀ s : Stmt, s.assignsThis = s.occurrences.any isFound
  | .expr value => by
    change _ = List.any (under _ _) isFound
    rw [any_isFound_under, ← Expr.assignsThis_eq_any_isFound value]
    rfl
  | .binding ⟨_, _, none, _⟩ | .ret none => by
    change _ = List.any (under _ _) isFound
    rw [any_isFound_under]
    rfl
  | .binding ⟨_, _, some value, _⟩ | .ret (some value) => by
    change _ = List.any (under _ value.occurrences) isFound
    rw [any_isFound_under, ← Expr.assignsThis_eq_any_isFound value]
    rfl
  | .ifThen condition thenBranch none => by
    change _ = List.any (_ ++ _) isFound
    rw [List.any_append, any_isFound_under, any_isFound_under,
      ← Expr.assignsThis_eq_any_isFound condition, ← Stmt.anyAssignsThis_eq_any_isFound thenBranch]
    rfl
  | .ifThen condition thenBranch (some elseBranch) => by
    change _ = List.any (_ ++ _ ++ _) isFound
    rw [List.any_append, List.any_append, any_isFound_under, any_isFound_under, any_isFound_under,
      ← Expr.assignsThis_eq_any_isFound condition, ← Stmt.anyAssignsThis_eq_any_isFound thenBranch,
      ← Stmt.anyAssignsThis_eq_any_isFound elseBranch]
    rfl
  | .whileLoop _ body | .forEach _ _ _ body => by
    change _ = List.any (_ ++ _) isFound
    rw [List.any_append, any_isFound_under, any_isFound_under,
      ← Stmt.anyAssignsThis_eq_any_isFound body]
    rfl
  | .forLoop none _ none body => by
    change _ = List.any (_ ++ _ ++ _) isFound
    simp only [List.any_append, any_isFound_under, ← Stmt.anyAssignsThis_eq_any_isFound body]
    rfl
  | .forLoop (some _) _ none body => by
    change _ = List.any (_ ++ _ ++ _ ++ _) isFound
    simp only [List.any_append, any_isFound_under, ← Stmt.anyAssignsThis_eq_any_isFound body]
    rfl
  | .forLoop none _ (some step) body => by
    change _ = List.any (_ ++ under _ step.occurrences ++ _) isFound
    simp only [List.any_append, any_isFound_under, ← Expr.assignsThis_eq_any_isFound step,
      ← Stmt.anyAssignsThis_eq_any_isFound body]
    rfl
  | .forLoop (some _) _ (some step) body => by
    change _ = List.any (_ ++ _ ++ under _ step.occurrences ++ _) isFound
    simp only [List.any_append, any_isFound_under, ← Expr.assignsThis_eq_any_isFound step,
      ← Stmt.anyAssignsThis_eq_any_isFound body]
    rfl
  | .matchOn _ arms => by
    change _ = List.any (_ ++ _) isFound
    rw [List.any_append, any_isFound_under, ← MatchArm.anyAssignsThis_eq_any_isFound arms]
    rfl
  | .switchOn _ cases => by
    change _ = List.any (_ ++ _) isFound
    rw [List.any_append, any_isFound_under, ← SwitchCase.anyAssignsThis_eq_any_isFound cases]
    rfl
  -- Declarations are not scanned.
  | .includeDecl _ _ | .namespaceDecl _ _ | .typeDecl _ ⟨_, _, _, _, _, _, _⟩
  | .moduleDecl ⟨_, _, _, _⟩ | .enumDecl ⟨_, _, _, _⟩ | .fieldDecl ⟨_, _, _, _, _⟩
  | .propertyDecl ⟨_, _, _, _, _, _⟩ => by
    change _ = List.any (under _ _) isFound
    rw [any_isFound_under]
    rfl
  | .functionDecl _ _ | .importDecl _ | .aliasDecl _ | .breakLoop | .continueLoop | .raw _ => rfl

theorem Stmt.anyAssignsThis_eq_any_isFound :
    ∀ ss : List Stmt, Stmt.anyAssignsThis ss = (Stmt.allOccurrences ss).any isFound
  | [] => rfl
  | s :: ss => by
    change _ = List.any (_ ++ _) isFound
    rw [List.any_append, ← Stmt.assignsThis_eq_any_isFound s,
      ← Stmt.anyAssignsThis_eq_any_isFound ss]
    rfl

theorem MatchArm.anyAssignsThis_eq_any_isFound :
    ∀ arms : List MatchArm,
      MatchArm.anyAssignsThis arms = (MatchArm.allOccurrences arms).any isFound
  | [] => rfl
  | ⟨pattern, .expr value⟩ :: arms => by
    change _ = List.any (_ ++ _ ++ _) isFound
    rw [List.any_append, List.any_append, pattern.any_isFound, any_isFound_under,
      ← Expr.assignsThis_eq_any_isFound value, ← MatchArm.anyAssignsThis_eq_any_isFound arms]
    rfl
  | ⟨pattern, .block stmts⟩ :: arms => by
    change _ = List.any (_ ++ _ ++ _) isFound
    rw [List.any_append, List.any_append, pattern.any_isFound, any_isFound_under,
      ← Stmt.anyAssignsThis_eq_any_isFound stmts, ← MatchArm.anyAssignsThis_eq_any_isFound arms]
    rfl

theorem SwitchCase.anyAssignsThis_eq_any_isFound :
    ∀ cases : List SwitchCase,
      SwitchCase.anyAssignsThis cases = (SwitchCase.allOccurrences cases).any isFound
  | [] => rfl
  | ⟨pattern, body⟩ :: cases => by
    change _ = List.any (_ ++ _ ++ _) isFound
    rw [List.any_append, List.any_append, pattern.any_isFound, any_isFound_under,
      ← Stmt.anyAssignsThis_eq_any_isFound body, ← SwitchCase.anyAssignsThis_eq_any_isFound cases]
    rfl

theorem Expr.assignsThis_eq_any_isFound : ∀ e : Expr, e.assignsThis = e.occurrences.any isFound
  | .assign target op value => by
    change _ = List.any (_ :: (_ ++ _)) isFound
    rw [List.any_cons, isFound_self, List.any_append, any_isFound_under, any_isFound_under,
      ← Expr.assignsThis_eq_any_isFound value]
    simp [Expr.assignsThis, Expr.changesThis, Expr.callsPart, Site.isScanned]
  | .call callee args => by
    change _ = List.any (_ :: (_ ++ _)) isFound
    rw [List.any_cons, isFound_self, List.any_append, any_isFound_under, any_isFound_under,
      ← Expr.anyAssignsThis_eq_any_isFound args]
    rfl
  | .unary op operand trailing => by
    change _ = List.any (_ :: under _ _) isFound
    rw [List.any_cons, isFound_self, any_isFound_under]
    simp [Expr.assignsThis, Expr.changesThis, Expr.callsPart, Site.isScanned]
  -- Nothing inside any other expression is scanned.
  | .lambda _ (.expr _) | .lambda _ (.block _) | .member _ _ | .index _ _ | .binary _ _ _
  | .construct _ _ | .array _ _ | .range _ _ _ | .block _ | .matchOn _ _ => by
    change _ = List.any (_ :: under _ _) isFound
    rw [List.any_cons, isFound_self, any_isFound_under]
    rfl
  | .literal _ | .ident _ | .path _ | .this => rfl

theorem Expr.anyAssignsThis_eq_any_isFound :
    ∀ es : List Expr, Expr.anyAssignsThis es = (Expr.allOccurrences es).any isFound
  | [] => rfl
  | e :: es => by
    change _ = List.any (_ ++ _) isFound
    rw [List.any_append, ← Expr.assignsThis_eq_any_isFound e,
      ← Expr.anyAssignsThis_eq_any_isFound es]
    rfl

end

end

/-- The body of a function changes its object, as far as the scan sees, when the scan finds one of
the expressions in it. -/
theorem Function.any_anyAssignsThis (f : Function) :
    f.body.any Stmt.anyAssignsThis = f.occurrences.any Occurrence.isFound := by
  rw [Function.occurrences]
  cases f.body with
  | none => simp [Stmt.allOccurrences]
  | some body => simpa using Stmt.anyAssignsThis_eq_any_isFound body

namespace Rust

/-- A method of an object takes it exclusively when some change of the object, or a call of a
method of something inside it, stands at the end of a way that the scan follows to the end;
otherwise the method takes the object shared, whatever it changes elsewhere. -/
theorem receiverOf_eq_exclusive_iff_found {f : Function} (hf : f.belongsToType = false) :
    let found := ∃ o ∈ f.occurrences, o.isScanned = true ∧
      (o.expr.changesThis = true ∨ o.expr.callsPart = true)
    (f.body.any Stmt.anyAssignsThis = true ↔ found) ∧ (receiverOf f = .exclusive ↔ found) ∧
      (receiverOf f = .shared ↔ ¬ found) := by
  intro found
  -- The scan is a search through the occurrences; some of them it never comes to.
  have hscan : f.body.any Stmt.anyAssignsThis = true ↔ found := by
    rw [f.any_anyAssignsThis, List.any_eq_true]
    apply exists_congr
    intro o
    rw [Occurrence.isFound, Bool.and_eq_true, Bool.or_eq_true]
  have hexclusive : receiverOf f = .exclusive ↔ found := by
    rw [receiverOf_eq_exclusive_iff, hf, Bool.not_false, Bool.true_and]
    exact hscan
  refine ⟨hscan, hexclusive, ?_⟩
  rw [← hexclusive, receiverOf, ← Function.belongsToType, hf]
  cases f.body.any Stmt.anyAssignsThis <;> simp

/-- A method that counts a field down in the condition of a loop. -/
def drainMethod : Function :=
  let countdown : Expr := .unary .minusMinus (.member .this "left") false
  ⟨"drain", [], none, [], [], [],
    some [.whileLoop (.binary countdown .greater (.literal (.number "0"))) []], false, false⟩

theorem drainMethod_takes_shared :
    drainMethod.belongsToType = false ∧
      (∃ o ∈ drainMethod.occurrences, o.expr.changesThis = true) ∧
      drainMethod.body.any Stmt.anyAssignsThis = false ∧ receiverOf drainMethod = .shared := by
  have hf : drainMethod.belongsToType = false := by decide
  obtain ⟨hscan, -, hshared⟩ := receiverOf_eq_exclusive_iff_found hf
  have notFound : ¬ ∃ o ∈ drainMethod.occurrences, o.isScanned = true ∧
      (o.expr.changesThis = true ∨ o.expr.callsPart = true) := by decide
  refine ⟨hf, by decide, ?_, hshared.mpr notFound⟩
  rw [Bool.eq_false_iff]
  exact fun found => notFound (hscan.mp found)

end Rust

end SourceGen
