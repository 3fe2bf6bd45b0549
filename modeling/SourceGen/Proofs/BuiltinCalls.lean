import SourceGen.Analysis.Callee
import SourceGen.Proofs.Yields

/-!
# Calls of builtins

A call of a builtin in a tree, and a call in code that is written under the own name of the builtin.
A tree has many places that are not written, such as marked functions and declarations that have no
place in a body. Calls in these do not count.

## Main definitions

* `Builtin.inExpr`, `Builtin.inStmts`, `Builtin.inFunction`: a tree has a call of the builtin.
* `Piece.anyCalls`, `Code.anyCalls`: code has a call of the builtin under its own name.
* `Gen.Shows`: what a run yields shows what it was written for.

## Main results

* `Piece.anyCalls_append`, `Code.anyCalls_append`: code has the calls of its parts.
* `Gen.Shows.bind`: the rule for sequences.
-/

namespace SourceGen

/-! ### Calls in a tree -/

namespace Builtin

variable (fn : Builtin)

/-- The expression is a name of the builtin. -/
def isCallee (e : Expr) : Bool :=
  match Callee.of e with
  | .builtin called _ => called == fn
  | _ => false

mutual

/-- The expression has a call of the builtin. -/
def inExpr : Expr → Bool
  | .literal _ | .ident _ | .path _ | .this => false
  | .member object _ => inExpr object
  | .index object i => inExpr object || inExpr i
  | .binary left _ right => inExpr left || inExpr right
  | .unary _ operand _ => inExpr operand
  | .assign target _ value => inExpr target || inExpr value
  | .call callee args => fn.isCallee callee || (inExpr callee || inExprs args)
  | .construct _ args => inExprs args
  | .array elements _ => inExprs elements
  | .lambda _ body => inBody body
  | .range start stop _ => inExprOption start || inExprOption stop
  | .block block => inStmts block
  | .matchOn scrutinee arms => inExpr scrutinee || inArms arms

/-- One of the expressions has a call of the builtin. -/
def inExprs : List Expr → Bool
  | [] => false
  | e :: es => inExpr e || inExprs es

/-- The optional expression has a call of the builtin. -/
def inExprOption : Option Expr → Bool
  | none => false
  | some e => inExpr e

/-- The expression or the block has a call of the builtin. -/
def inBody : Body → Bool
  | .expr value => inExpr value
  | .block block => inStmts block

/-- The pattern has a call of the builtin. -/
def inPattern : Pattern → Bool
  | .default => false
  | .values values => inExprs values

/-- One of the arms has a call of the builtin. -/
def inArms : List MatchArm → Bool
  | [] => false
  | ⟨pattern, result⟩ :: arms => inPattern pattern || (inBody result || inArms arms)

/-- One of the cases has a call of the builtin. -/
def inCases : List SwitchCase → Bool
  | [] => false
  | ⟨pattern, body⟩ :: cases => inPattern pattern || (inStmts body || inCases cases)

/-- The statement of a body has a call of the builtin. Other declarations than functions have no
place in a body. -/
def inStmt : Stmt → Bool
  | .binding decl => inBinding decl
  | .ifThen condition thenBranch elseBranch =>
    inExpr condition || (inStmts thenBranch || inBlockOption elseBranch)
  | .whileLoop condition body => inExpr condition || inStmts body
  | .forLoop start condition step body =>
    inLoopStart start || (inExprOption condition || (inExprOption step || inStmts body))
  | .forEach _ _ iterable body => inExpr iterable || inStmts body
  | .ret value => inExprOption value
  | .matchOn scrutinee arms => inExpr scrutinee || inArms arms
  | .switchOn subject cases => inExpr subject || inCases cases
  | .expr value => inExpr value
  | .functionDecl _ decl => inFunction decl
  | .importDecl _ | .includeDecl _ _ | .aliasDecl _ | .namespaceDecl _ _ | .typeDecl _ _
  | .enumDecl _ | .moduleDecl _ | .fieldDecl _ | .propertyDecl _ | .breakLoop | .continueLoop
  | .raw _ => false

/-- One of the statements has a call of the builtin. -/
def inStmts : List Stmt → Bool
  | [] => false
  | s :: ss => inStmt s || inStmts ss

/-- The optional block has a call of the builtin. -/
def inBlockOption : Option (List Stmt) → Bool
  | none => false
  | some block => inStmts block

/-- The value of the variable has a call of the builtin. -/
def inBinding : Binding → Bool
  | ⟨_, _, value, _⟩ => inExprOption value

/-- The first clause of a counted loop has a call of the builtin. -/
def inLoopStart : Option Stmt → Bool
  | some (.binding decl) => inBinding decl
  | some (.expr value) => inExpr value
  | _ => false

/-- One of the attributes that are no markers has a call of the builtin. -/
def inAttributes : List Attribute → Bool
  | [] => false
  | ⟨name, args⟩ :: attributes =>
    ((Marker.ofName? name).isNone && inExprs args) || inAttributes attributes

/-- A default value of the parameters has a call of the builtin. -/
def inParameters : List Parameter → Bool
  | [] => false
  | ⟨_, _, default⟩ :: params => inExprOption default || inParameters params

/-- The function is written, and it has a call of the builtin. -/
def inFunction : Function → Bool
  | ⟨name, params, _, _, _, attributes, body, _, _⟩ =>
    (Marker.of? attributes).isNone && !Text.hasChar '.' name &&
      (inAttributes attributes || (inParameters params || inBlockOption body))

end

/-- How a call of the builtin by its own name starts. -/
def callStart (fn : Builtin) : String :=
  fn.name ++ "("

end Builtin

/-! ### Calls in code -/

section

variable (fn : Builtin)

mutual

/-- The piece has a call of the builtin by its own name. -/
def Piece.calls : Piece → Bool
  | .text s => s == fn.callStart
  | .nested _ body => Code.anyCalls body
  | .arms arms => Piece.armsCall arms
  | .apart content => Piece.anyCalls content

/-- The fragment has a call of the builtin by its own name. -/
def Piece.anyCalls : List Piece → Bool
  | [] => false
  | p :: ps => p.calls || Piece.anyCalls ps

/-- One of the arms has a call of the builtin by its own name. -/
def Piece.armsCall : List (List Piece) → Bool
  | [] => false
  | arm :: arms => Piece.anyCalls arm || Piece.armsCall arms

/-- The item of code has a call of the builtin by its own name. -/
def Code.calls : Code → Bool
  | .line content | .hung content => Piece.anyCalls content
  | .block _ header body _ => Piece.anyCalls header || Code.anyCalls body
  | .braces body | .indented body => Code.anyCalls body
  | .chain branches => Branch.anyCalls branches
  | .jump _ | .exitLabel _ | .blank | .separator | .verbatim _ => false

/-- The code has a call of the builtin by its own name. -/
def Code.anyCalls : List Code → Bool
  | [] => false
  | c :: cs => c.calls || Code.anyCalls cs

/-- One of the branches has a call of the builtin by its own name. -/
def Branch.anyCalls : List Branch → Bool
  | [] => false
  | .mk header body :: branches =>
    Piece.anyCalls header || Code.anyCalls body || Branch.anyCalls branches

end

end

attribute [local simp] Piece.calls Piece.anyCalls Piece.armsCall Code.calls Code.anyCalls
  Branch.anyCalls

variable {fn : Builtin}

namespace Piece

@[simp, grind =] theorem anyCalls_append (f g : Fragment) :
    anyCalls fn (f ++ g) = (anyCalls fn f || anyCalls fn g) := by
  induction f with
  | nil => rfl
  | cons p ps ih => rw [List.cons_append, anyCalls, anyCalls, ih, Bool.or_assoc]

/-- A name with an opening parenthesis is a call. -/
theorem anyCalls_callStart : anyCalls fn (Fragment.text fn.callStart) = true := by
  rw [Fragment.text, anyCalls, calls]
  simp

@[simp, grind =] theorem anyCalls_nested (role : NestedRole) (body : List Code) (ps : Fragment) :
    anyCalls fn (.nested role body :: ps) = (Code.anyCalls fn body || anyCalls fn ps) := by
  rw [anyCalls, calls]

@[simp, grind =] theorem anyCalls_arms (arms : List Fragment) (ps : Fragment) :
    anyCalls fn (.arms arms :: ps) = (armsCall fn arms || anyCalls fn ps) := by
  rw [anyCalls, calls]

mutual

/-- A blank piece has no call. -/
theorem not_calls_of_allChars : ∀ p : Piece,
    p.allChars (fun _ => false) = true → calls fn p = false
  | .text s, h => by
    -- Without characters the text is empty, and the start of a call is not.
    have hempty : s.toList = [] := by
      simpa [allChars, List.all_eq_true, List.eq_nil_iff_forall_not_mem] using h
    rw [calls, beq_eq_false_iff_ne]
    rintro rfl
    simp [Builtin.callStart] at hempty
  | .apart content, h => by
    rw [calls]
    exact not_anyCalls_of_areAllChars content h

theorem not_anyCalls_of_areAllChars : ∀ ps : List Piece,
    areAllChars (fun _ => false) ps = true → anyCalls fn ps = false
  | [], _ => rfl
  | p :: ps, h => by
    rw [areAllChars, Bool.and_eq_true] at h
    rw [anyCalls, not_calls_of_allChars p h.1, not_anyCalls_of_areAllChars ps h.2, Bool.or_false]

end

/-- A blank fragment has no calls. -/
theorem not_anyCalls_of_isBlank {f : Fragment} (h : f.isBlank = true) : anyCalls fn f = false :=
  not_anyCalls_of_areAllChars f (by rwa [areAllChars_eq])

@[simp, grind =] theorem armsCall_cons (arm : Fragment) (arms : List Fragment) :
    armsCall fn (arm :: arms) = (anyCalls fn arm || armsCall fn arms) := by
  rw [armsCall]

/-- A call in one of the fragments is a call in all of them together. -/
@[grind ←] theorem anyCalls_join (sep : String) {fs : List Fragment} (h : armsCall fn fs = true) :
    anyCalls fn (Fragment.join sep fs) = true := by
  induction fs with
  | nil => rw [armsCall] at h; exact absurd h Bool.false_ne_true
  | cons f fs ih =>
    rw [armsCall, Bool.or_eq_true] at h
    cases fs with
    | nil => exact h.resolve_right (by rw [armsCall]; exact Bool.false_ne_true)
    | cons g gs =>
      rw [Fragment.join, anyCalls_append, anyCalls_append, Bool.or_eq_true, Bool.or_eq_true]
      · exact h.imp Or.inl ih
      · simp

end Piece

namespace Code

@[simp, grind =] theorem anyCalls_append (cs ds : List Code) :
    anyCalls fn (cs ++ ds) = (anyCalls fn cs || anyCalls fn ds) := by
  induction cs with
  | nil => rw [anyCalls, Bool.false_or, List.nil_append]
  | cons c cs ih => rw [List.cons_append, anyCalls, anyCalls, ih, Bool.or_assoc]

@[simp, grind =] theorem anyCalls_line (f : Fragment) (cs : List Code) :
    anyCalls fn (.line f :: cs) = (Piece.anyCalls fn f || anyCalls fn cs) := by
  rw [anyCalls, calls]

@[simp, grind =] theorem anyCalls_text (s : String) (cs : List Code) :
    anyCalls fn (.text s :: cs) = (Piece.anyCalls fn (Fragment.text s) || anyCalls fn cs) :=
  anyCalls_line _ _

@[simp, grind =] theorem anyCalls_block (role : BlockRole) (header : Fragment) (body : List Code)
    (suffix : String) (cs : List Code) :
    anyCalls fn (.block role header body suffix :: cs) =
      (Piece.anyCalls fn header || anyCalls fn body || anyCalls fn cs) := by
  rw [anyCalls, calls]

@[simp, grind =] theorem anyCalls_indented (body cs : List Code) :
    anyCalls fn (.indented body :: cs) = (anyCalls fn body || anyCalls fn cs) := by
  rw [anyCalls, calls]

@[simp, grind =] theorem anyCalls_braces (body cs : List Code) :
    anyCalls fn (.braces body :: cs) = (anyCalls fn body || anyCalls fn cs) := by
  rw [anyCalls, calls]

@[simp, grind =] theorem anyCalls_separator (cs : List Code) :
    anyCalls fn (.separator :: cs) = anyCalls fn cs := by
  rw [anyCalls, calls, Bool.false_or]

end Code

/-! ### Runs that show calls -/

namespace Gen

variable {α β : Type} {x : Gen α} {f : α → Gen β} {seen other : Bool} {view : α → Bool}
  {later : β → Bool}

/-- What every run yields shows what was seen. -/
def Shows (x : Gen α) (seen : Bool) (view : α → Bool) : Prop :=
  x.Always fun a => seen = true → view a = true

namespace Shows

theorem pure {a : α} (h : seen = true → view a = true) :
    (Pure.pure a : Gen α).Shows seen view :=
  Always.pure h

/-- Where nothing was seen, there is nothing to show. -/
theorem nothing : x.Shows false view :=
  fun _ _ _ _ h => absurd h Bool.false_ne_true

/-- What the second step shows is shown when the first step's view allows it. -/
theorem bind (hx : x.Shows seen view)
    (hf : ∀ a, (seen = true → view a = true) → (f a).Shows other later) :
    (x >>= f).Shows other later :=
  Always.bind hx hf

/-- The first step tells something else. -/
theorem given {P : α → Prop} (hx : x.Always P) (hf : ∀ a, P a → (f a).Shows other later) :
    (x >>= f).Shows other later :=
  Always.bind hx hf

/-- The first step shows nothing. -/
theorem after (hf : ∀ a, (f a).Shows other later) : (x >>= f).Shows other later :=
  Always.after hf

/-- A wider view shows as much. -/
theorem mono {wide : α → Bool} (hx : x.Shows seen view)
    (h : ∀ a, (seen = true → view a = true) → other = true → wide a = true) :
    x.Shows other wide :=
  Always.mono hx h

end Shows

end Gen

end SourceGen
