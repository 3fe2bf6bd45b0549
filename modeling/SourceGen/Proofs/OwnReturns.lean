import SourceGen.Analysis.Flow
import SourceGen.Layout.Code
import SourceGen.Omission
import SourceGen.Proofs.TextLeaves
import SourceGen.Proofs.Yields

/-!
# Returns at the level of a function

A line that returns a value leaves the function that it stands in. The lines of closures and of
functions inside the function do not count. A line is known as a return by its first piece, so a
name or a number with just the text of that piece could be taken for one.

## Main definitions

* `Code.anyOwnReturn`: code returns a value at the level of the function around it.
* `Tells`: what is shown by code and what is seen in a tree are the same, for plain texts.
* `Fragment.Tells`: the same for a fragment, which is no return by itself.
* `Writing.result`: the result that is inferred for a function.

## Main results

* `Code.anyOwnReturn_return`: a line that returns a value.
* `Fragment.Tells.isReturn_line`: any other line.
-/

namespace SourceGen

/-- The first piece of a line that returns a value. -/
def returnWord : String :=
  "return "

/-- The text cannot be taken for the start of a return. -/
def Text.isNoReturn (s : String) : Bool :=
  s != returnWord

/-- A text with some other character is not the start of a return. -/
theorem Text.isNoReturn_of_mem {s : String} (c : Char) (hc : c ∈ s.toList)
    (hother : c ∉ returnWord.toList) : isNoReturn s = true := by
  rw [isNoReturn, bne_iff_ne]
  rintro rfl
  exact hother hc

/-- A call does not read as a `return`. -/
@[grind =] theorem Text.isNoReturn_call (s : String) : isNoReturn (s ++ "(") = true :=
  isNoReturn_of_mem '(' (by simp) (by decide)

namespace Fragment

/-- The fragment starts like a line that returns a value. -/
def startsReturn : Fragment → Bool
  | .text s :: _ => !Text.isNoReturn s
  | _ => false

/-- The line returns a value: there is something between its start and its end. -/
def isReturn (f : Fragment) : Bool :=
  f.startsReturn && decide (2 < f.length)

@[simp, grind =] theorem startsReturn_text (s : String) :
    (text s).startsReturn = !Text.isNoReturn s :=
  rfl

/-- Only the first part of a fragment can start a return. -/
@[grind =] theorem startsReturn_append {f : Fragment} (hf : f ≠ []) (g : Fragment) :
    (f ++ g).startsReturn = f.startsReturn := by
  cases f with
  | nil => exact absurd rfl hf
  | cons p ps => cases p <;> rfl

@[grind .] theorem text_ne_nil (s : String) : text s ≠ [] :=
  List.cons_ne_nil _ _

attribute [grind =] List.append_eq_nil_iff

end Fragment

mutual

/-- The piece has a return of a value from the function around it. -/
def Piece.ownReturn : Piece → Bool
  | .text _ | .apart _ => false
  | .nested role body => role == .value && Code.anyOwnReturn body
  | .arms arms => Piece.armsOwnReturn arms

/-- The fragment has a return of a value inside it, from the function around it. -/
def Piece.anyOwnReturn : List Piece → Bool
  | [] => false
  | p :: ps => p.ownReturn || Piece.anyOwnReturn ps

/-- One of the arms has a return of a value from the function around it. -/
def Piece.armsOwnReturn : List (List Piece) → Bool
  | [] => false
  | arm :: arms => Piece.anyOwnReturn arm || Piece.armsOwnReturn arms

/-- The item of code returns a value from the function around it. -/
def Code.ownReturn : Code → Bool
  | .line content | .hung content => Fragment.isReturn content || Piece.anyOwnReturn content
  | .block role header body _ =>
    role != .function && (Piece.anyOwnReturn header || Code.anyOwnReturn body)
  | .braces body | .indented body => Code.anyOwnReturn body
  | .chain branches => Branch.anyOwnReturn branches
  | .jump _ | .exitLabel _ | .blank | .separator | .verbatim _ => false

/-- The code returns a value from the function around it. -/
def Code.anyOwnReturn : List Code → Bool
  | [] => false
  | c :: cs => c.ownReturn || Code.anyOwnReturn cs

/-- One of the branches returns a value from the function around it. -/
def Branch.anyOwnReturn : List Branch → Bool
  | [] => false
  | .mk header body :: branches =>
    Piece.anyOwnReturn header || Code.anyOwnReturn body || Branch.anyOwnReturn branches

end

/-! ### Parts of code -/

section

attribute [local simp] Piece.ownReturn Piece.anyOwnReturn Piece.armsOwnReturn Code.ownReturn
  Code.anyOwnReturn Branch.anyOwnReturn

namespace Piece

@[simp, grind =] theorem anyOwnReturn_nil : anyOwnReturn [] = false := by
  rw [anyOwnReturn]

@[simp, grind =] theorem anyOwnReturn_append (f g : Fragment) :
    anyOwnReturn (f ++ g) = (anyOwnReturn f || anyOwnReturn g) := by
  induction f with
  | nil => rw [anyOwnReturn, Bool.false_or, List.nil_append]
  | cons p ps ih => rw [List.cons_append, anyOwnReturn, anyOwnReturn, ih, Bool.or_assoc]

@[simp, grind =] theorem anyOwnReturn_text (s : String) :
    anyOwnReturn (Fragment.text s) = false := by
  rw [Fragment.text, anyOwnReturn, ownReturn, anyOwnReturn, Bool.or_false]

@[simp, grind =] theorem anyOwnReturn_cons_text (s : String) (f : Fragment) :
    anyOwnReturn (.text s :: f) = anyOwnReturn f := by
  rw [anyOwnReturn, ownReturn, Bool.false_or]

/-- The returns in a closure are its own. -/
@[simp, grind =] theorem anyOwnReturn_closure (body : List Code) (f : Fragment) :
    anyOwnReturn (.nested .closure body :: f) = anyOwnReturn f := by
  rw [anyOwnReturn, ownReturn, beq_eq_false_iff_ne.mpr (by decide), Bool.false_and, Bool.false_or]

/-- The returns in a value block leave the function around it. -/
@[simp, grind =] theorem anyOwnReturn_value (body : List Code) (f : Fragment) :
    anyOwnReturn (.nested .value body :: f) = (Code.anyOwnReturn body || anyOwnReturn f) := by
  rw [anyOwnReturn, ownReturn, beq_self_eq_true, Bool.true_and]

@[simp, grind =] theorem anyOwnReturn_apart (content f : Fragment) :
    anyOwnReturn (.apart content :: f) = anyOwnReturn f := by
  rw [anyOwnReturn, ownReturn, Bool.false_or]

@[simp, grind =] theorem anyOwnReturn_arms (arms : List Fragment) (f : Fragment) :
    anyOwnReturn (.arms arms :: f) = (armsOwnReturn arms || anyOwnReturn f) := by
  rw [anyOwnReturn, ownReturn]

@[simp, grind =] theorem anyOwnReturn_parens (f : Fragment) :
    anyOwnReturn f.parens = anyOwnReturn f := by
  simp [Fragment.parens]

@[simp, grind =] theorem armsOwnReturn_nil : armsOwnReturn [] = false := by
  rw [armsOwnReturn]

@[simp, grind =] theorem armsOwnReturn_cons (arm : Fragment) (arms : List Fragment) :
    armsOwnReturn (arm :: arms) = (anyOwnReturn arm || armsOwnReturn arms) := by
  rw [armsOwnReturn]

@[simp, grind =] theorem armsOwnReturn_append (fs gs : List Fragment) :
    armsOwnReturn (fs ++ gs) = (armsOwnReturn fs || armsOwnReturn gs) := by
  induction fs with
  | nil => rw [armsOwnReturn_nil, Bool.false_or, List.nil_append]
  | cons f fs ih => rw [List.cons_append, armsOwnReturn, armsOwnReturn, ih, Bool.or_assoc]

/-- Joined fragments return when one of them does. -/
@[simp, grind =] theorem anyOwnReturn_join (sep : String) (fs : List Fragment) :
    anyOwnReturn (Fragment.join sep fs) = armsOwnReturn fs := by
  induction fs with
  | nil => rw [Fragment.join, anyOwnReturn_nil, armsOwnReturn_nil]
  | cons f fs ih =>
    cases fs with
    | nil => rw [Fragment.join, armsOwnReturn_cons, armsOwnReturn_nil, Bool.or_false]
    | cons g gs =>
      rw [Fragment.join, anyOwnReturn_append, anyOwnReturn_append, anyOwnReturn_text, ih,
        Bool.or_false, armsOwnReturn_cons f]
      exact List.cons_ne_nil g gs

@[simp, grind =] theorem anyOwnReturn_elim (o : Option Fragment) (front : String) :
    anyOwnReturn (o.elim [] (Fragment.text front ++ ·)) = o.any anyOwnReturn := by
  cases o with
  | none => exact anyOwnReturn_nil
  | some f => simp

end Piece

namespace Code

@[simp, grind =] theorem anyOwnReturn_nil : anyOwnReturn [] = false := by
  rw [anyOwnReturn]

@[simp, grind =] theorem anyOwnReturn_append (cs ds : List Code) :
    anyOwnReturn (cs ++ ds) = (anyOwnReturn cs || anyOwnReturn ds) := by
  induction cs with
  | nil => rw [anyOwnReturn, Bool.false_or, List.nil_append]
  | cons c cs ih => rw [List.cons_append, anyOwnReturn, anyOwnReturn, ih, Bool.or_assoc]

@[simp, grind =] theorem anyOwnReturn_line (f : Fragment) (cs : List Code) :
    anyOwnReturn (.line f :: cs) =
      (Fragment.isReturn f || Piece.anyOwnReturn f || anyOwnReturn cs) := by
  rw [anyOwnReturn, ownReturn]

@[simp, grind =] theorem anyOwnReturn_hung (f : Fragment) (cs : List Code) :
    anyOwnReturn (.hung f :: cs) =
      (Fragment.isReturn f || Piece.anyOwnReturn f || anyOwnReturn cs) := by
  rw [anyOwnReturn, ownReturn]

@[simp, grind =] theorem anyOwnReturn_text (s : String) (cs : List Code) :
    anyOwnReturn (.text s :: cs) = anyOwnReturn cs := by
  have hshort : Fragment.isReturn (Fragment.text s) = false := by
    simp [Fragment.isReturn, Fragment.text]
  rw [Code.text, anyOwnReturn_line, hshort, Piece.anyOwnReturn_text, Bool.or_self, Bool.false_or]

@[simp, grind =] theorem anyOwnReturn_jump (jump : Jump) (cs : List Code) :
    anyOwnReturn (.jump jump :: cs) = anyOwnReturn cs := by
  rw [anyOwnReturn, ownReturn, Bool.false_or]

@[simp, grind =] theorem anyOwnReturn_exitLabel (loop : Nat) (cs : List Code) :
    anyOwnReturn (.exitLabel loop :: cs) = anyOwnReturn cs := by
  rw [anyOwnReturn, ownReturn, Bool.false_or]

@[simp, grind =] theorem anyOwnReturn_separator (cs : List Code) :
    anyOwnReturn (.separator :: cs) = anyOwnReturn cs := by
  rw [anyOwnReturn, ownReturn, Bool.false_or]

@[simp, grind =] theorem anyOwnReturn_verbatim (text : String) (cs : List Code) :
    anyOwnReturn (.verbatim text :: cs) = anyOwnReturn cs := by
  rw [anyOwnReturn, ownReturn, Bool.false_or]

/-- The returns in a function are its own. -/
@[simp, grind =] theorem anyOwnReturn_function (header : Fragment) (body : List Code)
    (suffix : String) (cs : List Code) :
    anyOwnReturn (.block .function header body suffix :: cs) = anyOwnReturn cs := by
  rw [anyOwnReturn, ownReturn, bne_self_eq_false, Bool.false_and, Bool.false_or]

/-- The returns in any other block leave the function around it. -/
@[simp, grind =] theorem anyOwnReturn_block {role : BlockRole} (hrole : role ≠ .function)
    (header : Fragment) (body : List Code) (suffix : String) (cs : List Code) :
    anyOwnReturn (.block role header body suffix :: cs) =
      (Piece.anyOwnReturn header || anyOwnReturn body || anyOwnReturn cs) := by
  rw [anyOwnReturn, ownReturn, bne_iff_ne.mpr hrole, Bool.true_and]

@[simp, grind =] theorem anyOwnReturn_indented (body cs : List Code) :
    anyOwnReturn (.indented body :: cs) = (anyOwnReturn body || anyOwnReturn cs) := by
  rw [anyOwnReturn, ownReturn]

@[simp, grind =] theorem anyOwnReturn_braces (body cs : List Code) :
    anyOwnReturn (.braces body :: cs) = (anyOwnReturn body || anyOwnReturn cs) := by
  rw [anyOwnReturn, ownReturn]

@[simp, grind =] theorem anyOwnReturn_chain (branches : List Branch) (cs : List Code) :
    anyOwnReturn (.chain branches :: cs) = (Branch.anyOwnReturn branches || anyOwnReturn cs) := by
  rw [anyOwnReturn, ownReturn]

/-- A line that returns a value. -/
theorem anyOwnReturn_return {f : Fragment} (hf : f ≠ []) (cs : List Code) :
    anyOwnReturn (.line (Fragment.text "return " ++ f ++ Fragment.text ";") :: cs) = true := by
  have hlength : 2 < (Fragment.text "return " ++ f ++ Fragment.text ";").length := by
    have := List.length_pos_iff.mpr hf
    simp only [List.length_append, Fragment.text, List.length_singleton]
    omega
  have hreturn : Fragment.isReturn (Fragment.text "return " ++ f ++ Fragment.text ";") = true := by
    rw [Fragment.isReturn, decide_eq_true hlength, Bool.and_true]
    rfl
  rw [anyOwnReturn_line, hreturn, Bool.true_or, Bool.true_or]

end Code

namespace Branch

@[simp, grind =] theorem anyOwnReturn_nil : anyOwnReturn [] = false := by
  rw [anyOwnReturn]

@[simp, grind =] theorem anyOwnReturn_cons (header : Fragment) (body : List Code)
    (branches : List Branch) : anyOwnReturn (.mk header body :: branches) =
      (Piece.anyOwnReturn header || Code.anyOwnReturn body || anyOwnReturn branches) := by
  rw [anyOwnReturn]

end Branch

end

/-- Raw code is passed through, whatever it says. -/
theorem anyOwnReturn_rawCode (target : TargetName) (raw : RawBlock) :
    (target.rawCode raw).Always fun cs => Code.anyOwnReturn cs = false := by
  unfold TargetName.rawCode
  split
  · split
    · exact .pure (by simp)
    · exact .after fun _ => .pure (by simp)
  · exact .pure (by simp)

/-! ### What code tells about a tree -/

/-- What is seen in the tree is shown by the code, and with plain texts nothing else is. -/
def Tells (plain seen shown : Bool) : Prop :=
  (seen = true → shown = true) ∧ (plain = true → shown = true → seen = true)

@[grind =] theorem tells_iff {plain seen shown : Bool} : Tells plain seen shown ↔
    (seen = true → shown = true) ∧ (plain = true → shown = true → seen = true) :=
  Iff.rfl

/-- The fragment tells what is seen in the tree, and with plain texts it does not start a return. -/
def Fragment.Tells (plain seen : Bool) (f : Fragment) : Prop :=
  f ≠ [] ∧ (plain = true → f.startsReturn = false) ∧
    SourceGen.Tells plain seen (Piece.anyOwnReturn f)

@[grind =] theorem Fragment.tells_iff {plain seen : Bool} {f : Fragment} :
    f.Tells plain seen ↔ f ≠ [] ∧ (plain = true → f.startsReturn = false) ∧
      SourceGen.Tells plain seen (Piece.anyOwnReturn f) :=
  Iff.rfl

namespace Fragment.Tells

variable {plain seen : Bool} {f : Fragment}

/-- Parentheses hide a leading `return` but none inside. -/
@[grind ←] theorem parens (hf : SourceGen.Tells plain seen (Piece.anyOwnReturn f)) :
    f.parens.Tells plain seen := by
  have hstart := Text.isNoReturn_of_mem (s := "(") '(' (by decide) (by decide)
  unfold Fragment.parens
  grind -linarith

/-- A line that starts with the fragment is no return. -/
theorem isReturn_line (hf : f.Tells plain seen) (hplain : plain = true) (g : Fragment) :
    (f ++ g).isReturn = false := by
  rw [Fragment.isReturn, startsReturn_append hf.1, hf.2.1 hplain, Bool.false_and]

end Fragment.Tells

/-! ### Functions without a declared return type -/

/-- Two blocks in a row return a value when one of them does. -/
theorem Stmt.anyReturnsValue_append (ss ts : List Stmt) :
    anyReturnsValue (ss ++ ts) = (anyReturnsValue ss || anyReturnsValue ts) := by
  induction ss with
  | nil => rw [anyReturnsValue, Bool.false_or, List.nil_append]
  | cons s ss ih => rw [List.cons_append, anyReturnsValue, anyReturnsValue, ih, Bool.or_assoc]

/-- What a signature says about the result of a function. -/
inductive Result where
  | nothing
  | value (type : String)
  /-- A constructor gives a new value of its type. -/
  | new
  deriving DecidableEq, Repr

/-- How a function that declares no return type is written. -/
structure Writing where
  /-- The name in the signature. -/
  name : String
  constructs : Bool
  /-- The type that stands for a returned value. -/
  type : String
  /-- The statements that are written into the function. -/
  run : List Stmt

/-- The result of a function, as far as it can be inferred from its statements. -/
def Writing.result (w : Writing) : Result :=
  if w.constructs then .new else if Stmt.anyReturnsValue w.run then .value w.type else .nothing

/-- A body has no result exactly when it is no constructor and nothing it runs returns a value. -/
theorem Writing.result_eq_nothing_iff {w : Writing} :
    w.result = .nothing ↔ w.constructs = false ∧ Stmt.anyReturnsValue w.run = false := by
  unfold result
  cases w.constructs <;> cases Stmt.anyReturnsValue w.run <;> simp

end SourceGen
