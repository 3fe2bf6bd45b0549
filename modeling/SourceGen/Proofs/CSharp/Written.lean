import SourceGen.CSharp.Body
import SourceGen.Proofs.Mark
import SourceGen.Proofs.Yields

/-!
# What C# bodies are made of

A grammar of the code that C# bodies are written in. It forgets texts and keeps what matters for
jumps: where loops are numbered, which loop a statement is in, and where the `break`s of the tree
went. The numbers `a` and `b` count the labels in use before and after.

## Main definitions

* `Stmt.breaks`: the `break`s of a statement, each with the loops and switches around it.
* `CSharp.WrittenFragment`, `CSharp.Written`: the grammar of fragments and of code.

## Main results

* `CSharp.written_stmts`, `CSharp.written_expr`: what the generator writes belongs to the grammar.
-/

namespace SourceGen

/-! ### The breaks of a tree -/

/-- The paths with one more enclosure around them. -/
def Path.allInside (e : Enclosure) (paths : List Path) : List Path :=
  paths.map (· ++ [e])

namespace Stmt

mutual

/-- What stands around each `break` of a statement, innermost first. Closures and local functions
are bodies of their own, so their `break`s do not count. -/
def breaks : Stmt → List Path
  | .breakLoop => [[]]
  | .ifThen _ thenBranch none => allBreaks thenBranch
  | .ifThen _ thenBranch (some elseBranch) => allBreaks thenBranch ++ allBreaks elseBranch
  | .whileLoop _ body => Path.allInside (.loop none) (allBreaks body)
  | .forLoop _ _ _ body => Path.allInside (.loop none) (allBreaks body)
  | .forEach _ _ _ body => Path.allInside (.loop none) (allBreaks body)
  | .matchOn _ arms => Path.allInside .switch (armBreaks arms)
  | .expr (.matchOn _ arms) => Path.allInside .switch (armBreaks arms)
  | .switchOn _ cases => Path.allInside .switch (caseBreaks cases)
  | _ => []

/-- The `break`s of statements. -/
def allBreaks : List Stmt → List Path
  | [] => []
  | s :: ss => s.breaks ++ allBreaks ss

/-- The `break`s in the blocks of arms. -/
def armBreaks : List MatchArm → List Path
  | [] => []
  | ⟨_, .block block⟩ :: arms => allBreaks block ++ armBreaks arms
  | ⟨_, .expr _⟩ :: arms => armBreaks arms

/-- The `break`s in the bodies of cases. -/
def caseBreaks : List SwitchCase → List Path
  | [] => []
  | ⟨_, body⟩ :: cases => allBreaks body ++ caseBreaks cases

end

/-- The `break`s of an optional branch. -/
def branchBreaks : Option (List Stmt) → List Path
  | none => []
  | some block => allBreaks block

/-- The statements of a block in front of its value. -/
def beforeValue : List Stmt → List Stmt
  | [] => []
  | [.expr _] => []
  | s :: ss => s :: beforeValue ss

theorem breaks_ifThen (condition : Expr) (thenBranch : List Stmt)
    (elseBranch : Option (List Stmt)) :
    (Stmt.ifThen condition thenBranch elseBranch).breaks =
      allBreaks thenBranch ++ branchBreaks elseBranch := by
  cases elseBranch <;> simp [breaks, branchBreaks]

end Stmt

namespace CSharp

open Fragment (text)

/-! ### The grammar -/

mutual

/-- A fragment that numbers the loops from `a` up to `b`. Loops stand only in closures. -/
inductive WrittenFragment : Nat → Nat → Fragment → Prop
  | nil {a : Nat} : WrittenFragment a a []
  | text {a : Nat} (s : String) : WrittenFragment a a [.text s]
  | append {a b c : Nat} {f g : Fragment} :
      WrittenFragment a b f → WrittenFragment b c g → WrittenFragment a c (f ++ g)
  /-- What is written later may stand in front. -/
  | prepend {a b c : Nat} {f g : Fragment} :
      WrittenFragment a b f → WrittenFragment b c g → WrittenFragment a c (g ++ f)
  | closure {a b : Nat} {paths : List Path} {body : List Code} :
      Written none paths a b body → WrittenFragment a b [.nested .closure body]
  | noArms {a : Nat} : WrittenFragment a a [.arms []]
  | arm {a b c : Nat} {f : Fragment} {fs : List Fragment} :
      WrittenFragment a b f → WrittenFragment b c [.arms fs] →
        WrittenFragment a c [.arms (f :: fs)]

/-- Code inside the given loop that numbers the loops from `a` up to `b`, with the `break`s of the
tree at the given paths. -/
inductive Written : Option LoopFrame → List Path → Nat → Nat → List Code → Prop
  | nil {loop : Option LoopFrame} {a : Nat} : Written loop [] a a []
  | append {loop : Option LoopFrame} {a b c : Nat} {ps qs : List Path} {cs ds : List Code} :
      Written loop ps a b cs → Written loop qs b c ds → Written loop (ps ++ qs) a c (cs ++ ds)
  | line {loop : Option LoopFrame} {a b : Nat} {f : Fragment} :
      WrittenFragment a b f → Written loop [] a b [.line f]
  | leave {loop : Option LoopFrame} {a : Nat} : Written loop [[]] a a [.jump (leaveLoop loop)]
  | nextRound {loop : Option LoopFrame} {a : Nat} : Written loop [] a a [.jump .nextRound]
  | endCase {loop : Option LoopFrame} {a : Nat} : Written loop [] a a [.jump .endCase]
  | separator {loop : Option LoopFrame} {a : Nat} : Written loop [] a a [.separator]
  | verbatim {loop : Option LoopFrame} {a : Nat} (s : String) : Written loop [] a a [.verbatim s]
  | plain {loop : Option LoopFrame} {a b c : Nat} {ps : List Path} {header : Fragment}
      {body : List Code} :
      WrittenFragment a b header → Written loop ps b c body →
        Written loop ps a c [.block .plain header body ""]
  | switch {loop : Option LoopFrame} {a b c : Nat} {ps : List Path} {header : Fragment}
      {body : List Code} :
      WrittenFragment a b header → Written (loop.map LoopFrame.enterSwitch) ps b c body →
        Written loop (Path.allInside .switch ps) a c [.block .switch header body ""]
  /-- A loop takes the first number behind its header. -/
  | loop {loop : Option LoopFrame} {a b c : Nat} {ps : List Path} {header : Fragment}
      {body : List Code} :
      WrittenFragment a b header → Written (some ⟨b, false⟩) ps (b + 1) c body →
        Written loop (Path.allInside (.loop none) ps) a c (loopCode b header body)
  /-- A function is a body of its own. -/
  | function {loop : Option LoopFrame} {a b c : Nat} {ps : List Path} {header : Fragment}
      {body : List Code} :
      WrittenFragment a b header → Written none ps b c body →
        Written loop [] a c [.block .function header body ""]
  | braces {loop : Option LoopFrame} {a b : Nat} {ps : List Path} {body : List Code} :
      Written loop ps a b body → Written loop ps a b [.braces body]
  | indented {loop : Option LoopFrame} {a b : Nat} {ps : List Path} {body : List Code} :
      Written loop ps a b body → Written loop ps a b [.indented body]

end

variable {a b c : Nat} {f g : Fragment} {fs : List Fragment} {loop : Option LoopFrame}
  {ps : List Path} {cs : List Code}

namespace WrittenFragment

theorem text_append (s : String) (h : WrittenFragment a b f) :
    WrittenFragment a b (Fragment.text s ++ f) :=
  (WrittenFragment.text s).append h

theorem append_text (h : WrittenFragment a b f) (s : String) :
    WrittenFragment a b (f ++ Fragment.text s) :=
  h.append (WrittenFragment.text s)

theorem parens (h : WrittenFragment a b f) : WrittenFragment a b f.parens :=
  (h.text_append "(").append_text ")"

theorem grouped (e : Expr) (h : WrittenFragment a b f) :
    WrittenFragment a b (CSharp.grouped e f) := by
  unfold CSharp.grouped
  split
  · exact h.parens
  · exact h

theorem invoked {body : List Code} (h : Written none ps a b body) :
    WrittenFragment a b (CSharp.invoked body) :=
  ((closure h).text_append _).append_text _

/-- Plain text uses no label. -/
theorem eq_of_allChars {p : Char → Bool} {a b : Nat} {f : Fragment} :
    WrittenFragment a b f → f.allChars p = true → a = b
  | .nil, _ => rfl
  | .text _, _ => rfl
  | .append hf hg, h =>
    have h := Fragment.allChars_append.mp h
    (eq_of_allChars hf h.1).trans (eq_of_allChars hg h.2)
  | .prepend hf hg, h =>
    have h := Fragment.allChars_append.mp h
    (eq_of_allChars hf h.2).trans (eq_of_allChars hg h.1)
  | .closure _, h => absurd h Bool.false_ne_true
  | .noArms, h => absurd h Bool.false_ne_true
  | .arm _ _, h => absurd h Bool.false_ne_true

end WrittenFragment

/-- Fragments that are written one after the other. -/
inductive WrittenFragments : Nat → Nat → List Fragment → Prop
  | nil {a : Nat} : WrittenFragments a a []
  | cons {a b c : Nat} {f : Fragment} {fs : List Fragment} :
      WrittenFragment a b f → WrittenFragments b c fs → WrittenFragments a c (f :: fs)

namespace WrittenFragments

theorem join (sep : String) (h : WrittenFragments a b fs) :
    WrittenFragment a b (Fragment.join sep fs) := by
  induction h with
  | nil => exact .nil
  | @cons a b c f fs hf hfs ih =>
    cases fs with
    | nil =>
      -- The last fragment has no separator behind it.
      cases hfs
      exact hf
    | cons g gs => exact (hf.append_text sep).append ih

theorem arms (h : WrittenFragments a b fs) : WrittenFragment a b [.arms fs] := by
  induction h with
  | nil => exact .noArms
  | cons hf _ ih => exact .arm hf ih

/-- Each fragment on a line of its own, with some text around it. -/
theorem lines (before after : String) (h : WrittenFragments a b fs) :
    Written loop [] a b
      (fs.map fun f => .line (Fragment.text before ++ f ++ Fragment.text after)) := by
  induction h with
  | nil => exact .nil
  | cons hf _ ih =>
    exact (Written.line ((hf.text_append before).append_text after)).append ih

end WrittenFragments

/-- An optional fragment; without one no label is used. -/
def WrittenOption (a b : Nat) : Option Fragment → Prop
  | none => a = b
  | some f => WrittenFragment a b f

namespace WrittenOption

variable {o : Option Fragment}

theorem getD (h : WrittenOption a b o) {d : Fragment} (hd : ∀ n, WrittenFragment n n d) :
    WrittenFragment a b (o.getD d) := by
  cases o with
  | none =>
    obtain rfl := h
    exact hd a
  | some f => exact h

theorem elim (h : WrittenOption a b o) (s : String) :
    WrittenFragment a b (o.elim [] (Fragment.text s ++ ·)) := by
  cases o with
  | none =>
    obtain rfl := h
    exact .nil
  | some f => exact h.text_append s

end WrittenOption

namespace Written

theorem text (s : String) : Written loop [] a a [.text s] :=
  line (WrittenFragment.text s)

/-- Code behind which a closing line is written unless the block has one. -/
theorem append_text (h : Written loop ps a b cs) (s : String) :
    Written loop ps a b (cs ++ [.text s]) := by
  simpa using h.append (text s)

theorem effectLine (e : Expr) (h : WrittenFragment a b f) :
    Written loop [] a b [CSharp.effectLine e f] := by
  unfold CSharp.effectLine
  split
  · exact line (h.append_text ";")
  · exact line ((h.text_append "_ = ").append_text ";")

theorem caseBlock (block : List Stmt) (h : Written loop ps a b cs) :
    Written loop ps a b (CSharp.caseBlock block cs) := by
  have hclosed : Written loop ps a b
      (if Stmt.endsWithJump block then cs else cs ++ [.jump .endCase]) := by
    split
    · exact h
    · simpa using h.append endCase
  by_cases hvar : block.any declaresVariable
  · simp only [CSharp.caseBlock, hvar, if_true]
    exact braces hclosed
  · simp only [CSharp.caseBlock, hvar]
    exact hclosed

/-- One case: its labels, and its body one level deeper. -/
theorem case {labels body rest : List Code} {qs : List Path} {d : Nat}
    (hlabels : Written loop [] a b labels) (hbody : Written loop ps b c body)
    (hrest : Written loop qs c d rest) :
    Written loop (ps ++ qs) a d (labels ++ .indented body :: rest) := by
  simpa using hlabels.append ((indented hbody).append hrest)

end Written

end CSharp

end SourceGen
