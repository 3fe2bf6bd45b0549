import SourceGen.Text.Basic

/-!
# Code trees

Target code before it becomes text: lines, blocks and jumps. A line holds a fragment, a sequence of
pieces of text and of nested code such as the body of a closure. Indentation is no part of a tree;
the renderer adds it.

## Main definitions

* `Piece`, `Fragment`: the content of a line.
* `Code`: lines, blocks and the other layout items.
* `Jump`: the ways control leaves a place.
* `BlockRole`: what a block is for, as far as jumps are concerned.
-/

namespace SourceGen

/-- A jump in target code. -/
inductive Jump where
  /-- Leaves the innermost loop or switch. -/
  | leaveInnermost
  /-- Starts the next round of the innermost loop. -/
  | nextRound
  /-- Goes behind the loop with this number. -/
  | leaveLoop (loop : Nat)
  /-- Goes behind the labelled body with this number. -/
  | leaveBody (body : Nat)
  /-- Ends a case that would fall through. -/
  | endCase
  deriving DecidableEq, Repr

/-- The text of a jump. -/
def Jump.text : Jump → String
  | leaveInnermost => "break;"
  | nextRound => "continue;"
  | leaveLoop loop => "goto loop_exit_" ++ toString loop ++ ";"
  | leaveBody body => "break 'body_" ++ toString body ++ ";"
  | endCase => "break;"

/-- What a block is for. -/
inductive BlockRole where
  /-- A branch, a declaration or anything else that jumps pass through. -/
  | plain
  /-- A loop; in targets that may need to leave it from inside a switch it has a number. -/
  | loop (number : Option Nat)
  /-- A multi-way branch. -/
  | switch
  /-- The labelled body of a loop. -/
  | labelled (number : Nat)
  /-- The body of a function. -/
  | function
  deriving DecidableEq, Repr

/-- What nested code in a fragment is for. -/
inductive NestedRole where
  /-- The body of a closure, which no jump leaves. -/
  | closure
  /-- A block that is a value. -/
  | value
  deriving DecidableEq, Repr

mutual

/-- A part of a line. -/
inductive Piece where
  | text (s : String)
  /-- Code between braces that stand at the ends of their lines. -/
  | nested (role : NestedRole) (body : List Code)
  /-- Arms between braces, each on a line of its own with a comma behind it. -/
  | arms (arms : List (List Piece))
  /-- A part that no jump leaves: the value of a closure, or the arguments of an attribute. -/
  | apart (content : List Piece)

/-- An item of target code. -/
inductive Code where
  /-- A line of its own. -/
  | line (content : List Piece)
  /-- A line whose nested code is laid out as if the line stood one level further out. -/
  | hung (content : List Piece)
  | jump (jump : Jump)
  /-- The label behind the loop with this number. -/
  | exitLabel (loop : Nat)
  | blank
  /-- A blank line, if there is something to separate. -/
  | separator
  /-- Text that is passed through line by line. -/
  | verbatim (text : String)
  | block (role : BlockRole) (header : List Piece) (body : List Code) (suffix : String)
  /-- A block without a header. -/
  | braces (body : List Code)
  /-- Code one level deeper, without braces. -/
  | indented (body : List Code)
  /-- Branches whose headers share a line with the closing brace of the branch before. -/
  | chain (branches : List Branch)

/-- One branch of a chain: the text between the braces around it, and its code. -/
inductive Branch where
  | mk (header : List Piece) (body : List Code)

end

/-- The content of a line. -/
abbrev Fragment :=
  List Piece

mutual

/-- The piece is plain text, and every character of it satisfies `p`. -/
def Piece.allChars (p : Char → Bool) : Piece → Bool
  | .text s => s.toList.all p
  | .apart content => Piece.areAllChars p content
  | .nested _ _ | .arms _ => false

/-- The pieces are plain text, and every character of them satisfies `p`. -/
def Piece.areAllChars (p : Char → Bool) : List Piece → Bool
  | [] => true
  | q :: qs => q.allChars p && Piece.areAllChars p qs

end

theorem Piece.areAllChars_eq (p : Char → Bool) (qs : List Piece) :
    Piece.areAllChars p qs = qs.all (·.allChars p) := by
  induction qs with
  | nil => rfl
  | cons q qs ih => rw [Piece.areAllChars, List.all_cons, ih]

namespace Fragment

/-- A fragment of plain text. -/
def text (s : String) : Fragment :=
  [.text s]

/-- The fragments with `sep` between them. -/
def join (sep : String) : List Fragment → Fragment
  | [] => []
  | [f] => f
  | f :: fs => f ++ text sep ++ join sep fs

/-- The fragment between parentheses. -/
def parens (f : Fragment) : Fragment :=
  text "(" ++ f ++ text ")"

/-- The fragment is plain text, and every character of it satisfies `p`. -/
def allChars (p : Char → Bool) (f : Fragment) : Bool :=
  f.all (·.allChars p)

/-- A fragment in two parts satisfies `p` when both parts do. -/
theorem allChars_append {p : Char → Bool} {f g : Fragment} :
    allChars p (f ++ g) = true ↔ f.allChars p = true ∧ g.allChars p = true := by
  rw [allChars, allChars, allChars, List.all_append, Bool.and_eq_true]

/-- The fragment has no text at all. -/
def isBlank (f : Fragment) : Bool :=
  allChars (fun _ => false) f

end Fragment

namespace Code

/-- A line of plain text. -/
def text (s : String) : Code :=
  .line (Fragment.text s)

/-- A comment line. -/
def comment (f : Fragment) : Code :=
  .line (Fragment.text "// " ++ f)

mutual

/-- The item jumps behind the loop with this number, not counting closures and functions in it. -/
def leaves (loop : Nat) : Code → Bool
  | .jump (.leaveLoop n) => n == loop
  | .block .function _ _ _ => false
  | .block _ _ body _ => anyLeaves loop body
  | .braces body => anyLeaves loop body
  | .indented body => anyLeaves loop body
  | .chain branches => anyBranchLeaves loop branches
  | _ => false

/-- One of the items jumps behind the loop with this number. -/
def anyLeaves (loop : Nat) : List Code → Bool
  | [] => false
  | c :: cs => c.leaves loop || anyLeaves loop cs

/-- One of the branches jumps behind the loop with this number. -/
def anyBranchLeaves (loop : Nat) : List Branch → Bool
  | [] => false
  | .mk _ body :: branches => anyLeaves loop body || anyBranchLeaves loop branches

end

end Code

end SourceGen
