import SourceGen.Layout.Buffer
import SourceGen.Layout.Code

/-!
# Rendering code trees

Writes a code tree into a buffer. Nested code in a line is laid out relative to the level of that
line: its own lines one level deeper, its closing brace at the level of the line.

## Main definitions

* `Code.writeAll`: writes items into a buffer.
* `Piece.renderAll`: the text of a fragment at a depth.
* `Code.render`: the text of a whole tree.
-/

namespace SourceGen

/-- What decides the layout of a tree: the width of a level and where braces go. -/
structure LayoutStyle where
  indentWidth : Nat
  braces : BraceStyle

namespace LayoutStyle

/-- The blanks in front of a line at a depth. -/
def margin (style : LayoutStyle) (depth : Nat) : String :=
  Text.replicate (depth * style.indentWidth) " "

/-- An empty buffer at a depth. -/
def buffer (style : LayoutStyle) (depth : Nat) : Buffer :=
  { level := depth, indentWidth := style.indentWidth, style := style.braces }

end LayoutStyle

/-- The layout of a buffer. -/
def Buffer.layout (b : Buffer) : LayoutStyle :=
  ⟨b.indentWidth, b.style⟩

/-- The text of the label behind a loop. -/
def Code.exitText (loop : Nat) : String :=
  "loop_exit_" ++ toString loop ++ ": ;"

mutual

/-- The text of a piece in a line at `depth`. -/
def Piece.render (style : LayoutStyle) (depth : Nat) : Piece → String
  | .text s => s
  | .nested _ body =>
    -- Unlike a block, nested code keeps blank lines in front of its closing brace.
    "\x7b\n" ++ (Code.writeAll body (style.buffer (depth + 1))).text ++ style.margin depth ++ "\x7d"
  | .arms arms =>
    (match style.braces with
      | .sameLine => " \x7b\n"
      | .nextLine => "\n" ++ style.margin depth ++ "\x7b\n") ++
      Piece.renderArms style (depth + 1) arms ++ style.margin depth ++ "\x7d"
  | .apart content => Piece.renderAll style depth content

/-- The text of a fragment in a line at `depth`. -/
def Piece.renderAll (style : LayoutStyle) (depth : Nat) : List Piece → String
  | [] => ""
  | p :: ps => p.render style depth ++ Piece.renderAll style depth ps

/-- The lines of some arms at `depth`. -/
def Piece.renderArms (style : LayoutStyle) (depth : Nat) : List (List Piece) → String
  | [] => ""
  | arm :: arms =>
    style.margin depth ++ Piece.renderAll style depth arm ++ ",\n" ++
      Piece.renderArms style depth arms

/-- Writes an item into a buffer. -/
def Code.write : Code → Buffer → Buffer
  | .line content, b => b.line (Piece.renderAll b.layout b.level content)
  | .hung content, b => b.line (Piece.renderAll b.layout (b.level - 1) content)
  | .jump jump, b => b.line jump.text
  | .exitLabel loop, b => b.line (Code.exitText loop)
  | .blank, b => b.blankLine
  | .separator, b => b.separator
  | .verbatim text, b => b.verbatim text
  | .block _ header body suffix, b =>
    (Code.writeAll body (b.openBlock (Piece.renderAll b.layout b.level header))).closeBlock suffix
  | .braces body, b => (Code.writeAll body (b.line "\x7b").indent).closeBlock ""
  | .indented body, b => (Code.writeAll body b.indent).dedent
  | .chain branches, b => (Branch.writeFirst branches b).closeBlock ""

/-- Writes items into a buffer. -/
def Code.writeAll : List Code → Buffer → Buffer
  | [], b => b
  | c :: cs, b => Code.writeAll cs (c.write b)

/-- Writes a chain up to its last closing brace; without branches it is an empty block. -/
def Branch.writeFirst : List Branch → Buffer → Buffer
  | [], b => b.openBlock ""
  | .mk header body :: branches, b =>
    Branch.writeRest branches
      (Code.writeAll body (b.openBlock (Piece.renderAll b.layout b.level header)))

/-- Writes the branches after the first; each starts on the line that closes the one before. -/
def Branch.writeRest : List Branch → Buffer → Buffer
  | [], b => b
  | .mk header body :: branches, b =>
    let outer := b.dedent
    Branch.writeRest branches
      (Code.writeAll body
        (outer.line ("\x7d " ++ Piece.renderAll outer.layout outer.level header ++ " \x7b")).indent)

end

/-- The text of a whole tree. -/
def Code.render (style : LayoutStyle) (code : List Code) : String :=
  (Code.writeAll code (style.buffer 0)).finish

end SourceGen
