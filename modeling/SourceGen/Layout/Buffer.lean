import SourceGen.Text.Basic
import SourceGen.Text.Blank
import SourceGen.Text.Lines

/-!
# Text buffers

A buffer collects target text line by line at a level of indentation. Separators between members
are written eagerly and dropped again when nothing follows them, so a block never starts or ends
with a blank line.

## Main definitions

* `BraceStyle`: where an opening brace goes.
* `Buffer`: the text so far, with the level of indentation.
* `Buffer.line`, `Buffer.openBlock`, `Buffer.closeBlock`, `Buffer.separator`, …: what can be
  written.
* `Buffer.finish`: the finished text.
-/

namespace SourceGen

/-- Where an opening brace goes: behind its header or on the next line. -/
inductive BraceStyle where
  | sameLine | nextLine
  deriving DecidableEq, Repr

/-- Text under construction. The characters are kept in reverse, the newest first. -/
structure Buffer where
  reversed : List Char := []
  level : Nat := 0
  indentWidth : Nat := 4
  style : BraceStyle := .sameLine

namespace Buffer

/-- An empty buffer. -/
def new (indentWidth : Nat) (style : BraceStyle) : Buffer :=
  { indentWidth, style }

/-- The text so far. -/
def text (b : Buffer) : String :=
  String.ofList b.reversed.reverse

/-- Nothing was written yet. -/
def isEmpty (b : Buffer) : Bool :=
  b.reversed.isEmpty

/-- The blanks in front of a line `extra` levels deeper than the current one. -/
def indentAt (b : Buffer) (extra : Nat) : String :=
  Text.replicate ((b.level + extra) * b.indentWidth) " "

/-- The blanks in front of a line at the current level. -/
def currentIndent (b : Buffer) : String :=
  b.indentAt 0

/-- Adds text. -/
def write (b : Buffer) (s : String) : Buffer :=
  { b with reversed := s.toList.reverse ++ b.reversed }

theorem text_write (b : Buffer) (s : String) : (b.write s).text = b.text ++ s := by
  simp [text, write]

/-- Adds the blanks of the current level. -/
def writeIndent (b : Buffer) : Buffer :=
  b.write b.currentIndent

/-- Ends a line. -/
def blankLine (b : Buffer) : Buffer :=
  b.write "\n"

/-- Adds a line at the current level. -/
def line (b : Buffer) (s : String) : Buffer :=
  ((b.writeIndent).write s).blankLine

/-- A separator would follow nothing, an opening brace or another blank line. -/
def needsNoSeparator : List Char → Bool
  | [] => true
  | '\n' :: '\x7b' :: _ => true
  | '\n' :: '\n' :: _ => true
  | _ => false

/-- Adds a blank line, unless there is nothing to separate from. -/
def separator (b : Buffer) : Buffer :=
  if needsNoSeparator b.reversed then b else b.blankLine

/-- The reversed text without blank lines at its end. -/
def dropBlankTail : List Char → List Char
  | '\n' :: '\n' :: cs => dropBlankTail ('\n' :: cs)
  | cs => cs

/-- Drops blank lines at the end. -/
def trimTail (b : Buffer) : Buffer :=
  { b with reversed := dropBlankTail b.reversed }

/-- Goes one level deeper. -/
def indent (b : Buffer) : Buffer :=
  { b with level := b.level + 1 }

/-- Goes back one level; at the margin nothing changes. -/
def dedent (b : Buffer) : Buffer :=
  { b with level := b.level - 1 }

/-- Adds a header with an opening brace, and goes one level deeper. -/
def openBlock (b : Buffer) (header : String) : Buffer :=
  match b.style with
  | .sameLine => (b.line (header ++ " \x7b")).indent
  | .nextLine => ((b.line header).line "\x7b").indent

/-- Goes back one level and adds the closing brace with what follows it. -/
def closeBlock (b : Buffer) (suffix : String) : Buffer :=
  b.trimTail.dedent.line ("\x7d" ++ suffix)

/-- Adds every line of a text at the current level; blank lines get no indentation. -/
def verbatim (b : Buffer) (s : String) : Buffer :=
  (Text.lines s).foldl (fun b l => if Text.isBlankText l then b.blankLine else b.line l) b

/-- Adds a comment line. -/
def comment (b : Buffer) (s : String) : Buffer :=
  b.line ("// " ++ s)

/-- The buffer with its text taken out. -/
def takeText (b : Buffer) : Buffer :=
  { b with reversed := [] }

/-- The buffer with another text in place of its own. -/
def withText (b : Buffer) (s : String) : Buffer :=
  { b with reversed := s.toList.reverse }

/-- The finished text. -/
def finish (b : Buffer) : String :=
  b.trimTail.text

end Buffer

end SourceGen
