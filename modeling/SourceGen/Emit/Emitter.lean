import SourceGen.Layout.Buffer
import SourceGen.Omission

/-!
# Emitters

A unit can be written without a code tree, straight into a buffer. What a tree says about the place
of a line is then a state that changes on the way: the level of the buffer, how much deeper a
fragment stands than its line, and the loops that are open. Whoever changes the state has to change
it back. A step back from the margin is not refused and changes no level, so the emitter counts such
steps.

## Main definitions

* `OpenLoop`, `Emitter`: the state.
* `Emit`: a computation that changes the state, writes a journal and may fail.
* `Emit.line`, `Emit.openBlock`, `Emit.closeBlock`, …: the steps.
* `Emit.capture`: what is written to the side, for use in a line.
-/

namespace SourceGen

/-- A loop that is being written. -/
structure OpenLoop where
  number : Nat
  /-- The switches that are open between the loop and the current statement. -/
  switchDepth : Nat := 0
  /-- Something jumps to the label behind the loop. -/
  exitUsed : Bool := false
  deriving DecidableEq, Repr

/-- The label behind a loop. -/
def OpenLoop.label (loop : OpenLoop) : String :=
  "loop_exit_" ++ toString loop.number

/-- The state of an emitter. -/
structure Emitter where
  out : Buffer
  /-- How many levels deeper than its line the current fragment stands. -/
  nesting : Nat := 0
  /-- The innermost first. -/
  loops : List OpenLoop := []
  /-- The steps back that were made at the margin. -/
  slips : Nat := 0

namespace Emitter

/-- Changes the buffer. -/
def write (f : Buffer → Buffer) (e : Emitter) : Emitter :=
  { e with out := f e.out }

/-- Goes one level deeper. -/
def indent (e : Emitter) : Emitter :=
  e.write Buffer.indent

/-- Goes back one level; at the margin that is a slip. -/
def dedent (e : Emitter) : Emitter :=
  { e with out := e.out.dedent, slips := if e.out.level = 0 then e.slips + 1 else e.slips }

/-- Goes some levels deeper. -/
def indentBy : Nat → Emitter → Emitter
  | 0, e => e
  | n + 1, e => indentBy n e.indent

/-- Goes back some levels. -/
def dedentBy : Nat → Emitter → Emitter
  | 0, e => e
  | n + 1, e => dedentBy n e.dedent

/-- Drops blank lines at the end, goes back one level and adds the closing brace. -/
def closeBlock (suffix : String) (e : Emitter) : Emitter :=
  (e.write Buffer.trimTail).dedent.write (·.line ("\x7d" ++ suffix))

/-- The blanks in front of a line of the current fragment, `extra` levels deeper than it. -/
def margin (extra : Nat) (e : Emitter) : String :=
  e.out.indentAt (e.nesting + extra)

/-- Changes the innermost loop. -/
def onInnermost (f : OpenLoop → OpenLoop) (e : Emitter) : Emitter :=
  { e with
    loops :=
      match e.loops with
      | [] => []
      | loop :: loops => f loop :: loops }

/-- Opens a loop. -/
def pushLoop (loop : OpenLoop) (e : Emitter) : Emitter :=
  { e with loops := loop :: e.loops }

/-- Leaves the innermost loop. From inside a switch the way out is the label behind the loop, which
comes into use. -/
def breakLoop (e : Emitter) : Emitter :=
  match e.loops with
  | loop :: _ =>
    if 0 < loop.switchDepth then
      (e.onInnermost ({ · with exitUsed := true })).write (·.line ("goto " ++ loop.label ++ ";"))
    else e.write (·.line "break;")
  | [] => e.write (·.line "break;")

end Emitter

/-- A computation that changes the state of an emitter, writes a journal and may fail. -/
abbrev Emit (α : Type) : Type :=
  StateT Emitter Gen α

namespace Emit

/-! ### Steps -/

/-- Changes the state. -/
def step (f : Emitter → Emitter) : Emit Unit :=
  fun e => pure ((), f e)

/-- Reads off the state. -/
def look {α : Type} (f : Emitter → α) : Emit α :=
  fun e => pure (f e, e)

/-- Reads off the state, then changes it. -/
def take {α : Type} (f : Emitter → α) (g : Emitter → Emitter) : Emit α :=
  fun e => pure (f e, g e)

/-- Adds a line. -/
def line (s : String) : Emit Unit :=
  step (·.write (·.line s))

/-- Adds a line, unless it is not needed. -/
def lineUnless (needless : Bool) (s : String) : Emit Unit :=
  step fun e => if needless then e else e.write (·.line s)

/-- Adds some lines. -/
def lines : List String → Emit Unit
  | [] => return
  | s :: ss => do
    line s
    lines ss

/-- Adds a comment line. -/
def comment (s : String) : Emit Unit :=
  step (·.write (·.comment s))

/-- Ends a line. -/
def blankLine : Emit Unit :=
  step (·.write Buffer.blankLine)

/-- Adds a blank line, unless there is nothing to separate from. -/
def separator : Emit Unit :=
  step (·.write Buffer.separator)

/-- Adds every line of a text. -/
def verbatim (s : String) : Emit Unit :=
  step (·.write (·.verbatim s))

/-- Goes one level deeper. -/
def indent : Emit Unit :=
  step Emitter.indent

/-- Goes back one level. -/
def dedent : Emit Unit :=
  step Emitter.dedent

/-- Adds a header with an opening brace, and goes one level deeper. -/
def openBlock (header : String) : Emit Unit :=
  step (·.write (·.openBlock header))

/-- Goes back one level and adds the closing brace with what follows it. -/
def closeBlock (suffix : String) : Emit Unit :=
  step (Emitter.closeBlock suffix)

/-- Opens a block without a header, if that is needed. -/
def openBraces (needed : Bool) : Emit Unit :=
  step fun e => if needed then (e.write (·.line "\x7b")).indent else e

/-- Closes a block without a header, if one was needed. -/
def closeBraces (needed : Bool) : Emit Unit :=
  step fun e => if needed then e.closeBlock "" else e

/-! ### Fragments -/

/-- The blanks in front of the last line of the current fragment. -/
def fragmentIndent : Emit String :=
  look (Emitter.margin 0)

/-- Writes the parts of a fragment that stand one level deeper than it. -/
def deeper {α : Type} (parts : Emit α) : Emit α := do
  step fun e => { e with nesting := e.nesting + 1 }
  let result ← parts
  step fun e => { e with nesting := e.nesting - 1 }
  return result

/-- Swaps in an empty buffer and returns the text of the old one. -/
def beginCapture : Emit String :=
  take (·.out.text) (·.write Buffer.takeText)

/-- Puts a saved text back and returns what was written in between. -/
def endCapture (saved : String) : Emit String :=
  take (·.out.text) (·.write (·.withText saved))

/-- Writes into an empty buffer, one level deeper than the current fragment, and returns the
text. -/
def capture (body : Emit Unit) : Emit String := do
  let extra ← look (·.nesting + 1)
  let saved ← beginCapture
  step (Emitter.indentBy extra)
  let nesting ← take Emitter.nesting ({ · with nesting := 0 })
  body
  step ({ · with nesting })
  step (Emitter.dedentBy extra)
  endCapture saved

/-- Writes what no jump leaves: the loops around it are put away and brought back. -/
def withoutLoops (body : Emit Unit) : Emit Unit := do
  let loops ← take Emitter.loops ({ · with loops := [] })
  body
  step ({ · with loops })

end Emit

/-! ### What a target leaves out -/

namespace TargetName

/-- Writes raw text, unless it is written for another target. -/
def emitRaw (target : TargetName) (raw : RawBlock) : Emit Unit :=
  match raw.target with
  | some name =>
    if target.accepts name then Emit.verbatim raw.code
    else
      Gen.report ((Diagnostic.info ("raw block for `" ++ name ++ "` skipped")).withContext
        target.id)
  | none => Emit.verbatim raw.code

/-- Writes raw blocks one after the other. -/
def emitRaws (target : TargetName) : List RawBlock → Emit Unit
  | [] => return
  | raw :: raws => do
    target.emitRaw raw
    target.emitRaws raws

/-- Writes raw blocks, with separators in front of them. -/
def emitSeparatedRaws (target : TargetName) : List RawBlock → Emit Unit
  | [] => return
  | raw :: raws => do
    Emit.separator
    target.emitRaw raw
    target.emitSeparatedRaws raws

/-- Reports and refuses a statement that cannot stand in a body. -/
def emitRefusal (target : TargetName) (scope : Scope) (s : Stmt) : Emit Unit :=
  Gen.report ((Diagnostic.warning
    (s.kindName ++ " is not allowed inside a function body; skipped")).withContext
    (scope.className.getD target.id))

end TargetName

end SourceGen
