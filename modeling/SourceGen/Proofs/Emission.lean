import SourceGen.Emit.Emitter
import SourceGen.Layout.Render
import SourceGen.Proofs.Yields

/-!
# Emitters and generators

An emitter writes into a buffer what a generator would put into a code tree. It follows the
generator if from every state its result and the state behind it can be read off what the generator
yields: for an expression, the fragment rendered where it stands, with the state unchanged; for
code, the buffer with the tree laid out behind what was there. So whatever the emitter has changed
on its way it has changed back, since in a tree there is nothing to change.

## Main definitions

* `Code.writeAllAt`: the layout of a tree in a line of a fragment.
* `Emitter.render`, `Emitter.put`: the text of a fragment, and the state behind some code.
* `Emit.Follows`: an emitter that does what a generator does.

## Main results

* `Emit.Follows.bind`, `Emit.Follows.step`, …: the rules for sequences.
* `Emit.Follows.capture`: what is written to the side.
-/

namespace SourceGen

/-! ### Writing while a fragment is open -/

mutual

/-- Writes an item whose fragments stand `extra` levels deeper than their lines. -/
def Code.writeAt (extra : Nat) : Code → Buffer → Buffer
  | .line content, b => b.line (Piece.renderAll b.layout (b.level + extra) content)
  | .hung content, b => b.line (Piece.renderAll b.layout (b.level - 1 + extra) content)
  | .block _ header body suffix, b =>
    (Code.writeAllAt extra body
      (b.openBlock (Piece.renderAll b.layout (b.level + extra) header))).closeBlock suffix
  | .braces body, b => (Code.writeAllAt extra body (b.line "\x7b").indent).closeBlock ""
  | .indented body, b => (Code.writeAllAt extra body b.indent).dedent
  | .chain branches, b => (Branch.writeFirstAt extra branches b).closeBlock ""
  | c, b => c.write b

/-- Writes items whose fragments stand `extra` levels deeper than their lines. -/
def Code.writeAllAt (extra : Nat) : List Code → Buffer → Buffer
  | [], b => b
  | c :: cs, b => Code.writeAllAt extra cs (c.writeAt extra b)

/-- Writes a chain up to its last closing brace; without branches it is an empty block. -/
def Branch.writeFirstAt (extra : Nat) : List Branch → Buffer → Buffer
  | [], b => b.openBlock ""
  | .mk header body :: branches, b =>
    Branch.writeRestAt extra branches
      (Code.writeAllAt extra body
        (b.openBlock (Piece.renderAll b.layout (b.level + extra) header)))

/-- Writes the branches after the first. -/
def Branch.writeRestAt (extra : Nat) : List Branch → Buffer → Buffer
  | [], b => b
  | .mk header body :: branches, b =>
    let outer := b.dedent
    let shown := Piece.renderAll outer.layout (outer.level + extra) header
    Branch.writeRestAt extra branches
      (Code.writeAllAt extra body (outer.line ("\x7d " ++ shown ++ " \x7b")).indent)

end

mutual

/-- While no fragment is open, that is the layout. -/
theorem Code.writeAt_zero : ∀ (c : Code) (b : Buffer), c.writeAt 0 b = c.write b
  | .line _, b | .hung _, b => rfl
  | .jump _, b | .exitLabel _, b | .blank, b | .separator, b | .verbatim _, b => rfl
  | .block _ header body suffix, b => by
    rw [Code.writeAt, Code.write, Code.writeAllAt_zero]
    rfl
  | .braces body, b => by
    rw [Code.writeAt, Code.write, Code.writeAllAt_zero]
  | .indented body, b => by
    rw [Code.writeAt, Code.write, Code.writeAllAt_zero]
  | .chain branches, b => by
    rw [Code.writeAt, Code.write, Branch.writeFirstAt_zero]

/-- At no extra depth, code is written as it is rendered. -/
theorem Code.writeAllAt_zero : ∀ (cs : List Code) (b : Buffer),
    Code.writeAllAt 0 cs b = Code.writeAll cs b
  | [], b => rfl
  | c :: cs, b => by
    rw [Code.writeAllAt, Code.writeAll, Code.writeAt_zero, Code.writeAllAt_zero]

theorem Branch.writeFirstAt_zero : ∀ (branches : List Branch) (b : Buffer),
    Branch.writeFirstAt 0 branches b = Branch.writeFirst branches b
  | [], b => rfl
  | .mk header body :: branches, b => by
    rw [Branch.writeFirstAt, Branch.writeFirst, Branch.writeRestAt_zero, Code.writeAllAt_zero]
    rfl

theorem Branch.writeRestAt_zero : ∀ (branches : List Branch) (b : Buffer),
    Branch.writeRestAt 0 branches b = Branch.writeRest branches b
  | [], b => rfl
  | .mk header body :: branches, b => by
    rw [Branch.writeRestAt, Branch.writeRest, Branch.writeRestAt_zero, Code.writeAllAt_zero]
    rfl

end

/-! ### Margins -/

namespace Buffer

variable (b : Buffer) (s : String)

@[simp] theorem level_openBlock : (b.openBlock s).level = b.level + 1 := by
  unfold openBlock
  split <;> rfl

@[simp] theorem layout_openBlock : (b.openBlock s).layout = b.layout := by
  unfold openBlock
  split <;> rfl

@[simp] theorem level_closeBlock : (b.closeBlock s).level = b.level - 1 := rfl

@[simp] theorem layout_closeBlock : (b.closeBlock s).layout = b.layout := rfl

@[simp] theorem level_line : (b.line s).level = b.level := rfl

@[simp] theorem layout_line : (b.line s).layout = b.layout := rfl

@[simp] theorem level_blankLine : b.blankLine.level = b.level := rfl

@[simp] theorem layout_blankLine : b.blankLine.layout = b.layout := rfl

@[simp] theorem level_comment : (b.comment s).level = b.level := rfl

@[simp] theorem layout_comment : (b.comment s).layout = b.layout := rfl

@[simp] theorem level_indent : b.indent.level = b.level + 1 := rfl

@[simp] theorem layout_indent : b.indent.layout = b.layout := rfl

@[simp] theorem level_dedent : b.dedent.level = b.level - 1 := rfl

@[simp] theorem layout_dedent : b.dedent.layout = b.layout := rfl

@[simp] theorem level_separator : b.separator.level = b.level := by
  unfold separator
  split <;> rfl

@[simp] theorem layout_separator : b.separator.layout = b.layout := by
  unfold separator
  split <;> rfl

/-- Text that is passed through moves no line behind it. -/
theorem verbatim_layout : (b.verbatim s).level = b.level ∧ (b.verbatim s).layout = b.layout := by
  unfold verbatim
  induction Text.lines s generalizing b with
  | nil => exact ⟨rfl, rfl⟩
  | cons l ls ih =>
    rw [List.foldl_cons]
    split
    · exact ih b.blankLine
    · exact ih (b.line l)

@[simp] theorem level_verbatim : (b.verbatim s).level = b.level := (b.verbatim_layout s).1

@[simp] theorem layout_verbatim : (b.verbatim s).layout = b.layout := (b.verbatim_layout s).2

/-- The next line starts where it would start behind the other buffer. -/
def SameMargin (b b' : Buffer) : Prop :=
  b'.level = b.level ∧ b'.layout = b.layout

/-- A buffer with the margin of another one is that one with another text. -/
theorem SameMargin.withText {b b' : Buffer} (h : b.SameMargin b') : b'.withText b.text = b := by
  obtain ⟨_, _, _, _⟩ := b
  obtain ⟨_, _, _, _⟩ := b'
  simp_all [SameMargin, Buffer.withText, text, layout]

end Buffer

mutual

/-- Writing a line of code, whole blocks included, comes back to the margin it started at. -/
theorem Code.sameMargin_writeAt (extra : Nat) :
    ∀ (c : Code) (b : Buffer), b.SameMargin (c.writeAt extra b)
  | .line _, b | .hung _, b | .jump _, b | .exitLabel _, b | .blank, b => ⟨rfl, rfl⟩
  | .separator, b => ⟨b.level_separator, b.layout_separator⟩
  | .verbatim s, b => b.verbatim_layout s
  | .block _ header body suffix, b => by
    obtain ⟨hl, hs⟩ := Code.sameMargin_writeAllAt extra body
      (b.openBlock (Piece.renderAll b.layout (b.level + extra) header))
    simp [Buffer.SameMargin, Code.writeAt, hl, hs]
  | .braces body, b => by
    obtain ⟨hl, hs⟩ := Code.sameMargin_writeAllAt extra body (b.line "\x7b").indent
    simp [Buffer.SameMargin, Code.writeAt, hl, hs]
  | .indented body, b => by
    obtain ⟨hl, hs⟩ := Code.sameMargin_writeAllAt extra body b.indent
    simp [Buffer.SameMargin, Code.writeAt, hl, hs]
  | .chain branches, b => by
    obtain ⟨hl, hs⟩ := Branch.margin_writeFirstAt extra branches b
    simp [Buffer.SameMargin, Code.writeAt, hl, hs]

/-- Writing code comes back to the margin it started at. -/
theorem Code.sameMargin_writeAllAt (extra : Nat) :
    ∀ (cs : List Code) (b : Buffer), b.SameMargin (Code.writeAllAt extra cs b)
  | [], b => ⟨rfl, rfl⟩
  | c :: cs, b => by
    obtain ⟨hl, hs⟩ := Code.sameMargin_writeAt extra c b
    obtain ⟨hl', hs'⟩ := Code.sameMargin_writeAllAt extra cs (c.writeAt extra b)
    exact ⟨hl'.trans hl, hs'.trans hs⟩

theorem Branch.margin_writeFirstAt (extra : Nat) : ∀ (branches : List Branch) (b : Buffer),
    (Branch.writeFirstAt extra branches b).level = b.level + 1 ∧
      (Branch.writeFirstAt extra branches b).layout = b.layout
  | [], b => ⟨b.level_openBlock "", b.layout_openBlock ""⟩
  | .mk header body :: branches, b => by
    let opened := b.openBlock (Piece.renderAll b.layout (b.level + extra) header)
    obtain ⟨hl, hs⟩ := Code.sameMargin_writeAllAt extra body opened
    have hopen : 0 < (Code.writeAllAt extra body opened).level := by simp [hl, opened]
    obtain ⟨hl', hs'⟩ := Branch.sameMargin_writeRestAt extra branches _ hopen
    exact ⟨hl'.trans (hl.trans (b.level_openBlock _)), hs'.trans (hs.trans (b.layout_openBlock _))⟩

/-- A branch starts inside a block, and the step back in front of its header leads out of it. -/
theorem Branch.sameMargin_writeRestAt (extra : Nat) : ∀ (branches : List Branch) (b : Buffer),
    0 < b.level → b.SameMargin (Branch.writeRestAt extra branches b)
  | [], b, _ => ⟨rfl, rfl⟩
  | .mk header body :: branches, b, h => by
    let opened := (b.dedent.line ("\x7d " ++
      Piece.renderAll b.dedent.layout (b.dedent.level + extra) header ++ " \x7b")).indent
    obtain ⟨hl, hs⟩ := Code.sameMargin_writeAllAt extra body opened
    have hlevel : opened.level = b.level := Nat.succ_pred_eq_of_pos h
    obtain ⟨hl', hs'⟩ := Branch.sameMargin_writeRestAt extra branches
      (Code.writeAllAt extra body opened) (by omega)
    exact ⟨hl'.trans (hl.trans hlevel), hs'.trans hs⟩

end

/-! ### Rendered fragments -/

namespace Emitter

variable {st : Emitter}

/-- The text of a fragment where it stands. -/
def render (st : Emitter) (f : Fragment) : String :=
  Piece.renderAll st.out.layout (st.out.level + st.nesting) f

@[simp] theorem render_nil : st.render [] = "" := rfl

@[simp] theorem render_append (f g : Fragment) :
    st.render (f ++ g) = st.render f ++ st.render g := by
  unfold render
  induction f with
  | nil => simp [Piece.renderAll]
  | cons p ps ih => simp [Piece.renderAll, ih, String.append_assoc]

@[simp] theorem render_text (s : String) : st.render (Fragment.text s) = s := by
  simp [render, Fragment.text, Piece.renderAll, Piece.render]

@[simp] theorem render_parens (f : Fragment) : st.render f.parens = "(" ++ st.render f ++ ")" := by
  simp [Fragment.parens, String.append_assoc]

@[simp] theorem render_apart (f : Fragment) : st.render [.apart f] = st.render f := by
  simp [render, Piece.renderAll, Piece.render]

@[simp] theorem render_join (sep : String) : ∀ fs : List Fragment,
    st.render (Fragment.join sep fs) = Text.join sep (fs.map st.render)
  | [] => rfl
  | [f] => rfl
  | f :: g :: fs => by
    have hjoin : Fragment.join sep (f :: g :: fs) =
        f ++ Fragment.text sep ++ Fragment.join sep (g :: fs) := rfl
    rw [hjoin, render_append, render_append, render_text, render_join sep (g :: fs)]
    rfl

theorem render_getD (o : Option Fragment) (f : Fragment) :
    st.render (o.getD f) = (o.map st.render).getD (st.render f) := by
  cases o <;> rfl

@[simp] theorem render_elim (o : Option Fragment) (s : String) :
    st.render (o.elim [] (Fragment.text s ++ ·)) = (o.map st.render).elim "" (s ++ ·) := by
  cases o <;> simp

/-- Nested code is laid out in a buffer of its own. -/
theorem render_nested (role : NestedRole) (code : List Code) :
    st.render [.nested role code] = "\x7b\n" ++
      (Code.writeAll code (st.out.layout.buffer (st.out.level + st.nesting + 1))).text ++
        st.margin 0 ++ "\x7d" := by
  simp [render, Piece.renderAll, Piece.render, margin, Buffer.indentAt, LayoutStyle.margin,
    Buffer.layout]

/-- The arms of a fragment stand one level deeper than it. -/
theorem renderArms_eq (arms : List Fragment) :
    Piece.renderArms st.out.layout (st.out.level + st.nesting + 1) arms =
      String.join (arms.map fun arm =>
        st.margin 1 ++ { st with nesting := st.nesting + 1 }.render arm ++ ",\n") := by
  induction arms with
  | nil => simp [Piece.renderArms, String.join]
  | cons arm arms ih =>
    rw [Piece.renderArms, ih, List.map_cons, String.join_cons]
    rfl

/-- Arms with the brace on the next line, each arm one level deeper. -/
theorem render_arms_nextLine (arms : List Fragment) (hst : st.out.style = .nextLine) :
    st.render [.arms arms] = "\n" ++ st.margin 0 ++ "\x7b\n" ++
      String.join (arms.map fun arm =>
        st.margin 1 ++ { st with nesting := st.nesting + 1 }.render arm ++ ",\n") ++
      st.margin 0 ++ "\x7d" := by
  have hbraces : st.out.layout.braces = .nextLine := hst
  simp only [render, Piece.renderAll, Piece.render, hbraces, renderArms_eq, String.append_empty]
  rfl

/-- Arms with the brace on the same line, each arm one level deeper. -/
theorem render_arms_sameLine (arms : List Fragment) (hst : st.out.style = .sameLine) :
    st.render [.arms arms] = " \x7b\n" ++
      String.join (arms.map fun arm =>
        st.margin 1 ++ { st with nesting := st.nesting + 1 }.render arm ++ ",\n") ++
      st.margin 0 ++ "\x7d" := by
  have hbraces : st.out.layout.braces = .sameLine := hst
  simp only [render, Piece.renderAll, Piece.render, hbraces, renderArms_eq, String.append_empty]
  rfl

mutual

/-- A brace apart, a rendered piece passes a test of all characters when its text does. -/
theorem all_render {p : Char → Bool} (hp : p '\x7b' = false) (style : LayoutStyle) (depth : Nat) :
    ∀ q : Piece, (q.render style depth).toList.all p = q.allChars p
  | .text s => rfl
  | .nested _ body => by simp [Piece.render, Piece.allChars, hp]
  | .arms arms => by
    obtain ⟨_, _ | _⟩ := style <;> simp [Piece.render, Piece.allChars, hp]
  | .apart content => by
    rw [Piece.render, Piece.allChars]
    exact all_renderAll hp style depth content

/-- A fragment with nested code shows a brace. -/
theorem all_renderAll {p : Char → Bool} (hp : p '\x7b' = false) (style : LayoutStyle)
    (depth : Nat) : ∀ f : List Piece,
    (Piece.renderAll style depth f).toList.all p = Piece.areAllChars p f
  | [] => rfl
  | q :: qs => by
    simp [Piece.renderAll, Piece.areAllChars, all_render hp style depth q,
      all_renderAll hp style depth qs]

end

/-- A fragment is plain text with the property exactly if the text is. -/
theorem all_toList_render {p : Char → Bool} (hp : p '\x7b' = false) (f : Fragment) :
    (st.render f).toList.all p = f.allChars p := by
  rw [render, all_renderAll hp, Piece.areAllChars_eq]
  rfl

/-- A fragment is rendered empty exactly when it is blank. -/
theorem isEmpty_render (f : Fragment) : (st.render f).isEmpty = f.isBlank := by
  have hchars : (st.render f).toList.all (fun _ => false) = f.allChars fun _ => false :=
    all_toList_render rfl f
  rw [Fragment.isBlank, ← hchars, Bool.eq_iff_iff, String.isEmpty_iff, ← String.toList_eq_nil_iff]
  simp [List.eq_nil_iff_forall_not_mem]

/-! ### The state behind some code -/

/-- The state behind some code. -/
def put (code : List Code) (st : Emitter) : Emitter :=
  st.write (Code.writeAllAt st.nesting code)

/-- The state behind an item. -/
def putOne (c : Code) (st : Emitter) : Emitter :=
  st.write (c.writeAt st.nesting)

/-- The state behind the branches after the first, in front of their last closing brace. -/
def putBranches (branches : List Branch) (st : Emitter) : Emitter :=
  st.write (Branch.writeRestAt st.nesting branches)

section Fields

variable (f : Buffer → Buffer) (code : List Code) (s : String)

@[simp] theorem out_write : (st.write f).out = f st.out := rfl

@[simp] theorem nesting_write : (st.write f).nesting = st.nesting := rfl

@[simp] theorem loops_write : (st.write f).loops = st.loops := rfl

@[simp] theorem slips_write : (st.write f).slips = st.slips := rfl

/-- Written code leaves the level as it was. -/
@[simp] theorem level_put : (st.put code).out.level = st.out.level :=
  (Code.sameMargin_writeAllAt st.nesting code st.out).1

/-- Written code leaves the layout as it was. -/
@[simp] theorem layout_put : (st.put code).out.layout = st.out.layout :=
  (Code.sameMargin_writeAllAt st.nesting code st.out).2

@[simp] theorem level_putOne (c : Code) : (st.putOne c).out.level = st.out.level :=
  (Code.sameMargin_writeAt st.nesting c st.out).1

@[simp] theorem layout_putOne (c : Code) : (st.putOne c).out.layout = st.out.layout :=
  (Code.sameMargin_writeAt st.nesting c st.out).2

@[simp] theorem nesting_put : (st.put code).nesting = st.nesting := rfl

@[simp] theorem loops_put : (st.put code).loops = st.loops := rfl

@[simp] theorem slips_put : (st.put code).slips = st.slips := rfl

@[simp] theorem out_closeBlock : (st.closeBlock s).out = st.out.closeBlock s := rfl

@[simp] theorem nesting_closeBlock : (st.closeBlock s).nesting = st.nesting := rfl

@[simp] theorem loops_closeBlock : (st.closeBlock s).loops = st.loops := rfl

@[simp] theorem out_indent : st.indent.out = st.out.indent := rfl

@[simp] theorem nesting_indent : st.indent.nesting = st.nesting := rfl

@[simp] theorem loops_indent : st.indent.loops = st.loops := rfl

@[simp] theorem out_dedent : st.dedent.out = st.out.dedent := rfl

@[simp] theorem nesting_dedent : st.dedent.nesting = st.nesting := rfl

@[simp] theorem loops_dedent : st.dedent.loops = st.loops := rfl

/-- Inside of a block there is a level to go back. -/
theorem dedent_of_pos (h : 0 < st.out.level) : st.dedent = st.write Buffer.dedent := by
  simp [dedent, write, Nat.pos_iff_ne_zero.mp h]

/-- Closing a block inside one is no slip. -/
theorem closeBlock_of_pos (h : 0 < st.out.level) : st.closeBlock s = st.write (·.closeBlock s) := by
  have hlevel : 0 < (st.write Buffer.trimTail).out.level := h
  rw [closeBlock, dedent_of_pos hlevel]
  rfl

end Fields

@[simp] theorem put_nil : st.put [] = st := rfl

@[simp] theorem put_cons (c : Code) (cs : List Code) :
    st.put (c :: cs) = (st.putOne c).put cs := rfl

/-- Code is written in parts, one after the other. -/
@[simp] theorem put_append (cs ds : List Code) : st.put (cs ++ ds) = (st.put cs).put ds := by
  induction cs generalizing st with
  | nil => rfl
  | cons c cs ih => exact @ih (st.putOne c)

@[simp] theorem putOne_line (f : Fragment) :
    st.putOne (.line f) = st.write (·.line (st.render f)) := rfl

@[simp] theorem putOne_text (s : String) : st.putOne (.text s) = st.write (·.line s) := by
  rw [Code.text, putOne_line, render_text]

@[simp] theorem putOne_comment (f : Fragment) :
    st.putOne (.comment f) = st.write (·.comment (st.render f)) := by
  rw [Code.comment, putOne_line, render_append, render_text]
  rfl

@[simp] theorem putOne_jump (jump : Jump) : st.putOne (.jump jump) = st.write (·.line jump.text) :=
  rfl

@[simp] theorem putOne_blank : st.putOne .blank = st.write Buffer.blankLine := rfl

@[simp] theorem putOne_separator : st.putOne .separator = st.write Buffer.separator := rfl

@[simp] theorem putOne_verbatim (s : String) :
    st.putOne (.verbatim s) = st.write (·.verbatim s) := rfl

/-- A block is written by opening it, writing its body and closing it. -/
@[simp] theorem putOne_block (role : BlockRole) (header : Fragment) (body : List Code)
    (suffix : String) : st.putOne (.block role header body suffix) =
      ((st.write (·.openBlock (st.render header))).put body).closeBlock suffix := by
  rw [closeBlock_of_pos _ (by simp)]
  rfl

/-- Bare braces are a line, one level more, the body and the closing brace. -/
@[simp] theorem putOne_braces (body : List Code) : st.putOne (.braces body) =
    ((st.write (·.line "\x7b")).indent.put body).closeBlock "" := by
  rw [closeBlock_of_pos _ (by simp)]
  rfl

/-- A deeper body is written one level more, and the level is given back. -/
@[simp] theorem putOne_indented (body : List Code) :
    st.putOne (.indented body) = (st.indent.put body).dedent := by
  rw [dedent_of_pos (by simp)]
  rfl

/-- The line inside of a block is rendered as if it stood in front of it. -/
@[simp] theorem putOne_hung (header : String) (f : Fragment) :
    (st.write (·.openBlock header)).putOne (.hung f) =
      (st.write (·.openBlock header)).write (·.line (st.render f)) := by
  simp [putOne, write, Code.writeAt, render]

/-- A chain of branches is one block that its later branches close and open again. -/
@[simp] theorem putOne_chain (header : Fragment) (body : List Code) (branches : List Branch) :
    st.putOne (.chain (.mk header body :: branches)) =
      (((st.write (·.openBlock (st.render header))).put body).putBranches branches).closeBlock
        "" := by
  have hopen : 0 < ((st.write (·.openBlock (st.render header))).put body).out.level := by simp
  have hrest := (Branch.sameMargin_writeRestAt st.nesting branches _ hopen).1
  rw [closeBlock_of_pos _ (by simp [putBranches, hrest])]
  rfl

@[simp] theorem putBranches_nil : st.putBranches [] = st := rfl

/-- A later branch steps out, writes its header on the closing brace and steps in again. -/
theorem putBranches_cons (h : 0 < st.out.level) (header : Fragment) (body : List Code)
    (branches : List Branch) : st.putBranches (.mk header body :: branches) =
      ((st.dedent.write (·.line ("\x7d " ++ st.dedent.render header ++ " \x7b"))).indent.put
        body).putBranches branches := by
  rw [dedent_of_pos h]
  rfl

/-- An emitter that starts at the margin has written the text of the tree. -/
theorem finish_put (style : LayoutStyle) (code : List Code) :
    (({ out := style.buffer 0 } : Emitter).put code).out.finish = Code.render style code := by
  rw [Code.render, ← Code.writeAllAt_zero]
  rfl

/-! ### Writing to the side -/

/-- The state for what is written to the side: an empty buffer, one level deeper than the current
fragment. -/
def aside (st : Emitter) : Emitter :=
  { st with out := st.out.layout.buffer (st.out.level + st.nesting + 1), nesting := 0 }

/-- Stepping in by a number of levels adds that number to the level. -/
theorem indentBy_eq (n : Nat) (st : Emitter) :
    indentBy n st = st.write fun b => { b with level := b.level + n } := by
  induction n generalizing st with
  | zero => rfl
  | succ n ih =>
    rw [indentBy, ih]
    simp [indent, write, Buffer.indent, Nat.add_assoc, Nat.add_comm 1]

/-- As many steps back as there were steps in. -/
theorem dedentBy_eq (n level : Nat) {st : Emitter} (h : st.out.level = level + n) :
    dedentBy n st = st.write fun b => { b with level } := by
  induction n generalizing st with
  | zero =>
    subst h
    rfl
  | succ n ih =>
    rw [dedentBy, dedent_of_pos (by omega), ih (by simp [h])]
    rfl

/-- The way to the side. -/
theorem indentBy_takeText (st : Emitter) :
    { indentBy (st.nesting + 1) (st.write Buffer.takeText) with nesting := 0 } = st.aside := by
  rw [indentBy_eq]
  rfl

/-- The way back. -/
theorem dedentBy_aside (st : Emitter) (code : List Code) :
    dedentBy (st.nesting + 1) { st.aside.put code with nesting := st.nesting } =
      { st with out := { (st.aside.put code).out with level := st.out.level } } :=
  dedentBy_eq _ _ (@level_put st.aside code)

/-- Behind the way back, the saved text is all that is missing. -/
theorem dedentBy_withText (st : Emitter) (code : List Code) :
    (dedentBy (st.nesting + 1) { st.aside.put code with nesting := st.nesting }).write
      (·.withText st.out.text) = st := by
  rw [dedentBy_aside]
  have hmargin : st.out.SameMargin { (st.aside.put code).out with level := st.out.level } :=
    ⟨rfl, layout_put code⟩
  have hout := hmargin.withText
  obtain ⟨out, nesting, loops, slips⟩ := st
  exact congrArg (Emitter.mk · nesting loops slips) hout

end Emitter

/-! ### Emitters that follow generators -/

namespace Emit

variable {α β γ δ : Type} {st : Emitter}

/-- From the state `st` the emitter does what the generator does. It fails alike and leaves the same
journal, and its result and the state behind it are read off what the generator yields. -/
def Follows (st : Emitter) (x : Emit α) (y : Gen β) (s : β → α × Emitter) : Prop :=
  x st = s <$> y

/-- From every state with this layout of braces, the emitter reads its result off what the generator
yields, and leaves the state as it is. -/
def Renders (braces : BraceStyle) (view : Emitter → β → α) (x : Emit α) (y : Gen β) : Prop :=
  ∀ st : Emitter, st.out.style = braces → Follows st x y fun b => (view st b, st)

namespace Follows

variable {x : Emit α} {y : Gen β} {k : α → Emit γ} {l : β → Gen δ} {r : β → α × Emitter}
  {s : δ → γ × Emitter}

/-- A step that only returns writes nothing. -/
theorem pure {a : α} {b : β} (h : r b = (a, st)) : Follows st (Pure.pure a) (Pure.pure b) r := by
  unfold Follows
  rw [map_pure, h]
  rfl

/-- One step of each after the other. -/
theorem bind (hx : Follows st x y r) (hk : ∀ b, Follows (r b).2 (k (r b).1) (l b) s) :
    Follows st (x >>= k) (y >>= l) s := by
  have hrun : (x >>= k) st = x st >>= fun p => k p.1 p.2 := rfl
  unfold Follows at *
  rw [hrun, hx, map_bind, bind_map_left]
  exact bind_congr hk

/-- A step that only changes the state. -/
theorem step {f : Emitter → Emitter} {k : Unit → Emit α} (h : Follows (f st) (k ()) y r) :
    Follows st (Emit.step f >>= k) y r :=
  h

/-- A step that reads off the state, and may change it. -/
theorem take {f : Emitter → α} {g : Emitter → Emitter} {l : Gen δ}
    (h : Follows (g st) (k (f st)) l s) : Follows st (Emit.take f g >>= k) l s :=
  h

/-- A step that both take. -/
theorem lift {k : β → Emit γ} (h : ∀ b, Follows st (k b) (l b) s) :
    Follows st (liftM y >>= k) (y >>= l) s :=
  bind (r := fun b => (b, st)) rfl h

/-- What only changes the state has nothing to follow. -/
theorem done {f : Emitter → Emitter} {b : β} {r : β → Unit × Emitter} (h : r b = ((), f st)) :
    Follows st (Emit.step f) (Pure.pure b) r := by
  unfold Follows
  rw [map_pure, h]
  rfl

/-- Steps of the emitter alone: what they do is known without a step of the generator. -/
theorem alone {b : β} {y : Gen δ} (hx : Follows st x (Pure.pure b) r)
    (hk : Follows (r b).2 (k (r b).1) y s) : Follows st (x >>= k) y s := by
  have hrun : (x >>= k) st = x st >>= fun p => k p.1 p.2 := rfl
  unfold Follows at *
  rw [hrun, hx, map_pure, pure_bind]
  exact hk

/-- What the emitter does alone may be read off another value. -/
theorem pure_congr {b : β} {b' : δ} {r' : δ → α × Emitter} (hx : Follows st x (Pure.pure b) r)
    (h : r' b' = r b) : Follows st x (Pure.pure b') r' := by
  unfold Follows at *
  rw [hx, map_pure, map_pure, h]

theorem lineUnless (needless : Bool) (s : String) :
    Follows st (Emit.lineUnless needless s) (Pure.pure (if needless then [] else [.text s]))
      fun code => ((), st.put code) :=
  done (by cases needless <;> simp)

/-- Lines are written one after the other. -/
theorem lines : ∀ (ss : List String) {st : Emitter},
    Follows st (Emit.lines ss) (Pure.pure (ss.map Code.text)) fun code => ((), st.put code)
  | [], _ => pure rfl
  | s :: ss, _ => step <| (lines ss).pure_congr (by simp)

/-- The result of the generator may be put together from what it yields last. -/
theorem last {g : β → δ} {r' : δ → α × Emitter} (hx : Follows st x y r)
    (h : ∀ b, r' (g b) = r b) : Follows st x (y >>= fun b => Pure.pure (g b)) r' := by
  unfold Follows at *
  rw [hx, map_bind]
  simp [h]

/-- What is read off may depend on what is known of all values that are yielded. -/
theorem of_always {P : β → Prop} {r' : β → α × Emitter} (hx : Follows st x y r)
    (hy : y.Always P) (h : ∀ b, P b → r' b = r b) : Follows st x y r' := by
  have hmap : (y >>= fun b => Pure.pure (r b)) = y >>= fun b => Pure.pure (r' b) :=
    hy.bind_congr fun b hb => by rw [h b hb]
  simp only [bind_pure_comp] at hmap
  exact hx.trans hmap

/-- The emitter may take steps of its own behind the last one that both take. -/
theorem finish {r' : β → γ × Emitter} (hx : Follows st x y r)
    (h : ∀ b, k (r b).1 (r b).2 = Pure.pure (r' b)) : Follows st (x >>= k) y r' := by
  have hrun : (x >>= k) st = x st >>= fun p => k p.1 p.2 := rfl
  unfold Follows at *
  rw [hrun, hx, bind_map_left]
  simp [h]

/-- A failing step follows a failing generator, whatever is read off it. -/
theorem fail {e : Failure} : Follows st (liftM (Gen.fail (α := α) e)) (Gen.fail (α := β) e) r :=
  rfl

/-- What is only reported is not written. -/
theorem report {d : Diagnostic} {b : β} {r : β → Unit × Emitter} (h : r b = ((), st)) :
    Follows st (liftM (Gen.report d)) (Gen.report d >>= fun _ => Pure.pure b) r :=
  last (r := fun u => (u, st)) rfl fun _ => h

/-- What is written to the side is laid out in a buffer of its own, and the state is as before. -/
theorem capture {x : Emit Unit} {y : Gen (List Code)}
    (hx : Follows st.aside x y fun code => ((), st.aside.put code)) :
    Follows st (Emit.capture x) y fun code => ((Code.writeAll code st.aside.out).text, st) := by
  refine take (take (step (take ?_)))
  have hnesting : (Emitter.indentBy (st.nesting + 1) (st.write Buffer.takeText)).nesting =
      st.nesting := by
    rw [Emitter.indentBy_eq]
    rfl
  rw [st.indentBy_takeText, hnesting]
  refine hx.finish fun code => ?_
  let inner : Emitter := { st.aside.put code with nesting := st.nesting }
  let outer := Emitter.dedentBy (st.nesting + 1) inner
  have htext : outer.out.text = (Code.writeAll code st.aside.out).text := by
    rw [← Code.writeAllAt_zero, show outer = _ from st.dedentBy_aside code]
    rfl
  change (Pure.pure (outer.out.text, outer.write (·.withText st.out.text)) : Gen _) = _
  rw [htext, show outer.write _ = st from st.dedentBy_withText code]

/-- What no jump leaves is written outside of all loops, and then the loops are back. -/
theorem withoutLoops {x : Emit Unit} {y : Gen (List Code)}
    (hx : Follows { st with loops := [] } x y
      fun code => ((), ({ st with loops := [] } : Emitter).put code)) :
    Follows st (Emit.withoutLoops x) y fun code => ((), st.put code) :=
  take (hx.finish fun _ => rfl)

/-- What stands one level deeper than a fragment; behind it the nesting is as before. -/
theorem deeper {view : β → α} (hx : Follows { st with nesting := st.nesting + 1 } x y
    fun b => (view b, { st with nesting := st.nesting + 1 })) :
    Follows st (Emit.deeper x) y fun b => (view b, st) :=
  step (hx.finish fun _ => rfl)

end Follows

end Emit

/-! ### What a target leaves out -/

namespace TargetName

open Emit (Follows)

variable {st : Emitter}

/-- A raw block of the target is written as it stands, another is skipped with a report. -/
theorem follows_rawCode (target : TargetName) (raw : RawBlock) :
    Follows st (target.emitRaw raw) (target.rawCode raw) fun code => ((), st.put code) := by
  unfold emitRaw rawCode
  cases raw.target with
  | none => exact .done rfl
  | some name =>
    dsimp only
    split
    · exact .done rfl
    · exact .report rfl

/-- Raw blocks are written one after the other. -/
theorem follows_rawCodes (target : TargetName) : ∀ (raws : List RawBlock) (st : Emitter),
    Follows st (target.emitRaws raws) (target.rawCodes raws) fun code => ((), st.put code)
  | [], _ => .pure rfl
  | raw :: raws, st =>
    .bind (target.follows_rawCode raw) fun code =>
      .last (target.follows_rawCodes raws (st.put code)) fun rest => by simp

theorem follows_separatedRawCodes (target : TargetName) :
    ∀ (raws : List RawBlock) (st : Emitter),
      Follows st (target.emitSeparatedRaws raws) (target.separatedRawCodes raws)
        fun code => ((), st.put code)
  | [], _ => .pure rfl
  | raw :: raws, st =>
    .step <| .bind (target.follows_rawCode raw) fun code =>
      .last (target.follows_separatedRawCodes raws _) fun rest => by simp

end TargetName

end SourceGen
