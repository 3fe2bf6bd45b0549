import SourceGen.Layout.Render
import SourceGen.Proofs.Nesting

/-!
# The delimiters of code trees

Layout adds blanks and line ends to a tree, and the braces around its blocks. Read without layout, a
tree is a flat text, and the text that is laid out has the same delimiters in the same order.

## Main definitions

* `Piece.flatAll`, `Code.flatAll`: the flat text of a fragment and of code.
* `Fragment.Nested`, `Code.Nested`: the flat text is nested.

## Main results

* `Code.delimiters_writeAll`: layout keeps the delimiters of the flat text.
* `Code.nested_render`: nested code is laid out as nested text.
-/

namespace SourceGen

/-! ### Flat text -/

mutual

/-- The text of a piece without layout. -/
def Piece.flat : Piece → List Char
  | .text s => s.toList
  | .nested _ body => '\x7b' :: Code.flatAll body ++ ['\x7d']
  | .arms arms => '\x7b' :: Piece.flatArms arms ++ ['\x7d']
  | .apart content => Piece.flatAll content

/-- The text of a fragment without layout. -/
def Piece.flatAll : List Piece → List Char
  | [] => []
  | p :: ps => p.flat ++ Piece.flatAll ps

/-- The text of some arms without layout. -/
def Piece.flatArms : List (List Piece) → List Char
  | [] => []
  | arm :: arms => Piece.flatAll arm ++ Piece.flatArms arms

/-- The text of an item without layout. -/
def Code.flat : Code → List Char
  | .line content => Piece.flatAll content
  | .hung content => Piece.flatAll content
  | .jump jump => jump.text.toList
  | .exitLabel loop => (Code.exitText loop).toList
  | .blank => []
  | .separator => []
  | .verbatim text => text.toList
  | .block _ header body suffix =>
    Piece.flatAll header ++ '\x7b' :: Code.flatAll body ++ '\x7d' :: suffix.toList
  | .braces body => '\x7b' :: Code.flatAll body ++ ['\x7d']
  | .indented body => Code.flatAll body
  | .chain branches => Branch.flatFirst branches ++ ['\x7d']

/-- The text of items without layout. -/
def Code.flatAll : List Code → List Char
  | [] => []
  | c :: cs => c.flat ++ Code.flatAll cs

/-- The text of a chain up to its last closing brace. -/
def Branch.flatFirst : List Branch → List Char
  | [] => ['\x7b']
  | .mk header body :: branches =>
    Piece.flatAll header ++ '\x7b' :: Code.flatAll body ++ Branch.flatRest branches

/-- The text of the branches after the first, each behind the closing brace before it. -/
def Branch.flatRest : List Branch → List Char
  | [] => []
  | .mk header body :: branches =>
    '\x7d' :: Piece.flatAll header ++ '\x7b' :: Code.flatAll body ++ Branch.flatRest branches

end

namespace Text

/-- The delimiters of a text. -/
def delimiters (cs : List Char) : List Char :=
  cs.filter isDelimiter

@[simp] theorem delimiters_nil : delimiters [] = [] :=
  rfl

@[simp] theorem delimiters_append (cs ds : List Char) :
    delimiters (cs ++ ds) = delimiters cs ++ delimiters ds :=
  List.filter_append cs ds

@[simp] theorem delimiters_cons (c : Char) (cs : List Char) :
    delimiters (c :: cs) = if isDelimiter c then c :: delimiters cs else delimiters cs :=
  List.filter_cons

@[simp] theorem delimiters_replicate (n : Nat) : delimiters (replicate n " ").toList = [] := by
  induction n with
  | zero => rfl
  | succ n ih => simp [replicate, ih, isDelimiter]

theorem delimiters_consFirst (c : Char) (parts : List (List Char)) :
    delimiters (consFirst c parts).flatten = delimiters (c :: parts.flatten) := by
  cases parts with
  | nil => rfl
  | cons p ps => rfl

/-- Splitting at a character that is no delimiter loses none. -/
theorem delimiters_splitChars {sep : Char} (h : isDelimiter sep = false) (cs : List Char) :
    delimiters (splitChars sep cs).flatten = delimiters cs := by
  induction cs with
  | nil => rfl
  | cons c cs ih =>
    rw [splitChars]
    split
    · rename_i hc
      rw [List.flatten_cons, List.nil_append, ih, hc, delimiters_cons, h]
      rfl
    · rw [delimiters_consFirst, delimiters_cons, delimiters_cons, ih]

/-- A carriage return is no delimiter. -/
theorem delimiters_dropReturn (cs : List Char) : delimiters (dropReturn cs) = delimiters cs := by
  unfold dropReturn
  split
  · rename_i h
    obtain ⟨ds, rfl⟩ := List.getLast?_eq_some_iff.mp h
    simp [isDelimiter]
  · rfl

/-- Line ends are no delimiters. -/
theorem delimiters_linesOfParts (parts : List (List Char)) :
    delimiters (linesOfParts parts).flatten = delimiters parts.flatten := by
  fun_induction linesOfParts parts with
  | case1 => rfl
  | case2 p hp => simp_all
  | case3 p hp => rfl
  | case4 p ps _ ih => simp [delimiters_dropReturn, ih]

/-- The lines of a text have all of its delimiters. -/
theorem delimiters_lines (s : String) :
    delimiters ((lines s).flatMap String.toList) = delimiters s.toList := by
  have hflat : (lines s).flatMap String.toList =
      (linesOfParts (splitChars '\n' s.toList)).flatten := by
    simp [lines, List.flatMap_map, List.flatMap_id']
  rw [hflat, delimiters_linesOfParts, delimiters_splitChars rfl]

end Text

/-! ### Buffers -/

namespace Buffer

open Text (delimiters isDelimiter)

/-- The delimiters that were written. -/
def delimiters (b : Buffer) : List Char :=
  Text.delimiters b.reversed.reverse

variable (b : Buffer)

@[simp] theorem delimiters_text : Text.delimiters b.text.toList = b.delimiters := by
  simp [text, delimiters]

@[simp] theorem delimiters_buffer (style : LayoutStyle) (depth : Nat) :
    (style.buffer depth).delimiters = [] :=
  rfl

/-- A buffer collects the delimiters of what is written to it. -/
@[simp] theorem delimiters_write (s : String) :
    (b.write s).delimiters = b.delimiters ++ Text.delimiters s.toList := by
  simp [delimiters, write]

@[simp] theorem delimiters_blankLine : b.blankLine.delimiters = b.delimiters := by
  simp [blankLine, isDelimiter]

/-- A line adds its delimiters, whatever its indentation. -/
@[simp] theorem delimiters_line (s : String) :
    (b.line s).delimiters = b.delimiters ++ Text.delimiters s.toList := by
  simp [line, writeIndent, currentIndent, indentAt]

@[simp] theorem delimiters_separator : b.separator.delimiters = b.delimiters := by
  rw [separator]
  split
  · rfl
  · exact delimiters_blankLine b

/-- The line ends that are dropped are no delimiters. -/
theorem delimiters_dropBlankTail (cs : List Char) :
    Text.delimiters (dropBlankTail cs).reverse = Text.delimiters cs.reverse := by
  fun_induction dropBlankTail cs with
  | case1 cs ih => simp_all [isDelimiter]
  | case2 cs => rfl

@[simp] theorem delimiters_trimTail : b.trimTail.delimiters = b.delimiters :=
  delimiters_dropBlankTail b.reversed

@[simp] theorem delimiters_indent : b.indent.delimiters = b.delimiters :=
  rfl

@[simp] theorem delimiters_dedent : b.dedent.delimiters = b.delimiters :=
  rfl

/-- An opened block adds its header and a brace, in either layout. -/
@[simp] theorem delimiters_openBlock (header : String) :
    (b.openBlock header).delimiters =
      b.delimiters ++ Text.delimiters header.toList ++ ['\x7b'] := by
  rw [openBlock]
  split <;> simp [isDelimiter]

/-- A closed block adds a brace and its suffix. -/
@[simp] theorem delimiters_closeBlock (suffix : String) :
    (b.closeBlock suffix).delimiters =
      b.delimiters ++ '\x7d' :: Text.delimiters suffix.toList := by
  simp [closeBlock, isDelimiter]

@[simp] theorem delimiters_verbatim (s : String) :
    (b.verbatim s).delimiters = b.delimiters ++ Text.delimiters s.toList := by
  rw [verbatim, ← Text.delimiters_lines]
  induction Text.lines s generalizing b with
  | nil => simp
  | cons l ls ih =>
    rw [List.foldl_cons, ih]
    split
    · rename_i hblank
      -- A blank line has no delimiters, so it does not matter that it is not written as it is.
      have hl : Text.delimiters l.toList = [] := by
        refine List.filter_eq_nil_iff.mpr fun c hc hdelimiter => ?_
        have hc := List.all_eq_true.mp hblank c hc
        simp only [isDelimiter, Bool.or_eq_true, beq_iff_eq] at hdelimiter
        rcases hdelimiter with ((rfl | rfl) | rfl) | rfl <;> revert hc <;> decide
      simp [hl]
    · simp

end Buffer

/-! ### Layout -/

section Layout

open Text (delimiters isDelimiter)

mutual

/-- A rendered piece has the delimiters of its flat text. -/
theorem Piece.delimiters_render (style : LayoutStyle) (depth : Nat) :
    ∀ p : Piece, delimiters (p.render style depth).toList = delimiters p.flat
  | .text s => by rw [Piece.render, Piece.flat]
  | .nested role body => by
    have hbody := Code.delimiters_writeAll body (style.buffer (depth + 1))
    rw [Piece.render, Piece.flat]
    simp [LayoutStyle.margin, hbody, isDelimiter]
  | .arms arms => by
    have harms := Piece.delimiters_renderArms style (depth + 1) arms
    rw [Piece.render, Piece.flat]
    cases style.braces <;> simp [LayoutStyle.margin, harms, isDelimiter]
  | .apart content => by
    rw [Piece.render, Piece.flat]
    exact Piece.delimiters_renderAll style depth content

/-- A rendered fragment has the delimiters of its flat text. -/
theorem Piece.delimiters_renderAll (style : LayoutStyle) (depth : Nat) :
    ∀ ps : List Piece, delimiters (Piece.renderAll style depth ps).toList =
      delimiters (Piece.flatAll ps)
  | [] => by rw [Piece.renderAll, Piece.flatAll]; rfl
  | p :: ps => by
    rw [Piece.renderAll, Piece.flatAll, String.toList_append, Text.delimiters_append,
      Text.delimiters_append, Piece.delimiters_render style depth p,
      Piece.delimiters_renderAll style depth ps]

theorem Piece.delimiters_renderArms (style : LayoutStyle) (depth : Nat) :
    ∀ arms : List (List Piece), delimiters (Piece.renderArms style depth arms).toList =
      delimiters (Piece.flatArms arms)
  | [] => by rw [Piece.renderArms, Piece.flatArms]; rfl
  | arm :: arms => by
    have harm := Piece.delimiters_renderAll style depth arm
    have harms := Piece.delimiters_renderArms style depth arms
    rw [Piece.renderArms, Piece.flatArms]
    simp [LayoutStyle.margin, harm, harms, isDelimiter]

/-- Writing a line of code adds the delimiters of its flat text. -/
theorem Code.delimiters_write : ∀ (c : Code) (b : Buffer),
    (c.write b).delimiters = b.delimiters ++ delimiters c.flat
  | .line content, b => by
    rw [Code.write, Code.flat, Buffer.delimiters_line, Piece.delimiters_renderAll]
  | .hung content, b => by
    rw [Code.write, Code.flat, Buffer.delimiters_line, Piece.delimiters_renderAll]
  | .jump jump, b => by rw [Code.write, Code.flat, Buffer.delimiters_line]
  | .exitLabel loop, b => by rw [Code.write, Code.flat, Buffer.delimiters_line]
  | .blank, b => by simp [Code.write, Code.flat]
  | .separator, b => by simp [Code.write, Code.flat]
  | .verbatim text, b => by rw [Code.write, Code.flat, Buffer.delimiters_verbatim]
  | .block role header body suffix, b => by
    rw [Code.write, Code.flat, Buffer.delimiters_closeBlock, Code.delimiters_writeAll,
      Buffer.delimiters_openBlock, Piece.delimiters_renderAll]
    simp [isDelimiter]
  | .braces body, b => by
    rw [Code.write, Code.flat, Buffer.delimiters_closeBlock, Code.delimiters_writeAll,
      Buffer.delimiters_indent, Buffer.delimiters_line]
    simp [isDelimiter]
  | .indented body, b => by
    rw [Code.write, Code.flat, Buffer.delimiters_dedent, Code.delimiters_writeAll,
      Buffer.delimiters_indent]
  | .chain branches, b => by
    rw [Code.write, Code.flat, Buffer.delimiters_closeBlock, Branch.delimiters_writeFirst]
    simp [isDelimiter]

/-- Layout writes the delimiters of the flat text. -/
theorem Code.delimiters_writeAll : ∀ (cs : List Code) (b : Buffer),
    (Code.writeAll cs b).delimiters = b.delimiters ++ delimiters (Code.flatAll cs)
  | [], b => by simp [Code.writeAll, Code.flatAll]
  | c :: cs, b => by
    rw [Code.writeAll, Code.flatAll, Code.delimiters_writeAll, Code.delimiters_write,
      Text.delimiters_append, List.append_assoc]

/-- Writing a chain of branches adds the delimiters of its flat text. -/
theorem Branch.delimiters_writeFirst : ∀ (branches : List Branch) (b : Buffer),
    (Branch.writeFirst branches b).delimiters =
      b.delimiters ++ delimiters (Branch.flatFirst branches)
  | [], b => by
    rw [Branch.writeFirst, Branch.flatFirst, Buffer.delimiters_openBlock]
    simp [isDelimiter]
  | .mk header body :: branches, b => by
    rw [Branch.writeFirst, Branch.flatFirst, Branch.delimiters_writeRest,
      Code.delimiters_writeAll, Buffer.delimiters_openBlock, Piece.delimiters_renderAll]
    simp [isDelimiter]

theorem Branch.delimiters_writeRest : ∀ (branches : List Branch) (b : Buffer),
    (Branch.writeRest branches b).delimiters = b.delimiters ++ delimiters (Branch.flatRest branches)
  | [], b => by simp [Branch.writeRest, Branch.flatRest]
  | .mk header body :: branches, b => by
    have hheader := Piece.delimiters_renderAll b.dedent.layout b.dedent.level header
    rw [Branch.writeRest, Branch.flatRest, Branch.delimiters_writeRest, Code.delimiters_writeAll]
    simp [hheader, isDelimiter]

end

end Layout

/-! ### Nested code -/

/-- The delimiters of the fragment are nested. -/
abbrev Fragment.Nested (f : Fragment) : Prop :=
  Text.Nested (Piece.flatAll f)

/-- The delimiters of the code are nested. -/
abbrev Code.Nested (cs : List Code) : Prop :=
  Text.Nested (Code.flatAll cs)

attribute [simp] Piece.flat Piece.flatAll Piece.flatArms Code.flat Code.flatAll Branch.flatFirst
  Branch.flatRest

@[simp] theorem Piece.flatAll_append (f g : Fragment) :
    Piece.flatAll (f ++ g) = Piece.flatAll f ++ Piece.flatAll g := by
  induction f with
  | nil => simp
  | cons p f ih => simp [ih]

@[simp] theorem Piece.flatAll_text (s : String) : Piece.flatAll (Fragment.text s) = s.toList := by
  simp [Fragment.text]

@[simp] theorem Piece.flatArms_append (fs gs : List Fragment) :
    Piece.flatArms (fs ++ gs) = Piece.flatArms fs ++ Piece.flatArms gs := by
  induction fs with
  | nil => simp
  | cons f fs ih => simp [ih]

@[simp] theorem Piece.flatAll_parens (f : Fragment) :
    Piece.flatAll f.parens = '(' :: Piece.flatAll f ++ [')'] := by
  simp [Fragment.parens]

@[simp] theorem Code.flatAll_append (cs ds : List Code) :
    Code.flatAll (cs ++ ds) = Code.flatAll cs ++ Code.flatAll ds := by
  induction cs with
  | nil => simp
  | cons c cs ih => simp [ih]

@[simp] theorem Code.flat_text (s : String) : (Code.text s).flat = s.toList := by
  simp [Code.text]

@[simp] theorem Code.flat_comment (f : Fragment) :
    (Code.comment f).flat = "// ".toList ++ Piece.flatAll f := by
  simp [Code.comment]

/-- No jump has a delimiter in it. -/
@[simp] theorem Jump.isPlain_text (jump : Jump) : Text.isPlain jump.text = true := by
  have hnumber (n : Nat) : Text.isPlain (toString n) = true := Text.isPlain_repr n
  unfold Jump.text
  split
  · rfl
  · rfl
  · rw [Text.isPlain_append, Text.isPlain_append, hnumber]
    rfl
  · rw [Text.isPlain_append, Text.isPlain_append, hnumber]
    rfl
  · rfl

@[simp] theorem Code.isPlain_exitText (loop : Nat) : Text.isPlain (Code.exitText loop) = true := by
  have hnumber : Text.isPlain (toString loop) = true := Text.isPlain_repr loop
  rw [Code.exitText, Text.isPlain_append, Text.isPlain_append, hnumber]
  rfl

/-! ### Several fragments -/

namespace Fragment

/-- Each of the fragments is nested. -/
abbrev AllNested (fs : List Fragment) : Prop :=
  ∀ f ∈ fs, Fragment.Nested f

variable {f : Fragment} {fs : List Fragment} {o : Option Fragment}

/-- Nested fragments may be added in front. -/
theorem AllNested.cons (hf : f.Nested) (hfs : AllNested fs) : AllNested (f :: fs) :=
  List.forall_mem_cons.mpr ⟨hf, hfs⟩

/-- Nested fragments stay nested between plain separators. -/
theorem AllNested.join {sep : String} (hsep : Text.isPlain sep = true) (h : AllNested fs) :
    Fragment.Nested (join sep fs) := by
  induction fs with
  | nil => exact fun _ => by simp [Fragment.join]
  | cons f fs ih =>
    obtain ⟨hf, hfs⟩ := List.forall_mem_cons.mp h
    cases fs with
    | nil => exact hf
    | cons g gs =>
      have hrest := ih hfs
      exact fun _ => by simp [Fragment.join, hf, hsep, hrest]

/-- Arms are nested when each of them is. -/
theorem AllNested.arms (h : AllNested fs) : Text.Nested (Piece.flatArms fs) := by
  induction fs with
  | nil => exact fun _ => by simp
  | cons f fs ih =>
    obtain ⟨hf, hfs⟩ := List.forall_mem_cons.mp h
    have hrest := ih hfs
    exact fun _ => by simp [hf, hrest]

/-- A line for each of the fragments. -/
theorem AllNested.lines {line : Fragment → Code}
    (hline : ∀ f : Fragment, f.Nested → Text.Nested (line f).flat) (h : AllNested fs) :
    Code.Nested (fs.map line) := by
  induction fs with
  | nil => exact fun _ => by simp
  | cons f fs ih =>
    obtain ⟨hf, hfs⟩ := List.forall_mem_cons.mp h
    have hfirst := hline f hf
    have hrest := ih hfs
    exact fun _ => by simp [hfirst, hrest]

/-- The fragment is nested, if there is one. -/
abbrev OptionNested (o : Option Fragment) : Prop :=
  ∀ f ∈ o, Fragment.Nested f

theorem OptionNested.getD (h : OptionNested o) (hf : f.Nested) : Fragment.Nested (o.getD f) := by
  cases o with
  | none => exact hf
  | some g => exact h g rfl

/-- A fragment that may be missing is nested behind a plain text. -/
theorem OptionNested.elim {s : String} (hs : Text.isPlain s = true) (h : OptionNested o) :
    Fragment.Nested (o.elim [] (text s ++ ·)) := by
  cases o with
  | none => exact fun _ => by simp
  | some g =>
    have hg := h g rfl
    exact fun _ => by simp [hs, hg]

end Fragment

/-! ### Nested code as text -/

/-- Nested code is laid out as nested text. -/
theorem Code.nested_render {code : List Code} (h : Code.Nested code) (style : LayoutStyle) :
    Text.Nested (Code.render style code).toList := by
  have hdelimiters : Text.delimiters (Code.render style code).toList =
      Text.delimiters (Code.flatAll code) := by
    simp [Code.render, Buffer.finish, Code.delimiters_writeAll]
  intro stack
  -- Reading sees the delimiters only, and these are the same in both texts.
  rw [← Text.scan_filter]
  change Text.scan stack (Text.delimiters _) = _
  rw [hdelimiters]
  exact (Text.scan_filter _ _).trans (h stack)

end SourceGen
