import SourceGen.Layout.Render

/-!
# Code trees without separators

A separator asks for a blank line. Without its separators a tree is laid out as the same text, up to
blank lines.

## Main definitions

* `Code.thinAll`, `Piece.thinAll`: code and fragments without separators.
* `Text.squeeze`: a text in which line ends that follow each other count as one.

## Main results

* `Code.thinAll_false`: nothing changes if no separator is dropped.
* `Code.squeeze_render`: layout without separators, up to blank lines.
-/

namespace SourceGen

/-! ### Thin code -/

mutual

/-- The piece without the separators in it, if they are to be dropped. -/
def Piece.thin (drop : Bool) : Piece → Piece
  | .text s => .text s
  | .nested role body => .nested role (Code.thinAll drop body)
  | .arms arms => .arms (Piece.thinArms drop arms)
  | .apart content => .apart (Piece.thinAll drop content)

/-- The fragment without the separators in it. -/
def Piece.thinAll (drop : Bool) : List Piece → List Piece
  | [] => []
  | p :: ps => p.thin drop :: Piece.thinAll drop ps

/-- The arms without the separators in them. -/
def Piece.thinArms (drop : Bool) : List (List Piece) → List (List Piece)
  | [] => []
  | arm :: arms => Piece.thinAll drop arm :: Piece.thinArms drop arms

/-- The item without the separators in it; nothing is left of a separator. -/
def Code.thin (drop : Bool) : Code → List Code
  | .line content => [.line (Piece.thinAll drop content)]
  | .hung content => [.hung (Piece.thinAll drop content)]
  | .jump jump => [.jump jump]
  | .exitLabel loop => [.exitLabel loop]
  | .blank => [.blank]
  | .separator => if drop then [] else [.separator]
  | .verbatim text => [.verbatim text]
  | .block role header body suffix =>
    [.block role (Piece.thinAll drop header) (Code.thinAll drop body) suffix]
  | .braces body => [.braces (Code.thinAll drop body)]
  | .indented body => [.indented (Code.thinAll drop body)]
  | .chain branches => [.chain (Branch.thinAll drop branches)]

/-- The items without separators. -/
def Code.thinAll (drop : Bool) : List Code → List Code
  | [] => []
  | c :: cs => c.thin drop ++ Code.thinAll drop cs

/-- The branches without the separators in them. -/
def Branch.thinAll (drop : Bool) : List Branch → List Branch
  | [] => []
  | .mk header body :: branches =>
    .mk (Piece.thinAll drop header) (Code.thinAll drop body) :: Branch.thinAll drop branches

end

attribute [simp] Piece.thin Piece.thinAll Piece.thinArms Code.thin Code.thinAll Branch.thinAll

variable {drop : Bool}

@[simp] theorem Piece.thinAll_append (f g : Fragment) :
    Piece.thinAll drop (f ++ g) = Piece.thinAll drop f ++ Piece.thinAll drop g := by
  induction f with
  | nil => simp
  | cons p f ih => simp [ih]

@[simp] theorem Piece.thinAll_text (s : String) :
    Piece.thinAll drop (Fragment.text s) = Fragment.text s := by
  simp [Fragment.text]

/-- Arms are thinned one by one. -/
theorem Piece.thinArms_eq_map (arms : List Fragment) :
    Piece.thinArms drop arms = arms.map (Piece.thinAll drop) := by
  induction arms with
  | nil => simp
  | cons arm arms ih => simp [ih]

@[simp] theorem Code.thinAll_append (cs ds : List Code) :
    Code.thinAll drop (cs ++ ds) = Code.thinAll drop cs ++ Code.thinAll drop ds := by
  induction cs with
  | nil => simp
  | cons c cs ih => simp [ih]

@[simp] theorem Code.thin_text (s : String) : (Code.text s).thin drop = [Code.text s] := by
  simp [Code.text]

@[simp] theorem Code.thin_comment (f : Fragment) :
    (Code.comment f).thin drop = [.comment (Piece.thinAll drop f)] := by
  simp [Code.comment]

mutual

/-- Without dropping, thinning changes no piece. -/
theorem Piece.thin_false : ∀ p : Piece, p.thin false = p
  | .text s => by simp
  | .nested role body => by simp [Code.thinAll_false body]
  | .arms arms => by simp [Piece.thinArms_false arms]
  | .apart content => by simp [Piece.thinAll_false content]

/-- Without dropping, thinning changes no fragment. -/
theorem Piece.thinAll_false : ∀ ps : List Piece, Piece.thinAll false ps = ps
  | [] => by simp
  | p :: ps => by simp [Piece.thin_false p, Piece.thinAll_false ps]

theorem Piece.thinArms_false : ∀ arms : List (List Piece), Piece.thinArms false arms = arms
  | [] => by simp
  | arm :: arms => by simp [Piece.thinAll_false arm, Piece.thinArms_false arms]

/-- Without dropping, thinning changes no line. -/
theorem Code.thin_false : ∀ c : Code, c.thin false = [c]
  | .line content => by simp [Piece.thinAll_false content]
  | .hung content => by simp [Piece.thinAll_false content]
  | .jump j => by simp
  | .exitLabel loop => by simp
  | .blank => by simp
  | .separator => by simp
  | .verbatim text => by simp
  | .block role header body suffix => by
    simp [Piece.thinAll_false header, Code.thinAll_false body]
  | .braces body => by simp [Code.thinAll_false body]
  | .indented body => by simp [Code.thinAll_false body]
  | .chain branches => by simp [Branch.thinAll_false branches]

/-- If separators are kept, nothing changes. -/
theorem Code.thinAll_false : ∀ cs : List Code, Code.thinAll false cs = cs
  | [] => by simp
  | c :: cs => by simp only [Code.thinAll, Code.thin_false c, Code.thinAll_false cs,
      List.singleton_append]

theorem Branch.thinAll_false : ∀ branches : List Branch, Branch.thinAll false branches = branches
  | [] => by simp
  | .mk header body :: branches => by
    simp [Piece.thinAll_false header, Code.thinAll_false body, Branch.thinAll_false branches]

end

/-! ### What thin code still shows -/

mutual

/-- Thinned code leaves the same loops. -/
theorem Code.anyLeaves_thin (loop : Nat) :
    ∀ c : Code, Code.anyLeaves loop (c.thin drop) = c.leaves loop
  | .line _ | .hung _ | .exitLabel _ | .blank | .verbatim _ => by
    simp [Code.anyLeaves, Code.leaves]
  | .jump j => by simp [Code.anyLeaves]
  | .separator => by cases drop <;> simp [Code.anyLeaves, Code.leaves]
  | .block role header body suffix => by
    cases role <;> simp [Code.anyLeaves, Code.leaves, Code.anyLeaves_thinAll loop body]
  | .braces body => by simp [Code.anyLeaves, Code.leaves, Code.anyLeaves_thinAll loop body]
  | .indented body => by simp [Code.anyLeaves, Code.leaves, Code.anyLeaves_thinAll loop body]
  | .chain branches => by
    simp [Code.anyLeaves, Code.leaves, Code.anyBranchLeaves_thinAll loop branches]

/-- No separator is a jump. -/
theorem Code.anyLeaves_thinAll (loop : Nat) :
    ∀ cs : List Code, Code.anyLeaves loop (Code.thinAll drop cs) = Code.anyLeaves loop cs
  | [] => by simp
  | c :: cs => by
    have happend : ∀ ds es : List Code,
        Code.anyLeaves loop (ds ++ es) = (Code.anyLeaves loop ds || Code.anyLeaves loop es) := by
      intro ds es
      induction ds with
      | nil => simp [Code.anyLeaves]
      | cons d ds ih => simp [Code.anyLeaves, ih, Bool.or_assoc]
    rw [Code.thinAll, happend, Code.anyLeaves_thin loop c, Code.anyLeaves_thinAll loop cs,
      Code.anyLeaves]

/-- Thinned branches leave the same loops. -/
theorem Code.anyBranchLeaves_thinAll (loop : Nat) : ∀ branches : List Branch,
    Code.anyBranchLeaves loop (Branch.thinAll drop branches) = Code.anyBranchLeaves loop branches
  | [] => by simp
  | .mk header body :: branches => by
    simp [Code.anyBranchLeaves, Code.anyLeaves_thinAll loop body,
      Code.anyBranchLeaves_thinAll loop branches]

end

mutual

/-- A test of all characters cannot tell a thinned piece: only blank lines inside blocks go. -/
theorem Piece.allChars_thin (p : Char → Bool) : ∀ q : Piece,
    (q.thin drop).allChars p = q.allChars p
  | .text _ | .nested _ _ | .arms _ => rfl
  | .apart content => Piece.areAllChars_thinAll p content

theorem Piece.areAllChars_thinAll (p : Char → Bool) : ∀ qs : List Piece,
    Piece.areAllChars p (Piece.thinAll drop qs) = Piece.areAllChars p qs
  | [] => rfl
  | q :: qs => by
    rw [Piece.thinAll, Piece.areAllChars, Piece.areAllChars, Piece.allChars_thin p q,
      Piece.areAllChars_thinAll p qs]

end

namespace Fragment

/-- A test of all characters cannot tell a thinned fragment. -/
theorem allChars_thinAll (p : Char → Bool) (f : Fragment) :
    allChars p (Piece.thinAll drop f) = allChars p f := by
  simpa only [allChars, ← Piece.areAllChars_eq] using Piece.areAllChars_thinAll p f

@[simp] theorem thinAll_parens (f : Fragment) :
    Piece.thinAll drop f.parens = (Fragment.parens (Piece.thinAll drop f)) := by
  simp [parens]

@[simp] theorem thinAll_join (sep : String) (fs : List Fragment) :
    Piece.thinAll drop (join sep fs) = join sep (fs.map (Piece.thinAll drop)) := by
  fun_induction join sep fs with
  | case1 => simp [join]
  | case2 f => simp [join]
  | case3 f fs hfs ih =>
    obtain ⟨g, gs, rfl⟩ := List.exists_cons_of_ne_nil hfs
    simp [join, ih]

@[simp] theorem thinAll_getD (o : Option Fragment) (f : Fragment) :
    Piece.thinAll drop (o.getD f) = (o.map (Piece.thinAll drop)).getD (Piece.thinAll drop f) := by
  cases o <;> rfl

@[simp] theorem thinAll_elim (o : Option Fragment) (s : String) :
    Piece.thinAll drop (o.elim [] (text s ++ ·)) =
      (o.map (Piece.thinAll drop)).elim [] (text s ++ ·) := by
  cases o <;> simp

end Fragment

/-! ### The same up to separators -/

/-- The fragments are the same up to separators. -/
@[simp] abbrev Fragment.Same (drop : Bool) (f g : Fragment) : Prop :=
  Piece.thinAll drop f = Piece.thinAll drop g

/-- The fragments of both lists are the same up to separators. -/
@[simp] abbrev Fragment.SameAll (drop : Bool) (fs gs : List Fragment) : Prop :=
  fs.map (Piece.thinAll drop) = gs.map (Piece.thinAll drop)

/-- The fragments are the same up to separators, if there are any. -/
@[simp] abbrev Fragment.SameOption (drop : Bool) (f g : Option Fragment) : Prop :=
  f.map (Piece.thinAll drop) = g.map (Piece.thinAll drop)

/-- The items are the same up to separators. -/
@[simp] abbrev Code.Same (drop : Bool) (cs ds : List Code) : Prop :=
  Code.thinAll drop cs = Code.thinAll drop ds

/-- The items are the same up to separators, and what comes with them is the same. -/
@[simp] abbrev Code.SameWith {β : Type} (drop : Bool) (r s : List Code × β) : Prop :=
  Code.Same drop r.1 s.1 ∧ r.2 = s.2

/-- The branches are the same up to separators. -/
@[simp] abbrev Branch.Same (drop : Bool) (bs cs : List Branch) : Prop :=
  Branch.thinAll drop bs = Branch.thinAll drop cs

/-- Two fragments alike after thinning pass the same tests of all characters. -/
theorem Fragment.Same.allChars {f g : Fragment} (h : Fragment.Same drop f g) (p : Char → Bool) :
    f.allChars p = g.allChars p := by
  rw [← Fragment.allChars_thinAll p f, h, Fragment.allChars_thinAll]

/-- Two pieces of code alike after thinning leave the same loops. -/
theorem Code.Same.anyLeaves {cs ds : List Code} (h : Code.Same drop cs ds) (loop : Nat) :
    Code.anyLeaves loop cs = Code.anyLeaves loop ds := by
  rw [← Code.anyLeaves_thinAll loop cs, h, Code.anyLeaves_thinAll]

/-! ### Blank lines -/

namespace Text

/-- A character in front of a text in which no two line ends follow each other. -/
def squeezeCons (c : Char) (cs : List Char) : List Char :=
  if c = '\n' ∧ cs.head? = some '\n' then cs else c :: cs

/-- The text with line ends that follow each other counted as one, so without blank lines. -/
def squeeze (cs : List Char) : List Char :=
  cs.foldr squeezeCons []

/-- A second line end in a row adds nothing. -/
theorem squeezeCons_squeezeCons (cs : List Char) :
    squeezeCons '\n' (squeezeCons '\n' cs) = squeezeCons '\n' cs := by
  unfold squeezeCons
  split <;> simp_all

/-- A squeezed text may stand for the text in front of anything that is squeezed. -/
theorem foldr_squeeze (cs ds : List Char) :
    (squeeze cs).foldr squeezeCons ds = cs.foldr squeezeCons ds := by
  induction cs with
  | nil => rfl
  | cons c cs ih =>
    change (squeezeCons c (squeeze cs)).foldr squeezeCons ds =
      squeezeCons c (cs.foldr squeezeCons ds)
    rw [← ih, squeezeCons]
    split
    · rename_i h
      obtain ⟨rfl, hhead⟩ := h
      obtain ⟨es, hes⟩ := List.head?_eq_some_iff.mp hhead
      rw [hes, List.foldr_cons, squeezeCons_squeezeCons]
    · rw [List.foldr_cons]

/-- Two texts may be squeezed before they are put together and once more after. -/
theorem squeeze_append (cs ds : List Char) :
    squeeze (cs ++ ds) = squeeze (squeeze cs ++ squeeze ds) := by
  have hds : (squeeze ds).foldr squeezeCons [] = squeeze ds := foldr_squeeze ds []
  rw [squeeze, squeeze, List.foldr_append, List.foldr_append, foldr_squeeze, hds]
  rfl

/-- Texts that are the same up to blank lines. -/
abbrev SameLines (cs ds : List Char) : Prop :=
  squeeze cs = squeeze ds

/-- Texts with the same lines may be put together. -/
theorem SameLines.append {cs ds cs' ds' : List Char} (h : SameLines cs cs')
    (h' : SameLines ds ds') : SameLines (cs ++ ds) (cs' ++ ds') := by
  unfold SameLines
  rw [squeeze_append, h, h', ← squeeze_append]

/-- A blank line behind a line is not seen. -/
theorem sameLines_blank (cs : List Char) : SameLines (cs ++ ['\n', '\n']) (cs ++ ['\n']) :=
  .append rfl rfl

end Text

/-! ### Layout without separators -/

namespace Buffer

open Text (SameLines)

/-- The buffers differ at most in blank lines; nothing or a whole line was written last. -/
structure Alike (b b' : Buffer) : Prop where
  level : b.level = b'.level
  indentWidth : b.indentWidth = b'.indentWidth
  style : b.style = b'.style
  lines : SameLines b.reversed.reverse b'.reversed.reverse
  start : ∀ c ∈ b.reversed.head?, c = '\n'

namespace Alike

variable {b b' : Buffer} {s s' : String}

theorem layout (h : b.Alike b') : b.layout = b'.layout := by
  rw [Buffer.layout, Buffer.layout, h.indentWidth, h.style]

theorem indent (h : b.Alike b') : b.indent.Alike b'.indent :=
  ⟨congrArg (· + 1) h.level, h.indentWidth, h.style, h.lines, h.start⟩

theorem dedent (h : b.Alike b') : b.dedent.Alike b'.dedent :=
  ⟨congrArg (· - 1) h.level, h.indentWidth, h.style, h.lines, h.start⟩

/-- Two buffers stay alike when a blank line is written to both. -/
theorem blankLine (h : b.Alike b') : b.blankLine.Alike b'.blankLine := by
  refine ⟨h.level, h.indentWidth, h.style, ?_, fun c hc => ?_⟩
  · simpa [Buffer.blankLine, write] using h.lines.append rfl
  · exact (Option.some.inj hc).symm

/-- Two buffers stay alike when lines alike are written to them. -/
theorem line (h : b.Alike b') (hs : SameLines s.toList s'.toList) :
    (b.line s).Alike (b'.line s') := by
  refine ⟨h.level, h.indentWidth, h.style, ?_, fun c hc => ?_⟩
  · have hindent : b.currentIndent = b'.currentIndent := by
      simp only [currentIndent, indentAt, h.level, h.indentWidth]
    simp only [Buffer.line, writeIndent, Buffer.blankLine, write, List.reverse_append,
      List.reverse_reverse, hindent]
    exact ((h.lines.append rfl).append hs).append rfl
  · exact (Option.some.inj hc).symm

/-- A separator follows the end of a line, so at most it adds a blank line. -/
theorem separator (h : b.Alike b') : b.separator.Alike b' := by
  rw [Buffer.separator]
  split
  · exact h
  · rename_i hneeds
    refine ⟨h.level, h.indentWidth, h.style, ?_, fun c hc => ?_⟩
    · cases hb : b.reversed with
      | nil => simp [hb, needsNoSeparator] at hneeds
      | cons c cs =>
        obtain rfl := h.start c (by simp [hb])
        have hlines := h.lines
        rw [hb] at hlines
        simpa [Buffer.blankLine, write, hb] using
          (Text.sameLines_blank cs.reverse).trans (by simpa using hlines)
    · exact (Option.some.inj hc).symm

/-- Dropping blank lines at the end leaves the line end in front of them. -/
theorem dropBlankTail_alike (cs : List Char) :
    SameLines (dropBlankTail cs).reverse cs.reverse ∧ (dropBlankTail cs).head? = cs.head? := by
  induction cs using dropBlankTail.induct with
  | case1 cs ih =>
    rw [dropBlankTail]
    refine ⟨ih.1.trans ?_, ih.2⟩
    simpa using (Text.sameLines_blank cs.reverse).symm
  | case2 cs hcs =>
    rw [dropBlankTail]
    · exact ⟨rfl, rfl⟩
    · exact hcs

/-- Two buffers stay alike when their blank tails are cut. -/
theorem trimTail (h : b.Alike b') : b.trimTail.Alike b'.trimTail where
  level := h.level
  indentWidth := h.indentWidth
  style := h.style
  lines := (dropBlankTail_alike _).1.trans (h.lines.trans (dropBlankTail_alike _).1.symm)
  start := fun c hc => h.start c ((dropBlankTail_alike b.reversed).2.symm.trans hc)

/-- Two buffers alike are finished to texts with the same lines. -/
theorem finish (h : b.Alike b') : SameLines b.finish.toList b'.finish.toList := by
  simpa only [Buffer.finish, text, String.toList_ofList] using h.trimTail.lines

/-- Two buffers stay alike when blocks with headers alike are opened. -/
theorem openBlock (h : b.Alike b') (hs : SameLines s.toList s'.toList) :
    (b.openBlock s).Alike (b'.openBlock s') := by
  unfold Buffer.openBlock
  rw [h.style]
  split
  · refine (h.line ?_).indent
    simpa using hs.append rfl
  · exact ((h.line hs).line rfl).indent

theorem closeBlock (h : b.Alike b') (suffix : String) :
    (b.closeBlock suffix).Alike (b'.closeBlock suffix) :=
  h.trimTail.dedent.line rfl

/-- Two buffers stay alike when one raw text is written to both. -/
theorem verbatim (h : b.Alike b') (s : String) : (b.verbatim s).Alike (b'.verbatim s) := by
  unfold Buffer.verbatim
  induction Text.lines s generalizing b b' with
  | nil => exact h
  | cons l ls ih =>
    rw [List.foldl_cons, List.foldl_cons]
    split
    · exact ih h.blankLine
    · exact ih (h.line rfl)

end Alike

end Buffer

section Layout

open Text (SameLines)

theorem LayoutStyle.alike_buffer (style : LayoutStyle) (depth : Nat) :
    (style.buffer depth).Alike (style.buffer depth) :=
  ⟨rfl, rfl, rfl, rfl, fun _ h => by cases h⟩

mutual

/-- A thinned piece is rendered with the same lines. -/
theorem Piece.sameLines_render (style : LayoutStyle) (depth : Nat) : ∀ p : Piece,
    SameLines (p.render style depth).toList ((p.thin true).render style depth).toList
  | .text s => by rw [Piece.thin]
  | .nested role body => by
    have hbody := (Code.alike_writeAll body (style.alike_buffer (depth + 1))).lines
    rw [Piece.thin, Piece.render, Piece.render]
    simp only [String.toList_append, Buffer.text, String.toList_ofList]
    exact ((SameLines.append rfl hbody).append rfl).append rfl
  | .arms arms => by
    have harms := Piece.sameLines_renderArms style (depth + 1) arms
    rw [Piece.thin, Piece.render, Piece.render]
    simp only [String.toList_append]
    exact ((SameLines.append rfl harms).append rfl).append rfl
  | .apart content => by
    rw [Piece.thin, Piece.render, Piece.render]
    exact Piece.sameLines_renderAll style depth content

/-- A thinned fragment is rendered with the same lines. -/
theorem Piece.sameLines_renderAll (style : LayoutStyle) (depth : Nat) : ∀ ps : List Piece,
    SameLines (Piece.renderAll style depth ps).toList
      (Piece.renderAll style depth (Piece.thinAll true ps)).toList
  | [] => by rw [Piece.thinAll]
  | p :: ps => by
    rw [Piece.thinAll, Piece.renderAll, Piece.renderAll]
    simp only [String.toList_append]
    exact (Piece.sameLines_render style depth p).append (Piece.sameLines_renderAll style depth ps)

theorem Piece.sameLines_renderArms (style : LayoutStyle) (depth : Nat) :
    ∀ arms : List (List Piece), SameLines (Piece.renderArms style depth arms).toList
      (Piece.renderArms style depth (Piece.thinArms true arms)).toList
  | [] => by rw [Piece.thinArms]
  | arm :: arms => by
    have harm := Piece.sameLines_renderAll style depth arm
    have harms := Piece.sameLines_renderArms style depth arms
    rw [Piece.thinArms, Piece.renderArms, Piece.renderArms]
    simp only [String.toList_append]
    exact ((SameLines.append rfl harm).append rfl).append harms

/-- Writing a line to one buffer and the thinned line to another keeps them alike. -/
theorem Code.alike_write : ∀ (c : Code) {b b' : Buffer}, b.Alike b' →
    (c.write b).Alike (Code.writeAll (c.thin true) b')
  | .line content, b, b', h => by
    rw [Code.thin, Code.writeAll, Code.writeAll, Code.write, Code.write, ← h.layout, ← h.level]
    exact h.line (Piece.sameLines_renderAll _ _ content)
  | .hung content, b, b', h => by
    rw [Code.thin, Code.writeAll, Code.writeAll, Code.write, Code.write, ← h.layout, ← h.level]
    exact h.line (Piece.sameLines_renderAll _ _ content)
  | .jump j, b, b', h => by
    rw [Code.thin, Code.writeAll, Code.writeAll, Code.write, Code.write]
    exact h.line rfl
  | .exitLabel loop, b, b', h => by
    rw [Code.thin, Code.writeAll, Code.writeAll, Code.write, Code.write]
    exact h.line rfl
  | .blank, b, b', h => by
    rw [Code.thin, Code.writeAll, Code.writeAll, Code.write, Code.write]
    exact h.blankLine
  | .separator, b, b', h => by
    rw [Code.thin, if_pos rfl, Code.writeAll, Code.write]
    exact h.separator
  | .verbatim text, b, b', h => by
    rw [Code.thin, Code.writeAll, Code.writeAll, Code.write, Code.write]
    exact h.verbatim text
  | .block role header body suffix, b, b', h => by
    have hheader := Piece.sameLines_renderAll b.layout b.level header
    rw [Code.thin, Code.writeAll, Code.writeAll, Code.write, Code.write, ← h.layout, ← h.level]
    exact (Code.alike_writeAll body (h.openBlock hheader)).closeBlock suffix
  | .braces body, b, b', h => by
    rw [Code.thin, Code.writeAll, Code.writeAll, Code.write, Code.write]
    exact (Code.alike_writeAll body (h.line rfl).indent).closeBlock ""
  | .indented body, b, b', h => by
    rw [Code.thin, Code.writeAll, Code.writeAll, Code.write, Code.write]
    exact (Code.alike_writeAll body h.indent).dedent
  | .chain branches, b, b', h => by
    rw [Code.thin, Code.writeAll, Code.writeAll, Code.write, Code.write]
    exact (Branch.alike_writeFirst branches h).closeBlock ""

/-- Writing code to one buffer and the thinned code to another keeps them alike. -/
theorem Code.alike_writeAll : ∀ (cs : List Code) {b b' : Buffer}, b.Alike b' →
    (Code.writeAll cs b).Alike (Code.writeAll (Code.thinAll true cs) b')
  | [], b, b', h => by
    rw [Code.thinAll, Code.writeAll, Code.writeAll]
    exact h
  | c :: cs, b, b', h => by
    have happend : ∀ (ds es : List Code) (b : Buffer),
        Code.writeAll (ds ++ es) b = Code.writeAll es (Code.writeAll ds b) := by
      intro ds es b
      induction ds generalizing b with
      | nil => rw [List.nil_append, Code.writeAll]
      | cons d ds ih => rw [List.cons_append, Code.writeAll, Code.writeAll, ih]
    rw [Code.thinAll, Code.writeAll, happend]
    exact Code.alike_writeAll cs (Code.alike_write c h)

theorem Branch.alike_writeFirst : ∀ (branches : List Branch) {b b' : Buffer}, b.Alike b' →
    (Branch.writeFirst branches b).Alike (Branch.writeFirst (Branch.thinAll true branches) b')
  | [], b, b', h => by
    rw [Branch.thinAll, Branch.writeFirst, Branch.writeFirst]
    exact h.openBlock rfl
  | .mk header body :: branches, b, b', h => by
    have hheader := Piece.sameLines_renderAll b.layout b.level header
    rw [Branch.thinAll, Branch.writeFirst, Branch.writeFirst, ← h.layout, ← h.level]
    exact Branch.alike_writeRest branches (Code.alike_writeAll body (h.openBlock hheader))

/-- The branches behind an `if` keep two buffers alike. -/
theorem Branch.alike_writeRest : ∀ (branches : List Branch) {b b' : Buffer}, b.Alike b' →
    (Branch.writeRest branches b).Alike (Branch.writeRest (Branch.thinAll true branches) b')
  | [], b, b', h => by
    rw [Branch.thinAll, Branch.writeRest, Branch.writeRest]
    exact h
  | .mk header body :: branches, b, b', h => by
    have hheader := Piece.sameLines_renderAll b.dedent.layout b.dedent.level header
    rw [Branch.thinAll, Branch.writeRest, Branch.writeRest, ← h.dedent.layout, ← h.dedent.level]
    refine Branch.alike_writeRest branches
      (Code.alike_writeAll body (h.dedent.line ?_).indent)
    simp only [String.toList_append]
    exact (SameLines.append rfl hheader).append rfl

end

/-- Without separators the same text is laid out, up to blank lines. -/
theorem Code.squeeze_render (style : LayoutStyle) (code : List Code) :
    Text.squeeze (Code.render style code).toList =
      Text.squeeze (Code.render style (Code.thinAll true code)).toList :=
  (Code.alike_writeAll code (style.alike_buffer 0)).finish

end Layout

end SourceGen
