import SourceGen.Layout.Code

/-!
# Marks of a code tree

What a code tree says about jumps: the jumps with what stands around them, the numbered loops and
the labels behind loops, in the order of the text. Everything else is forgotten.

## Main definitions

* `Enclosure`, `Path`: what a jump has to pass on its way out, innermost first.
* `Mark`: a jump, a numbered loop or a label.
* `Code.allMarks`, `Piece.allMarks`: the marks of code and of fragments.
* `Mark.AtLevel`: the jump is made outside the loops in the code.
* `Mark.Trapped`: an unlabelled jump is made directly in a labelled body.

## Main results

* `Code.allMarks_append`, `Piece.allMarks_append`: the marks of a sequence.
* `Mark.jump_mem_under`, `Mark.count_under`: what becomes of marks inside an enclosure.
-/

namespace SourceGen

/-- Something that stands around a jump. -/
inductive Enclosure where
  /-- A loop with its number, if it has one. -/
  | loop (number : Option Nat)
  /-- A multi-way branch. -/
  | switch
  /-- The labelled body of a loop. -/
  | labelled (number : Nat)
  /-- The body of a function or a closure, which no jump leaves. -/
  | body
  deriving DecidableEq, Repr

/-- Inside, the innermost loop is the same as outside. -/
def Enclosure.keepsLoop : Enclosure → Bool
  | .switch | .labelled _ => true
  | .loop _ | .body => false

/-- What stands around a jump, innermost first. -/
abbrev Path :=
  List Enclosure

/-- What a block puts around its content. -/
def BlockRole.walls : BlockRole → Path
  | .plain => []
  | .loop number => [.loop number]
  | .switch => [.switch]
  | .labelled number => [.labelled number]
  | .function => [.body]

/-- What nested code has around it. -/
def NestedRole.walls : NestedRole → Path
  | .closure => [.body]
  | .value => []

/-- The numbered loop that a block is. -/
def BlockRole.loopNumber? : BlockRole → Option Nat
  | .loop number => number
  | _ => none

/-- A place of a code tree that matters for jumps. -/
inductive Mark where
  | jump (path : Path) (jump : Jump)
  /-- A numbered loop. -/
  | loop (number : Nat)
  /-- The label behind the loop with this number. -/
  | label (loop : Nat)
  deriving DecidableEq, Repr

namespace Mark

/-- The mark with more around it. -/
def under (walls : Path) : Mark → Mark
  | jump path j => jump (path ++ walls) j
  | m => m

/-- The marks have this jump in no loop of theirs; `closed` says whether it is in a body of
theirs. -/
def AtLevel (closed : Bool) (ms : List Mark) (j : Jump) : Prop :=
  ∃ path : Path, jump path j ∈ ms ∧ (∀ l, .loop l ∉ path) ∧ (.body ∈ path ↔ closed = true)

/-- The jump leaves the innermost loop or goes to its next round, without a label. -/
def Unlabelled (j : Jump) : Prop :=
  j = .leaveInnermost ∨ j = .nextRound

/-- The marks have an unlabelled jump in a labelled body, with no loop in between. -/
def Trapped (ms : List Mark) : Prop :=
  ∃ (inner outer : Path) (n : Nat) (j : Jump), jump (inner ++ .labelled n :: outer) j ∈ ms ∧
    (∀ l, .loop l ∉ inner) ∧ Unlabelled j

/-- The marks have a jump behind the loop with this number. -/
def Leaves (n : Nat) (ms : List Mark) : Prop :=
  ∃ path, jump path (.leaveLoop n) ∈ ms

variable {ms ms' : List Mark} {walls path : Path} {e : Enclosure} {j : Jump} {n : Nat}
  {closed : Bool}

@[simp] theorem map_under_nil : ms.map (under []) = ms := by
  have h : under [] = id := by
    funext m
    cases m <;> simp [under]
  rw [h, List.map_id]

@[simp] theorem jump_mem_under :
    jump path j ∈ ms.map (under walls) ↔ ∃ p, jump p j ∈ ms ∧ p ++ walls = path := by
  simp only [List.mem_map]
  constructor
  · rintro ⟨m, hm, h⟩
    cases m with
    | jump p j' =>
      simp only [under, jump.injEq] at h
      obtain ⟨hp, rfl⟩ := h
      exact ⟨p, hm, hp⟩
    | loop m => simp [under] at h
    | label m => simp [under] at h
  · rintro ⟨p, hm, rfl⟩
    exact ⟨jump p j, hm, rfl⟩

/-- Loops and labels stay what they are inside an enclosure. -/
theorem count_under {m : Mark} (hm : ∀ path j, m ≠ jump path j) :
    (ms.map (under walls)).count m = ms.count m := by
  induction ms with
  | nil => rfl
  | cons m' ms ih =>
    rw [List.map_cons, List.count_cons, List.count_cons, ih]
    cases m' with
    | jump p j =>
      have h : ∀ p', (jump p' j == m) = false := fun p' => by
        simpa using (hm p' j).symm
      simp [under, h]
    | loop k => rfl
    | label k => rfl

@[simp] theorem count_loop_under : (ms.map (under walls)).count (loop n) = ms.count (loop n) :=
  count_under fun _ _ => by simp

@[simp] theorem count_label_under : (ms.map (under walls)).count (label n) = ms.count (label n) :=
  count_under fun _ _ => by simp

theorem loop_mem_under : loop n ∈ ms.map (under walls) ↔ loop n ∈ ms := by
  rw [← List.count_pos_iff, count_loop_under, List.count_pos_iff]

theorem label_mem_under : label n ∈ ms.map (under walls) ↔ label n ∈ ms := by
  rw [← List.count_pos_iff, count_label_under, List.count_pos_iff]

@[simp] theorem leaves_under : Leaves n (ms.map (under walls)) ↔ Leaves n ms := by
  unfold Leaves
  simp only [jump_mem_under]
  constructor
  · rintro ⟨path, p, hp, -⟩
    exact ⟨p, hp⟩
  · rintro ⟨p, hp⟩
    exact ⟨p ++ walls, p, hp, rfl⟩

@[simp] theorem leaves_append : Leaves n (ms ++ ms') ↔ Leaves n ms ∨ Leaves n ms' := by
  simp only [Leaves, List.mem_append, exists_or]

@[simp] theorem leaves_loop_cons {m : Nat} : Leaves n (loop m :: ms) ↔ Leaves n ms := by
  simp [Leaves]

@[simp] theorem leaves_label_cons {m : Nat} : Leaves n (label m :: ms) ↔ Leaves n ms := by
  simp [Leaves]

@[simp] theorem not_leaves_nil : ¬ Leaves n [] := by
  simp [Leaves]

@[simp] theorem not_atLevel_nil : ¬ AtLevel closed [] j := by
  simp [AtLevel]

@[simp] theorem atLevel_append :
    AtLevel closed (ms ++ ms') j ↔ AtLevel closed ms j ∨ AtLevel closed ms' j := by
  simp only [AtLevel, List.mem_append, or_and_right, exists_or]

/-- Inside a switch or a labelled body the level is the same. -/
theorem atLevel_under_of_keepsLoop (he : e.keepsLoop) :
    AtLevel closed (ms.map (under [e])) j ↔ AtLevel closed ms j := by
  have hloop : ∀ l, e ≠ .loop l := by
    rintro l rfl
    simp [Enclosure.keepsLoop] at he
  have hbody : e ≠ .body := by
    rintro rfl
    simp [Enclosure.keepsLoop] at he
  simp only [AtLevel, jump_mem_under]
  constructor
  · rintro ⟨path, ⟨p, hp, rfl⟩, hno, hclosed⟩
    refine ⟨p, hp, fun l hl => hno l (List.mem_append_left _ hl), ?_⟩
    simpa [hbody.symm] using hclosed
  · rintro ⟨p, hp, hno, hclosed⟩
    refine ⟨p ++ [e], ⟨p, hp, rfl⟩, fun l => ?_, ?_⟩
    · simpa [(hloop l).symm] using hno l
    · simpa [hbody.symm] using hclosed

/-- Nothing inside a loop is outside of all loops. -/
theorem not_atLevel_under_loop {number : Option Nat} :
    ¬ AtLevel closed (ms.map (under [.loop number])) j := by
  simp only [AtLevel, jump_mem_under]
  rintro ⟨path, ⟨p, -, rfl⟩, hno, -⟩
  exact hno number (by simp)

/-- Everything inside a body is closed. -/
theorem atLevel_under_body :
    AtLevel closed (ms.map (under [.body])) j ↔ closed = true ∧ ∃ c, AtLevel c ms j := by
  simp only [AtLevel, jump_mem_under]
  constructor
  · rintro ⟨path, ⟨p, hp, rfl⟩, hno, hclosed⟩
    exact ⟨hclosed.mp (by simp), decide (.body ∈ p), p, hp,
      fun l hl => hno l (List.mem_append_left _ hl), by simp⟩
  · rintro ⟨rfl, c, p, hp, hno, -⟩
    exact ⟨p ++ [.body], ⟨p, hp, rfl⟩, fun l => by simpa using hno l, by simp⟩

@[simp] theorem not_trapped_nil : ¬ Trapped [] := by
  simp [Trapped]

@[simp] theorem trapped_append : Trapped (ms ++ ms') ↔ Trapped ms ∨ Trapped ms' := by
  simp only [Trapped, List.mem_append, or_and_right, exists_or]

/-- A jump is trapped inside an enclosure if it was, or if the enclosure is a labelled body and no
loop of the marks is around the jump. -/
theorem trapped_under : Trapped (ms.map (under [e])) ↔
    Trapped ms ∨ (∃ n, e = .labelled n) ∧ ∃ c j, AtLevel c ms j ∧ Unlabelled j := by
  simp only [Trapped, jump_mem_under]
  constructor
  · rintro ⟨inner, outer, n, j, ⟨p, hp, hpath⟩, hno, hj⟩
    rcases List.eq_nil_or_concat outer with rfl | ⟨outer', x, rfl⟩
    · -- The labelled body is the enclosure itself, and nothing else is around the jump.
      obtain ⟨rfl, he⟩ := List.append_inj' hpath rfl
      exact .inr ⟨⟨n, by simpa using he⟩, decide (.body ∈ p), j, ⟨p, hp, hno, by simp⟩, hj⟩
    · have hpath' : p ++ [e] = (inner ++ .labelled n :: outer') ++ [x] := by simpa using hpath
      obtain ⟨rfl, -⟩ := List.append_inj' hpath' rfl
      exact .inl ⟨inner, outer', n, j, hp, hno, hj⟩
  · rintro (⟨inner, outer, n, j, hmem, hno, hj⟩ | ⟨⟨n, rfl⟩, c, j, ⟨p, hp, hno, -⟩, hj⟩)
    · exact ⟨inner, outer ++ [e], n, j, ⟨_, hmem, by simp⟩, hno, hj⟩
    · exact ⟨p, [], n, j, ⟨p, hp, rfl⟩, hno, hj⟩

end Mark

/-! ### The marks of code -/

mutual

/-- The marks of a part of a line. -/
def Piece.marks : Piece → List Mark
  | .text _ => []
  | .nested role body => (Code.allMarks body).map (Mark.under role.walls)
  | .arms arms => Piece.armMarks arms
  | .apart content => (Piece.allMarks content).map (Mark.under [.body])

/-- The marks of a fragment. -/
def Piece.allMarks : List Piece → List Mark
  | [] => []
  | p :: ps => p.marks ++ Piece.allMarks ps

/-- The marks of arms. -/
def Piece.armMarks : List (List Piece) → List Mark
  | [] => []
  | arm :: arms => Piece.allMarks arm ++ Piece.armMarks arms

/-- The marks of an item. The header of a block stands outside it. -/
def Code.marks : Code → List Mark
  | .line content => Piece.allMarks content
  | .hung content => Piece.allMarks content
  | .jump j => [.jump [] j]
  | .exitLabel n => [.label n]
  | .blank => []
  | .separator => []
  | .verbatim _ => []
  | .block role header body _ =>
    Piece.allMarks header ++ role.loopNumber?.toList.map Mark.loop ++
      (Code.allMarks body).map (Mark.under role.walls)
  | .braces body => Code.allMarks body
  | .indented body => Code.allMarks body
  | .chain branches => Branch.allMarks branches

/-- The marks of items. -/
def Code.allMarks : List Code → List Mark
  | [] => []
  | c :: cs => c.marks ++ Code.allMarks cs

/-- The marks of the branches of a chain. -/
def Branch.allMarks : List Branch → List Mark
  | [] => []
  | .mk header body :: branches =>
    Piece.allMarks header ++ Code.allMarks body ++ Branch.allMarks branches

end

attribute [local simp] Piece.marks Piece.allMarks Piece.armMarks Code.marks Code.allMarks
  Branch.allMarks

@[simp] theorem Piece.allMarks_append (f g : Fragment) :
    Piece.allMarks (f ++ g) = Piece.allMarks f ++ Piece.allMarks g := by
  induction f with
  | nil => simp [Piece.allMarks]
  | cons p f ih => simp [Piece.allMarks, ih]

@[simp] theorem Code.allMarks_append (cs ds : List Code) :
    Code.allMarks (cs ++ ds) = Code.allMarks cs ++ Code.allMarks ds := by
  induction cs with
  | nil => simp [Code.allMarks]
  | cons c cs ih => simp [Code.allMarks, ih]

@[simp] theorem Code.allMarks_singleton (c : Code) : Code.allMarks [c] = c.marks := by
  simp [Code.allMarks]

@[simp] theorem Piece.allMarks_singleton (p : Piece) : Piece.allMarks [p] = p.marks := by
  simp [Piece.allMarks]

@[simp] theorem Piece.allMarks_cons (p : Piece) (f : Fragment) :
    Piece.allMarks (p :: f) = p.marks ++ Piece.allMarks f := by
  rw [Piece.allMarks]

@[simp] theorem Code.allMarks_nil : Code.allMarks [] = [] := by
  rw [Code.allMarks]

@[simp] theorem Code.allMarks_cons (c : Code) (cs : List Code) :
    Code.allMarks (c :: cs) = c.marks ++ Code.allMarks cs := by
  rw [Code.allMarks]

@[simp] theorem Piece.allMarks_nil : Piece.allMarks [] = [] := by
  rw [Piece.allMarks]

@[simp] theorem Piece.allMarks_text (s : String) : Piece.allMarks (Fragment.text s) = [] := by
  rw [Fragment.text, Piece.allMarks_singleton, Piece.marks]

@[simp] theorem Piece.allMarks_parens (f : Fragment) :
    Piece.allMarks f.parens = Piece.allMarks f := by
  simp [Fragment.parens]

@[simp] theorem Piece.armMarks_append (fs gs : List Fragment) :
    Piece.armMarks (fs ++ gs) = Piece.armMarks fs ++ Piece.armMarks gs := by
  induction fs with
  | nil => simp [Piece.armMarks]
  | cons f fs ih => simp [Piece.armMarks, ih]

/-- Between fragments there is only text. -/
@[simp] theorem Piece.allMarks_join (sep : String) (fs : List Fragment) :
    Piece.allMarks (Fragment.join sep fs) = Piece.armMarks fs := by
  induction fs with
  | nil => simp [Fragment.join, Piece.armMarks]
  | cons f fs ih =>
    cases fs with
    | nil => simp [Fragment.join, Piece.armMarks]
    | cons g gs => simp [Fragment.join, Piece.armMarks, ih]

theorem Piece.marks_arms_cons (f : Fragment) (fs : List Fragment) :
    (Piece.arms (f :: fs)).marks = Piece.allMarks f ++ (Piece.arms fs).marks := by
  rw [Piece.marks, Piece.marks, Piece.armMarks]

@[simp] theorem Code.marks_line (f : Fragment) : (Code.line f).marks = Piece.allMarks f := by
  rw [Code.marks]

@[simp] theorem Code.marks_hung (f : Fragment) : (Code.hung f).marks = Piece.allMarks f := by
  rw [Code.marks]

@[simp] theorem Code.marks_braces (body : List Code) :
    (Code.braces body).marks = Code.allMarks body := by
  rw [Code.marks]

@[simp] theorem Code.marks_indented (body : List Code) :
    (Code.indented body).marks = Code.allMarks body := by
  rw [Code.marks]

@[simp] theorem Code.marks_separator : Code.separator.marks = [] := by
  rw [Code.marks]

theorem Code.marks_block {role : BlockRole} (h : role.loopNumber? = none) (header : Fragment)
    (body : List Code) (suffix : String) :
    (Code.block role header body suffix).marks =
      Piece.allMarks header ++ (Code.allMarks body).map (Mark.under role.walls) := by
  simp [Code.marks, h]

/-- A loop without a number. -/
theorem Code.marks_loop (header : Fragment) (body : List Code) (suffix : String) :
    (Code.block (.loop none) header body suffix).marks =
      Piece.allMarks header ++ (Code.allMarks body).map (Mark.under [.loop none]) :=
  Code.marks_block rfl header body suffix

/-- Jumps pass through a plain block. -/
theorem Code.marks_plain (header : Fragment) (body : List Code) (suffix : String) :
    (Code.block .plain header body suffix).marks =
      Piece.allMarks header ++ Code.allMarks body := by
  simp [Code.marks, BlockRole.loopNumber?, BlockRole.walls]

theorem Code.anyLeaves_append (n : Nat) (cs ds : List Code) :
    Code.anyLeaves n (cs ++ ds) = (Code.anyLeaves n cs || Code.anyLeaves n ds) := by
  induction cs with
  | nil => simp [Code.anyLeaves]
  | cons c cs ih => simp [Code.anyLeaves, ih, Bool.or_assoc]

end SourceGen
