import SourceGen.Proofs.CSharp.JumpBound

/-!
# Labels of written C# code

A loop has a label exactly if something jumps behind it, and the label is the next item behind the
loop.

## Main definitions

* `CSharp.Labelled`: the labels are those of the loops that something jumps behind.
* `Code.allPlaced`: every label stands directly behind its loop.

## Main results

* `CSharp.Written.labelled`, `CSharp.Written.count_label_le`: which labels there are.
* `CSharp.Written.placed`: where they are.
-/

namespace SourceGen

namespace CSharp

variable {loop : Option LoopFrame} {a b c n : Nat} {ms ms' : List Mark} {code : List Code}
  {ps : List Path}

/-! ### Which labels there are -/

/-- Among the loops from the number `a` on, exactly those have a label that something jumps
behind, and no loop has two. -/
structure Labelled (a : Nat) (ms : List Mark) : Prop where
  label_iff : ∀ n, Mark.label n ∈ ms ↔ a ≤ n ∧ Mark.Leaves n ms
  count_le : ∀ n, ms.count (.label n) ≤ ms.count (.loop n)

namespace Labelled

theorem nil : Labelled a [] where
  label_iff := by simp
  count_le := by simp

/-- Code in two parts. A jump in the second part goes behind one of its own loops, or behind a loop
around both parts, which has a smaller number. -/
theorem append (loop : Option LoopFrame) (hbelow : ∀ f ∈ loop, f.number < a) (hle : a ≤ b)
    (hms' : Bound loop b c ms') (h : Labelled a ms) (h' : Labelled b ms') :
    Labelled a (ms ++ ms') where
  label_iff n := by
    rw [List.mem_append, Mark.leaves_append, h.label_iff n, h'.label_iff n]
    constructor
    · rintro (⟨hn, hleaves⟩ | ⟨hn, hleaves⟩)
      · exact ⟨hn, .inl hleaves⟩
      · exact ⟨by omega, .inr hleaves⟩
    · rintro ⟨hn, hleaves | hleaves⟩
      · exact .inl ⟨hn, hleaves⟩
      -- A jump of the second part to a number from `a` on stays in that part.
      · rcases hms'.leaves_range hleaves with ⟨hb, -⟩ | ⟨f, hf, rfl⟩
        · exact .inr ⟨hb, hleaves⟩
        · exact absurd (hbelow f hf) (by omega)
  count_le n := by
    rw [List.count_append, List.count_append]
    exact Nat.add_le_add (h.count_le n) (h'.count_le n)

theorem perm (h : Labelled a ms) (hp : ms.Perm ms') : Labelled a ms' where
  label_iff n := by
    simp only [Mark.Leaves, ← hp.mem_iff]
    exact h.label_iff n
  count_le n := by
    rw [← hp.count_eq, ← hp.count_eq]
    exact h.count_le n

theorem under (h : Labelled a ms) (walls : Path) : Labelled a (ms.map (Mark.under walls)) where
  label_iff n := by
    rw [Mark.label_mem_under, Mark.leaves_under]
    exact h.label_iff n
  count_le n := by
    rw [Mark.count_label_under, Mark.count_loop_under]
    exact h.count_le n

/-- A loop with the number `a`, and its label if something in it jumps there. -/
theorem loopBlock {walls : Path} {p : Bool} (h : Labelled (a + 1) ms)
    (hp : p = true ↔ Mark.Leaves a ms) :
    Labelled a ((.loop a :: ms.map (Mark.under walls)) ++ if p then [.label a] else []) where
  label_iff n := by
    have hinner : Mark.label n ∈ .loop a :: ms.map (Mark.under walls) ↔
        a + 1 ≤ n ∧ Mark.Leaves n ms := by
      simp [Mark.label_mem_under, h.label_iff n]
    have hown : Mark.label n ∈ (if p then [Mark.label a] else []) ↔
        n = a ∧ Mark.Leaves a ms := by
      rw [← hp]
      cases p <;> simp
    have hleaves : Mark.Leaves n ((.loop a :: ms.map (Mark.under walls)) ++
        if p then [.label a] else []) ↔ Mark.Leaves n ms := by
      cases p <;> simp
    -- The label of the loop is its own, and those of later loops are inside.
    rw [List.mem_append, hinner, hown, hleaves]
    constructor
    · rintro (⟨hn, h⟩ | ⟨rfl, h⟩)
      · exact ⟨by omega, h⟩
      · exact ⟨Nat.le_refl n, h⟩
    · rintro ⟨hn, h⟩
      rcases Nat.eq_or_lt_of_le hn with rfl | hlt
      · exact .inr ⟨rfl, h⟩
      · exact .inl ⟨hlt, h⟩
  count_le n := by
    have hle := h.count_le n
    have hown : List.count (Mark.label n) (if p then [Mark.label a] else []) ≤
        if a = n then 1 else 0 := by
      cases p <;> by_cases hn : a = n <;> simp [hn]
    simp only [List.cons_append, List.count_cons, List.count_append, Mark.count_label_under,
      Mark.count_loop_under, beq_iff_eq, Mark.loop.injEq, reduceCtorEq, if_false]
    omega

end Labelled

mutual

theorem WrittenFragment.labelled {a b : Nat} {f : Fragment} :
    WrittenFragment a b f → Labelled a (Piece.allMarks f)
  | .nil => by
    rw [Piece.allMarks]
    exact .nil
  | .text _ => by
    rw [Piece.allMarks_singleton, Piece.marks]
    exact .nil
  | .noArms => by
    rw [Piece.allMarks_singleton, Piece.marks, Piece.armMarks]
    exact .nil
  | .append hf hg => by
    rw [Piece.allMarks_append]
    exact .append none (by simp) hf.le hg.bound hf.labelled hg.labelled
  | .prepend hf hg => by
    rw [Piece.allMarks_append]
    exact (Labelled.append none (by simp) hf.le hg.bound hf.labelled hg.labelled).perm
      List.perm_append_comm
  | .closure h => by
    rw [Piece.allMarks_singleton, Piece.marks]
    exact (h.labelled (by simp)).under _
  | .arm hf hfs => by
    have hrest := hfs.labelled
    have hbound : Bound none _ _ (Piece.allMarks _) := hfs.bound
    rw [Piece.allMarks_singleton] at hrest hbound ⊢
    rw [Piece.marks_arms_cons]
    exact .append none (by simp) hf.le hbound hf.labelled hrest

theorem Written.labelled {loop : Option LoopFrame} {ps : List Path} {a b : Nat}
    {code : List Code} : Written loop ps a b code → (∀ f ∈ loop, f.number < a) →
      Labelled a (Code.allMarks code)
  | .nil, _ => by
    rw [Code.allMarks]
    exact .nil
  | .append h h', hbelow => by
    rw [Code.allMarks_append]
    have hle := h.le
    exact .append loop hbelow hle h'.bound (h.labelled hbelow)
      (h'.labelled fun f hf => Nat.lt_of_lt_of_le (hbelow f hf) hle)
  | .line hf, _ => by
    rw [Code.allMarks_singleton, Code.marks]
    exact hf.labelled
  | .leave, hbelow => by
    refine ⟨fun n => ⟨by simp [Code.marks], ?_⟩, by simp [Code.marks]⟩
    -- The loop around the code has a smaller number than the loops in it.
    rintro ⟨ha, path, h⟩
    obtain ⟨-, hj⟩ : path = [] ∧ Jump.leaveLoop n = leaveLoop loop := by
      simpa [Code.marks] using h
    exact absurd (hbelow _ (leaveLoop_eq_leaveLoop.mp hj.symm)) (by simpa using ha)
  | .nextRound, _ | .endCase, _ | .separator, _ | .verbatim _, _ => by
    refine ⟨?_, ?_⟩ <;> simp [Code.marks, Mark.Leaves]
  | .plain hheader h, hbelow => by
    have hle := hheader.le
    have hbody := h.labelled fun f hf => Nat.lt_of_lt_of_le (hbelow f hf) hle
    rw [Code.allMarks_singleton, Code.marks_plain]
    exact .append loop hbelow hle h.bound hheader.labelled hbody
  | .switch hheader h, hbelow => by
    have hle := hheader.le
    have hbody := h.labelled (by
      rintro f hf
      obtain ⟨f', hf', rfl⟩ := Option.map_eq_some_iff.mp hf
      exact Nat.lt_of_lt_of_le (hbelow f' hf') hle)
    rw [Code.allMarks_singleton, Code.marks_block rfl]
    exact .append loop hbelow hle (Bound.under (e := .switch) h.bound (by simp)) hheader.labelled
      (hbody.under _)
  | .loop hheader h, hbelow => by
    have hle := hheader.le
    have hbody := h.labelled (by simp)
    rw [allMarks_loopCode]
    -- The generator searches the body for jumps to decide on the label, and finds all of them.
    have hsearch := h.anyLeaves_iff fun hn => Nat.not_succ_le_self _ hn.1
    exact .append loop hbelow hle (h.bound.loopBlock.append_label _ _) hheader.labelled
      (hbody.loopBlock hsearch)
  | .function hheader h, hbelow => by
    rw [Code.allMarks_singleton, Code.marks_block rfl]
    exact .append loop hbelow hheader.le (Bound.under (e := .body) h.bound (by simp))
      hheader.labelled ((h.labelled (by simp)).under _)
  | .braces h, hbelow | .indented h, hbelow => by
    rw [Code.allMarks_singleton, Code.marks]
    exact h.labelled hbelow

end

end CSharp

/-! ### Where the labels are -/

mutual

/-- The labels in a part of a line stand behind their loops. -/
def Piece.placed : Piece → Prop
  | .text _ => True
  | .nested _ body => Code.allPlaced none body
  | .arms arms => Piece.armsPlaced arms
  | .apart content => Piece.allPlaced content

/-- The labels in a fragment stand behind their loops. -/
def Piece.allPlaced : List Piece → Prop
  | [] => True
  | p :: ps => p.placed ∧ Piece.allPlaced ps

/-- The labels in arms stand behind their loops. -/
def Piece.armsPlaced : List (List Piece) → Prop
  | [] => True
  | arm :: arms => Piece.allPlaced arm ∧ Piece.armsPlaced arms

/-- If the item is a label, then the one in front of it is the loop with its number; the labels in
the item stand behind their loops. -/
def Code.placed (before : Option Code) : Code → Prop
  | .exitLabel n => ∃ header body, before = some (.block (.loop (some n)) header body "")
  | .line content => Piece.allPlaced content
  | .hung content => Piece.allPlaced content
  | .block _ header body _ => Piece.allPlaced header ∧ Code.allPlaced none body
  | .braces body => Code.allPlaced none body
  | .indented body => Code.allPlaced none body
  | .chain branches => Branch.allPlaced branches
  | .jump _ | .blank | .separator | .verbatim _ => True

/-- Every label stands directly behind the loop with its number. -/
def Code.allPlaced (before : Option Code) : List Code → Prop
  | [] => True
  | c :: cs => c.placed before ∧ Code.allPlaced (some c) cs

/-- The labels in the branches of a chain stand behind their loops. -/
def Branch.allPlaced : List Branch → Prop
  | [] => True
  | .mk header body :: branches =>
    Piece.allPlaced header ∧ Code.allPlaced none body ∧ Branch.allPlaced branches

end

@[simp] theorem Piece.allPlaced_append (f g : Fragment) :
    Piece.allPlaced (f ++ g) ↔ Piece.allPlaced f ∧ Piece.allPlaced g := by
  induction f with
  | nil => simp [Piece.allPlaced]
  | cons p f ih => simp [Piece.allPlaced, ih, and_assoc]

/-- Code that may stand anywhere may stand behind other code. -/
theorem Code.allPlaced_append {before : Option Code} {cs ds : List Code}
    (h : Code.allPlaced before cs) (h' : ∀ before, Code.allPlaced before ds) :
    Code.allPlaced before (cs ++ ds) := by
  induction cs generalizing before with
  | nil => exact h' before
  | cons c cs ih =>
    rw [Code.allPlaced] at h
    rw [List.cons_append, Code.allPlaced]
    exact ⟨h.1, ih h.2⟩

namespace CSharp

mutual

theorem WrittenFragment.placed {a b : Nat} {f : Fragment} :
    WrittenFragment a b f → Piece.allPlaced f
  | .nil | .text _ | .noArms => by simp [Piece.allPlaced, Piece.placed, Piece.armsPlaced]
  | .append hf hg => (Piece.allPlaced_append _ _).mpr ⟨hf.placed, hg.placed⟩
  | .prepend hf hg => (Piece.allPlaced_append _ _).mpr ⟨hg.placed, hf.placed⟩
  | .closure h => by simpa [Piece.allPlaced, Piece.placed] using h.placed none
  | .arm hf hfs => by
    have hrest := hfs.placed
    simp only [Piece.allPlaced, Piece.placed, and_true] at hrest ⊢
    exact ⟨hf.placed, hrest⟩

theorem Written.placed {loop : Option LoopFrame} {ps : List Path} {a b : Nat} {code : List Code} :
    Written loop ps a b code → ∀ before, Code.allPlaced before code
  | .nil, _ => by simp [Code.allPlaced]
  | .append h h', before => Code.allPlaced_append (h.placed before) h'.placed
  | .line hf, _ => by simpa [Code.allPlaced, Code.placed] using hf.placed
  | .leave, _ | .nextRound, _ | .endCase, _ | .separator, _ | .verbatim _, _ => by
    simp [Code.allPlaced, Code.placed]
  | .plain hheader h, _ | .switch hheader h, _ | .function hheader h, _ => by
    simpa [Code.allPlaced, Code.placed] using ⟨hheader.placed, h.placed none⟩
  | .loop hheader h, _ => by
    unfold loopCode
    split <;> simpa [Code.allPlaced, Code.placed] using ⟨hheader.placed, h.placed none⟩
  | .braces h, _ | .indented h, _ => by
    simpa [Code.allPlaced, Code.placed] using h.placed none

end

end CSharp

end SourceGen
