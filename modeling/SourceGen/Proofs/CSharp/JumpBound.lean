import SourceGen.Proofs.CSharp.Written

/-!
# Jumps of written C# code

The loop that a jump of written code is bound to can be read off what stands around it. Every loop
around a jump has a number of its own, and a jump by number stays in the body of its loop.

## Main definitions

* `Jump.leavesLoop`: the jumps that a `break` becomes.
* `CSharp.frameAt`: the loop around a place.
* `CSharp.Bound`: jumps leave the loop around them, and loops have numbers of their own.

## Main results

* `CSharp.Written.bound`: the marks of written code are bound.
* `CSharp.Bound.exists_loop`: a jump by number stands in the loop with this number.
* `CSharp.Written.anyLeaves_iff`: the search for jumps behind a loop finds all of them.
-/

namespace SourceGen

/-- The jump is what a `break` becomes. -/
def Jump.leavesLoop : Jump → Bool
  | leaveInnermost | leaveLoop _ => true
  | _ => false

namespace CSharp

/-! ### The loop around a place -/

/-- The loop around a place in the code of a loop `outer`. -/
def frameAt (outer : Option LoopFrame) : Path → Option LoopFrame
  | [] => outer
  | .loop number :: _ => number.map (⟨·, false⟩)
  | .switch :: path => (frameAt outer path).map LoopFrame.enterSwitch
  | .labelled _ :: path => frameAt outer path
  | .body :: _ => none

@[simp] theorem leavesLoop_leaveLoop (loop : Option LoopFrame) :
    (CSharp.leaveLoop loop).leavesLoop = true := by
  rcases loop with _ | ⟨number, _ | _⟩ <;> rfl

/-- A jump by number comes from inside a switch. -/
theorem leaveLoop_eq_leaveLoop {loop : Option LoopFrame} {n : Nat} :
    CSharp.leaveLoop loop = .leaveLoop n ↔ loop = some ⟨n, true⟩ := by
  rcases loop with _ | ⟨number, _ | _⟩ <;> simp [CSharp.leaveLoop]

variable {outer loop : Option LoopFrame} {path inner post walls : Path} {n : Nat}

/-- The loop open at a path is found from the outside in. -/
theorem frameAt_append : frameAt outer (path ++ walls) = frameAt (frameAt outer walls) path := by
  induction path with
  | nil => rfl
  | cons e path ih => cases e <;> simp [frameAt, ih]

/-- The innermost loop is the frame, and the switches in it are known. -/
theorem frameAt_loop (hinner : ∀ e ∈ inner, e.keepsLoop) :
    frameAt outer (inner ++ .loop (some n) :: post) =
      some ⟨n, decide (Enclosure.switch ∈ inner)⟩ := by
  induction inner with
  | nil => rfl
  | cons e inner ih =>
    have hrest := ih fun e' he' => hinner e' (List.mem_cons_of_mem _ he')
    have he := hinner e List.mem_cons_self
    cases e with
    | switch => simp [frameAt, hrest, LoopFrame.enterSwitch]
    | labelled number => simp [frameAt, hrest]
    | loop number => simp [Enclosure.keepsLoop] at he
    | body => simp [Enclosure.keepsLoop] at he

/-- A frame is that of a loop on the path or the one around everything. -/
theorem exists_loop_of_frameAt {frame : LoopFrame} (h : frameAt outer path = some frame) :
    (∃ inner post : Path, path = inner ++ .loop (some frame.number) :: post ∧
      ∀ e ∈ inner, e.keepsLoop) ∨ ∃ f ∈ outer, f.number = frame.number := by
  induction path generalizing frame with
  | nil => exact .inr ⟨frame, h, rfl⟩
  | cons e path ih =>
    cases e with
    | loop number =>
      obtain ⟨k, rfl, rfl⟩ := Option.map_eq_some_iff.mp h
      exact .inl ⟨[], path, rfl, by simp⟩
    | body => simp [frameAt] at h
    | switch =>
      obtain ⟨frame', h', rfl⟩ := Option.map_eq_some_iff.mp h
      rcases ih h' with ⟨inner, post, rfl, hinner⟩ | houter
      · exact .inl ⟨.switch :: inner, post, rfl, by simpa [Enclosure.keepsLoop] using hinner⟩
      · exact .inr houter
    | labelled number =>
      rcases ih h with ⟨inner, post, rfl, hinner⟩ | houter
      · exact .inl ⟨.labelled number :: inner, post, rfl,
          by simpa [Enclosure.keepsLoop] using hinner⟩
      · exact .inr houter

/-! ### Bound marks -/

/-- The marks of code in a loop whose own loops have the numbers from `a` up to `b`. -/
structure Bound (loop : Option LoopFrame) (a b : Nat) (ms : List Mark) : Prop where
  le : a ≤ b
  /-- A jump that leaves a loop leaves the loop around it. -/
  jump_eq : ∀ {path j}, Mark.jump path j ∈ ms → j.leavesLoop → j = leaveLoop (frameAt loop path)
  /-- The loops around a jump are loops of this code, with numbers. -/
  loop_mem : ∀ {path j l}, Mark.jump path j ∈ ms → Enclosure.loop l ∈ path →
    ∃ n, l = some n ∧ Mark.loop n ∈ ms
  count_loop : ∀ n, ms.count (.loop n) = if a ≤ n ∧ n < b then 1 else 0

namespace Bound

variable {a b c : Nat} {ms ms' : List Mark}

/-- Exactly the numbers between the bounds are loops here. -/
theorem loop_mem_iff (h : Bound loop a b ms) : Mark.loop n ∈ ms ↔ a ≤ n ∧ n < b := by
  rw [← List.count_pos_iff, h.count_loop n]
  by_cases hn : a ≤ n ∧ n < b <;> simp [hn]

/-- A jump by number leaves one of the loops in the code or the one around it. -/
theorem leaves_range (h : Bound loop a b ms) (hn : Mark.Leaves n ms) :
    (a ≤ n ∧ n < b) ∨ ∃ f ∈ loop, f.number = n := by
  -- The jump leaves the loop around it, so that loop has the number of the jump.
  obtain ⟨path, hp⟩ := hn
  have hframe := leaveLoop_eq_leaveLoop.mp (h.jump_eq hp rfl).symm
  rcases exists_loop_of_frameAt hframe with ⟨inner, post, rfl, -⟩ | houter
  · obtain ⟨k, hk, hmem⟩ := h.loop_mem hp (l := some n) (by simp)
    cases hk
    exact .inl (h.loop_mem_iff.mp hmem)
  · exact .inr houter

theorem nil : Bound loop a a [] where
  le := Nat.le_refl a
  jump_eq := by simp
  loop_mem := by simp
  count_loop n := by simp

/-- A jump on its own. -/
theorem jump {j : Jump} (hj : j.leavesLoop → j = leaveLoop loop) : Bound loop a a [.jump [] j] where
  le := Nat.le_refl a
  jump_eq := by
    rintro path j' hmem hleaves
    obtain ⟨rfl, rfl⟩ := by simpa using hmem
    exact hj hleaves
  loop_mem := by
    rintro path j' l hmem hl
    obtain ⟨rfl, rfl⟩ := by simpa using hmem
    simp at hl
  count_loop n := by simp

/-- Code in two parts numbers its loops in two ranges in a row. -/
theorem append (h : Bound loop a b ms) (h' : Bound loop b c ms') : Bound loop a c (ms ++ ms') where
  le := Nat.le_trans h.le h'.le
  jump_eq hmem := (List.mem_append.mp hmem).elim h.jump_eq h'.jump_eq
  loop_mem hmem hl := by
    rcases List.mem_append.mp hmem with hmem | hmem
    · obtain ⟨k, hk, hloop⟩ := h.loop_mem hmem hl
      exact ⟨k, hk, List.mem_append_left _ hloop⟩
    · obtain ⟨k, hk, hloop⟩ := h'.loop_mem hmem hl
      exact ⟨k, hk, List.mem_append_right _ hloop⟩
  count_loop n := by
    -- The two parts use neighbouring ranges of numbers.
    have := h.le
    have := h'.le
    rw [List.count_append, h.count_loop, h'.count_loop]
    split <;> split <;> split <;> omega

/-- The order of the marks does not matter. -/
theorem perm (h : Bound loop a b ms) (hp : ms.Perm ms') : Bound loop a b ms' where
  le := h.le
  jump_eq hmem := h.jump_eq (hp.mem_iff.mpr hmem)
  loop_mem hmem hl := by
    obtain ⟨k, hk, hloop⟩ := h.loop_mem (hp.mem_iff.mpr hmem) hl
    exact ⟨k, hk, hp.mem_iff.mp hloop⟩
  count_loop n := by rw [← hp.count_eq, h.count_loop]

/-- Code written later may stand in front. -/
theorem prepend (h : Bound loop a b ms) (h' : Bound loop b c ms') : Bound loop a c (ms' ++ ms) :=
  (h.append h').perm List.perm_append_comm

/-- The marks inside an enclosure that is no loop. -/
theorem under {e : Enclosure} (h : Bound (frameAt loop [e]) a b ms) (he : ∀ l, e ≠ .loop l) :
    Bound loop a b (ms.map (Mark.under [e])) where
  le := h.le
  jump_eq := by
    intro path j hmem hleaves
    obtain ⟨p, hp, rfl⟩ := Mark.jump_mem_under.mp hmem
    rw [frameAt_append]
    exact h.jump_eq hp hleaves
  loop_mem := by
    intro path j l hmem hl
    obtain ⟨p, hp, rfl⟩ := Mark.jump_mem_under.mp hmem
    have hl' : Enclosure.loop l ∈ p := by
      simpa [(he l).symm] using hl
    obtain ⟨k, hk, hloop⟩ := h.loop_mem hp hl'
    exact ⟨k, hk, Mark.loop_mem_under.mpr hloop⟩
  count_loop n := by rw [Mark.count_loop_under, h.count_loop]

theorem label (n : Nat) : Bound loop a a [.label n] where
  le := Nat.le_refl a
  jump_eq := by simp
  loop_mem := by simp
  count_loop n := by simp

/-- A loop takes the first number. -/
theorem loopBlock (h : Bound (some ⟨a, false⟩) (a + 1) b ms) :
    Bound outer a b (.loop a :: ms.map (Mark.under [.loop (some a)])) where
  le := Nat.le_of_succ_le h.le
  jump_eq := by
    intro path j hmem hleaves
    obtain ⟨p, hp, rfl⟩ := Mark.jump_mem_under.mp (by simpa using hmem)
    rw [frameAt_append]
    exact h.jump_eq hp hleaves
  loop_mem := by
    intro path j l hmem hl
    obtain ⟨p, hp, rfl⟩ := Mark.jump_mem_under.mp (by simpa using hmem)
    -- A loop around the jump is one of the body or this one.
    rcases List.mem_append.mp hl with hl | hl
    · obtain ⟨k, hk, hloop⟩ := h.loop_mem hp hl
      exact ⟨k, hk, List.mem_cons_of_mem _ (Mark.loop_mem_under.mpr hloop)⟩
    · obtain rfl : l = some a := by simpa using hl
      exact ⟨a, rfl, List.mem_cons_self⟩
  count_loop n := by
    -- The loop itself has the number `a`, which is below those of its body.
    have hle := h.le
    rw [List.count_cons, Mark.count_loop_under, h.count_loop]
    simp only [beq_iff_eq, Mark.loop.injEq]
    split <;> split <;> split <;> omega

/-- A label may follow. -/
theorem append_label (h : Bound loop a b ms) (p : Bool) (n : Nat) :
    Bound loop a b (ms ++ if p then [.label n] else []) := by
  cases p with
  | false => exact h.append .nil
  | true => exact h.append (.label n)

end Bound

/-! ### Written code is bound -/

/-- A loop marks its number, its header, its body and, where the body leaves it, its exit. -/
theorem allMarks_loopCode (n : Nat) (header : Fragment) (body : List Code) :
    Code.allMarks (loopCode n header body) =
      Piece.allMarks header ++
        ((.loop n :: (Code.allMarks body).map (Mark.under [.loop (some n)])) ++
          if Code.anyLeaves n body then [.label n] else []) := by
  unfold loopCode
  split <;> simp [Code.allMarks, Code.marks, BlockRole.loopNumber?, BlockRole.walls]

mutual

/-- A written fragment numbers its loops in its own range, by induction on how it was written. -/
theorem WrittenFragment.bound {loop : Option LoopFrame} {a b : Nat} {f : Fragment} :
    WrittenFragment a b f → Bound loop a b (Piece.allMarks f)
  | .nil => by
    rw [Piece.allMarks]
    exact .nil
  | .text _ => by
    rw [Piece.allMarks_singleton, Piece.marks]
    exact .nil
  | .noArms => by
    rw [Piece.allMarks_singleton, Piece.marks, Piece.armMarks]
    exact .nil
  | .append hf hg => by
    rw [Piece.allMarks_append]
    exact hf.bound.append hg.bound
  | .prepend hf hg => by
    rw [Piece.allMarks_append]
    exact hf.bound.prepend hg.bound
  | .closure h => by
    rw [Piece.allMarks_singleton, Piece.marks]
    exact Bound.under h.bound (by simp)
  | .arm hf hfs => by
    have hrest : Bound loop _ _ (Piece.allMarks _) := hfs.bound
    rw [Piece.allMarks_singleton] at hrest ⊢
    rw [Piece.marks_arms_cons]
    exact hf.bound.append hrest

/-- Written code numbers its loops in its own range, by induction on how it was written. -/
theorem Written.bound {loop : Option LoopFrame} {ps : List Path} {a b : Nat} {code : List Code} :
    Written loop ps a b code → Bound loop a b (Code.allMarks code)
  | .nil => by
    rw [Code.allMarks]
    exact .nil
  | .append h h' => by
    rw [Code.allMarks_append]
    exact h.bound.append h'.bound
  | .line hf => by
    rw [Code.allMarks_singleton, Code.marks]
    exact hf.bound
  | .leave => by
    rw [Code.allMarks_singleton, Code.marks]
    exact .jump fun _ => rfl
  | .nextRound | .endCase => by
    rw [Code.allMarks_singleton, Code.marks]
    exact .jump (by simp [Jump.leavesLoop])
  | .separator | .verbatim _ => by
    rw [Code.allMarks_singleton, Code.marks]
    exact .nil
  | .plain hheader h => by
    rw [Code.allMarks_singleton, Code.marks_plain]
    exact hheader.bound.append h.bound
  | .switch hheader h => by
    rw [Code.allMarks_singleton, Code.marks_block rfl]
    exact hheader.bound.append (Bound.under (e := .switch) h.bound (by simp))
  | .loop hheader h => by
    rw [allMarks_loopCode]
    exact hheader.bound.append (h.bound.loopBlock.append_label _ _)
  | .function hheader h => by
    rw [Code.allMarks_singleton, Code.marks_block rfl]
    exact hheader.bound.append (Bound.under (e := .body) h.bound (by simp))
  | .braces h | .indented h => by
    rw [Code.allMarks_singleton, Code.marks]
    exact h.bound

end

theorem WrittenFragment.le {a b : Nat} {f : Fragment} (h : WrittenFragment a b f) : a ≤ b :=
  (h.bound : Bound none a b (Piece.allMarks f)).le

theorem Written.le {loop : Option LoopFrame} {ps : List Path} {a b : Nat} {code : List Code}
    (h : Written loop ps a b code) : a ≤ b :=
  h.bound.le

/-! ### The search for jumps behind a loop -/

/-- A loop is left as often as its body leaves it. -/
theorem anyLeaves_loopCode (m n : Nat) (header : Fragment) (body : List Code) :
    Code.anyLeaves m (loopCode n header body) = Code.anyLeaves m body := by
  unfold loopCode
  split <;> simp [Code.anyLeaves, Code.leaves]

/-- A loop is left from its header or its body. -/
theorem leaves_loopCode (m n : Nat) (header : Fragment) (body : List Code) :
    Mark.Leaves m (Code.allMarks (loopCode n header body)) ↔
      Mark.Leaves m (Piece.allMarks header) ∨ Mark.Leaves m (Code.allMarks body) := by
  rw [allMarks_loopCode]
  split <;> simp

/-- Nothing in a written fragment jumps behind a loop outside it. -/
theorem WrittenFragment.not_leaves {a b n : Nat} {f : Fragment} (h : WrittenFragment a b f)
    (hn : ¬ (a ≤ n ∧ n < b)) : ¬ Mark.Leaves n (Piece.allMarks f) := by
  intro hleaves
  have hbound : Bound none a b (Piece.allMarks f) := h.bound
  rcases hbound.leaves_range hleaves with hrange | ⟨f, hf, -⟩
  · exact hn hrange
  · simp at hf

/-- Nothing in a body of its own jumps behind a loop outside it. -/
theorem Written.not_leaves_of_body {ps : List Path} {a b n : Nat} {code : List Code}
    (h : Written none ps a b code) (hn : ¬ (a ≤ n ∧ n < b)) :
    ¬ Mark.Leaves n (Code.allMarks code) := by
  intro hleaves
  rcases h.bound.leaves_range hleaves with hrange | ⟨f, hf, -⟩
  · exact hn hrange
  · simp at hf

theorem anyLeaves_singleton (n : Nat) (c : Code) : Code.anyLeaves n [c] = c.leaves n := by
  simp [Code.anyLeaves]

/-- The scan for exits and the marks agree on one jump. -/
theorem anyLeaves_jump_iff (n : Nat) (j : Jump) :
    Code.anyLeaves n [.jump j] = true ↔ Mark.Leaves n (Code.allMarks [.jump j]) := by
  cases j <;> simp [Code.anyLeaves, Code.leaves, Code.marks, Mark.Leaves, @eq_comm _ n]

theorem anyLeaves_block {role : BlockRole} (hrole : (role == .function) = false) (n : Nat)
    (header : Fragment) (body : List Code) :
    Code.anyLeaves n [.block role header body ""] = Code.anyLeaves n body := by
  cases role <;> simp [Code.anyLeaves, Code.leaves] at hrole ⊢

theorem leaves_block {role : BlockRole} (hrole : role.loopNumber? = none) (n : Nat)
    (header : Fragment) (body : List Code) :
    Mark.Leaves n (Code.allMarks [.block role header body ""]) ↔
      Mark.Leaves n (Piece.allMarks header) ∨ Mark.Leaves n (Code.allMarks body) := by
  rw [Code.allMarks_singleton, Code.marks_block hrole, Mark.leaves_append, Mark.leaves_under]

theorem outside_left {a b c n : Nat} (hn : ¬ (a ≤ n ∧ n < b)) (hc : c ≤ b) :
    ¬ (a ≤ n ∧ n < c) := by
  omega

theorem outside_right {a b c n : Nat} (hn : ¬ (a ≤ n ∧ n < b)) (hc : a ≤ c) :
    ¬ (c ≤ n ∧ n < b) := by
  omega

/-- The search for jumps behind a loop around the code finds all of them. -/
theorem Written.anyLeaves_iff {loop : Option LoopFrame} {ps : List Path} {a b n : Nat}
    {code : List Code} : Written loop ps a b code → ¬ (a ≤ n ∧ n < b) →
      (Code.anyLeaves n code = true ↔ Mark.Leaves n (Code.allMarks code))
  | .nil, _ | .separator, _ | .verbatim _, _ =>
    iff_of_false Bool.false_ne_true Mark.not_leaves_nil
  | .append h h', hn => by
    rw [Code.allMarks_append, Mark.leaves_append, ← h.anyLeaves_iff (outside_left hn h'.le),
      ← h'.anyLeaves_iff (outside_right hn h.le), Code.anyLeaves_append, Bool.or_eq_true]
  | .line hf, hn => by
    rw [Code.allMarks_singleton, Code.marks_line]
    exact iff_of_false Bool.false_ne_true (hf.not_leaves hn)
  | .leave, _ | .nextRound, _ | .endCase, _ => anyLeaves_jump_iff n _
  | .plain hheader h, hn | .switch hheader h, hn => by
    -- The header has the smaller numbers and the body the larger ones; `n` is among neither.
    have hclosed := hheader.not_leaves (outside_left hn h.le)
    have hbody := h.anyLeaves_iff (outside_right hn hheader.le)
    rw [anyLeaves_block rfl, hbody, leaves_block rfl, or_iff_right hclosed]
  | .loop hheader h, hn => by
    have hclosed := hheader.not_leaves (outside_left hn (Nat.le_of_succ_le h.le))
    have hbody := h.anyLeaves_iff (outside_right hn (Nat.le_succ_of_le hheader.le))
    rw [anyLeaves_loopCode, hbody, leaves_loopCode, or_iff_right hclosed]
  | .function hheader h, hn => by
    -- The search stops at a function, and no jump leaves one.
    have hclosed := hheader.not_leaves (outside_left hn h.le)
    have hbody := h.not_leaves_of_body (outside_right hn hheader.le)
    rw [leaves_block rfl, or_iff_right hclosed, anyLeaves_singleton]
    exact iff_of_false Bool.false_ne_true hbody
  | .braces h, hn => by
    rw [anyLeaves_singleton, Code.allMarks_singleton, Code.marks_braces]
    exact h.anyLeaves_iff hn
  | .indented h, hn => by
    rw [anyLeaves_singleton, Code.allMarks_singleton, Code.marks_indented]
    exact h.anyLeaves_iff hn

end CSharp

end SourceGen
