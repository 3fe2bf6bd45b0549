import SourceGen.Proofs.CSharp.ExitLabel
import SourceGen.Proofs.CSharp.UnitWritten

/-!
# Where `break` goes in C#

In C# a plain `break` inside a switch leaves only the switch. The code of a unit therefore leaves a
loop from inside a switch by a jump to a label behind the loop. This is never a jump to the wrong
loop, out of a function or to a label that is not there.

## Main definitions

* `Mark.openBreaks`: the jumps of a body that come from its own `break`s.
* `CSharp.LeavesInnermostLoop`: what holds of the jumps and labels of a unit.

## Main results

* `CSharp.openBreaks_stmts`: the `break`s of a body, all of them, in the same places.
* `CSharp.break_leaves_innermost_loop`: jumps and labels fit together in every unit.
-/

namespace SourceGen

theorem Buffer.text_line (b : Buffer) (s : String) :
    (b.line s).text = b.text ++ b.currentIndent ++ s ++ "\n" := by
  simp only [Buffer.line, Buffer.blankLine, Buffer.writeIndent, Buffer.text_write]

/-! ### The breaks of a body -/

/-- The enclosure without its number. -/
def Enclosure.unnumbered : Enclosure → Enclosure
  | .loop _ => .loop none
  | e => e

/-- What stands around a jump that leaves a loop, unless a body in the code is around it. -/
def Mark.openBreak? : Mark → Option Path
  | jump path j =>
    if j.leavesLoop && !path.contains .body then some (path.map Enclosure.unnumbered) else none
  | _ => none

/-- What stands around the jumps that leave a loop, not counting those in closures and functions. -/
def Mark.openBreaks (ms : List Mark) : List Path :=
  ms.filterMap openBreak?

namespace Mark

variable {ms ms' : List Mark} {e : Enclosure}

@[simp] theorem openBreaks_append : openBreaks (ms ++ ms') = openBreaks ms ++ openBreaks ms' :=
  List.filterMap_append

theorem openBreaks_eq_nil (h : ∀ {path j}, jump path j ∈ ms → Enclosure.body ∈ path) :
    openBreaks ms = [] := by
  rw [openBreaks, List.filterMap_eq_nil_iff]
  intro m hm
  cases m with
  | jump path j => simp [openBreak?, h hm]
  | loop n => rfl
  | label n => rfl

theorem openBreak?_under (he : e ≠ .body) (m : Mark) :
    openBreak? (under [e] m) = (openBreak? m).map (· ++ [e.unnumbered]) := by
  cases m with
  | jump path j =>
    by_cases h : j.leavesLoop && !path.contains .body <;> simp_all [openBreak?, under, he.symm]
  | loop n => rfl
  | label n => rfl

/-- Inside a loop or a switch the `break`s stay open. -/
theorem openBreaks_under (he : e ≠ .body) :
    openBreaks (ms.map (under [e])) = Path.allInside e.unnumbered (openBreaks ms) := by
  have h : openBreak? ∘ under [e] = fun m => (openBreak? m).map (· ++ [e.unnumbered]) :=
    funext (openBreak?_under he)
  rw [openBreaks, openBreaks, Path.allInside, List.filterMap_map, List.map_filterMap, h]

/-- Inside a body no `break` is open. -/
theorem openBreaks_under_body : openBreaks (ms.map (under [.body])) = [] := by
  refine openBreaks_eq_nil fun {path j} h => ?_
  obtain ⟨p, -, rfl⟩ := jump_mem_under.mp h
  simp

end Mark

namespace CSharp

theorem openBreaks_label (p : Bool) (n : Nat) :
    Mark.openBreaks (if p then [.label n] else []) = [] := by
  cases p <;> rfl

mutual

/-- In a fragment all code is the body of a closure, so no `break` is open. -/
theorem WrittenFragment.openBreaks_eq {a b : Nat} {f : Fragment} :
    WrittenFragment a b f → Mark.openBreaks (Piece.allMarks f) = []
  | .nil => by
    rw [Piece.allMarks]
    rfl
  | .text _ => by
    rw [Piece.allMarks_singleton, Piece.marks]
    rfl
  | .noArms => by
    rw [Piece.allMarks_singleton, Piece.marks, Piece.armMarks]
    rfl
  | .append hf hg => by
    rw [Piece.allMarks_append, Mark.openBreaks_append, hf.openBreaks_eq, hg.openBreaks_eq]
    rfl
  | .prepend hf hg => by
    rw [Piece.allMarks_append, Mark.openBreaks_append, hf.openBreaks_eq, hg.openBreaks_eq]
    rfl
  | .closure _ => by
    rw [Piece.allMarks_singleton, Piece.marks]
    exact Mark.openBreaks_under_body
  | .arm hf hfs => by
    have hrest := hfs.openBreaks_eq
    rw [Piece.allMarks_singleton] at hrest ⊢
    rw [Piece.marks_arms_cons, Mark.openBreaks_append, hf.openBreaks_eq, hrest]
    rfl

/-- The open `break`s of written code are those of the tree. -/
theorem Written.openBreaks_eq {loop : Option LoopFrame} {ps : List Path} {a b : Nat}
    {code : List Code} : Written loop ps a b code → Mark.openBreaks (Code.allMarks code) = ps
  | .nil => by
    rw [Code.allMarks]
    rfl
  | .append h h' => by
    rw [Code.allMarks_append, Mark.openBreaks_append, h.openBreaks_eq, h'.openBreaks_eq]
  | .line hf => by
    rw [Code.allMarks_singleton, Code.marks]
    exact hf.openBreaks_eq
  | .leave => by
    simp [Code.marks, Mark.openBreaks, Mark.openBreak?]
  | .nextRound | .endCase | .separator | .verbatim _ => by
    simp [Code.marks, Mark.openBreaks, Mark.openBreak?, Jump.leavesLoop]
  | .plain hheader h => by
    rw [Code.allMarks_singleton, Code.marks_plain, Mark.openBreaks_append, hheader.openBreaks_eq,
      h.openBreaks_eq, List.nil_append]
  | .switch hheader h => by
    rw [Code.allMarks_singleton, Code.marks_block rfl, Mark.openBreaks_append,
      hheader.openBreaks_eq, List.nil_append]
    rw [BlockRole.walls, Mark.openBreaks_under (by simp), h.openBreaks_eq]
    rfl
  | .loop hheader h => by
    rw [allMarks_loopCode, Mark.openBreaks_append, hheader.openBreaks_eq, List.nil_append,
      Mark.openBreaks_append, openBreaks_label, List.append_nil]
    -- The mark of the loop itself is no jump.
    change Mark.openBreaks (List.map _ _) = _
    rw [Mark.openBreaks_under (by simp), h.openBreaks_eq]
    rfl
  | .function hheader h => by
    rw [Code.allMarks_singleton, Code.marks_block rfl, Mark.openBreaks_append,
      hheader.openBreaks_eq, List.nil_append]
    exact Mark.openBreaks_under_body
  | .braces h | .indented h => by
    rw [Code.allMarks_singleton, Code.marks]
    exact h.openBreaks_eq

end

/-- The `break`s of a body become its open jumps, in order and in the same places. -/
theorem openBreaks_stmts {env : Env} {scope : Scope} {loop : Option LoopFrame} {ss : List Stmt}
    {j k : Journal} {code : List Code} (h : (stmts env scope loop ss).Yields j code k) :
    Mark.openBreaks (Code.allMarks code) = Stmt.allBreaks ss :=
  (written_stmts loop ss j.labels rfl h).openBreaks_eq

/-- The `break`s of a block with a value become the open jumps of its closure. -/
theorem openBreaks_valueBlock {env : Env} {scope : Scope} {block : List Stmt} {j k : Journal}
    {code : List Code} (h : (valueBlock env scope block).Yields j code k) :
    Mark.openBreaks (Code.allMarks code) = Stmt.allBreaks (Stmt.beforeValue block) :=
  (written_valueBlock block j.labels rfl h).openBreaks_eq

/-! ### The text of a label -/

/-- Behind a loop its label is the next line after the closing brace. -/
theorem exists_text_loop_label (n : Nat) (header : Fragment) (body : List Code) (b : Buffer) :
    ∃ (before : String) (width : Nat),
      (Code.writeAll [.block (.loop (some n)) header body "", .exitLabel n] b).text =
        before ++ "\x7d\n" ++ Text.replicate width " " ++ "loop_exit_" ++ toString n ++
          ": ;\n" := by
  let inner := (Code.writeAll body
    (b.openBlock (Piece.renderAll b.layout b.level header))).trimTail.dedent
  let closed := inner.line "\x7d"
  refine ⟨inner.text ++ inner.currentIndent, closed.level * closed.indentWidth, ?_⟩
  change (closed.line (Code.exitText n)).text = _
  simp [closed, Buffer.text_line, Code.exitText, Buffer.currentIndent, Buffer.indentAt,
    String.append_assoc]

/-! ### Units -/

/-- Every jump of the code that leaves a loop leaves the innermost one around it, and the labels
are there for such jumps. -/
structure LeavesInnermostLoop (code : List Code) : Prop where
  /-- The jump is bound to the loop `l` around it, with no other loop and no body in between. It is
  plain if there is no switch in between either, else it goes behind that loop by its number. -/
  jump_eq : ∀ {inner outer : Path} {l : Option Nat} {j : Jump},
    Mark.jump (inner ++ .loop l :: outer) j ∈ Code.allMarks code → j.leavesLoop →
    (∀ e ∈ inner, e.keepsLoop) →
      ∃ n, l = some n ∧ j = (if Enclosure.switch ∈ inner then .leaveLoop n else .leaveInnermost) ∧
        j.text = if Enclosure.switch ∈ inner then "goto loop_exit_" ++ toString n ++ ";"
          else "break;"
  /-- A jump by number is in the loop with this number, with no other loop and no body in
  between. -/
  exists_loop : ∀ {path : Path} {n : Nat}, Mark.jump path (.leaveLoop n) ∈ Code.allMarks code →
    ∃ inner outer : Path, path = inner ++ .loop (some n) :: outer ∧ ∀ e ∈ inner, e.keepsLoop
  /-- No two loops have the same number. -/
  count_loop_le : ∀ n, (Code.allMarks code).count (.loop n) ≤ 1
  /-- A label is there exactly if something jumps to it. -/
  label_iff : ∀ n, Mark.label n ∈ Code.allMarks code ↔ Mark.Leaves n (Code.allMarks code)
  /-- No label is there twice. -/
  count_label_le : ∀ n, (Code.allMarks code).count (.label n) ≤ 1
  /-- A label stands directly behind the loop with its number. -/
  placed : Code.allPlaced none code

theorem Written.leavesInnermostLoop {ps : List Path} {b : Nat} {code : List Code}
    (h : Written none ps 0 b code) : LeavesInnermostLoop code := by
  have hloop : ∀ n, (Code.allMarks code).count (.loop n) ≤ 1 := by
    intro n
    rw [h.bound.count_loop]
    split <;> omega
  have hlabelled : Labelled 0 (Code.allMarks code) := h.labelled (by simp)
  refine ⟨?_, ?_, hloop, ?_, fun n => Nat.le_trans (hlabelled.count_le n) (hloop n), h.placed none⟩
  · -- The frame at the jump is the innermost loop, with a flag for the switches in between.
    intro inner outer l j hmem hleaves hinner
    obtain ⟨n, rfl, -⟩ := h.bound.loop_mem hmem (l := l) (by simp)
    have hj := h.bound.jump_eq hmem hleaves
    rw [frameAt_loop hinner] at hj
    refine ⟨n, rfl, ?_⟩
    subst hj
    by_cases hswitch : Enclosure.switch ∈ inner
    · rw [if_pos hswitch, if_pos hswitch, leaveLoop, if_pos (decide_eq_true hswitch)]
      exact ⟨rfl, rfl⟩
    · rw [if_neg hswitch, if_neg hswitch, leaveLoop, if_neg (by simpa using hswitch)]
      exact ⟨rfl, rfl⟩
  · -- The frame at a jump by number is a loop on its path, since there is none around the code.
    intro path n hmem
    have hframe := leaveLoop_eq_leaveLoop.mp (h.bound.jump_eq hmem rfl).symm
    rcases exists_loop_of_frameAt hframe with hpath | ⟨f, hf, -⟩
    · exact hpath
    · simp at hf
  · intro n
    rw [hlabelled.label_iff n]
    simp

/-- In every unit, jumps out of loops leave the innermost loop and find their labels, which follow
the closing braces of the loops; and in every body, the `break`s of the tree become those jumps, in
order and with the same loops and switches around them. -/
theorem break_leaves_innermost_loop {config : Config} {resolver : TypeResolver} {program : Program}
    {g : Generated} {j : Journal} (h : (generate config resolver program).run' = (.ok g, j)) :
    (∃ (top : String) (code : List Code) (entry : Option String) (k : Journal),
      (programCode config resolver program).Yields {} (code, entry) k ∧
        g.source = top ++ Code.render (layoutStyle config) code ∧ LeavesInnermostLoop code) ∧
    (∀ {env : Env} {scope : Scope} {body : List Stmt} {i k : Journal} {code : List Code},
      (stmts env scope none body).Yields i code k →
        Mark.openBreaks (Code.allMarks code) = Stmt.allBreaks body) ∧
    (∀ {env : Env} {scope : Scope} {block : List Stmt} {i k : Journal} {code : List Code},
      (valueBlock env scope block).Yields i code k →
        Mark.openBreaks (Code.allMarks code) = Stmt.allBreaks (Stmt.beforeValue block)) ∧
    ∀ (n : Nat) (header : Fragment) (body : List Code) (b : Buffer),
      ∃ (before : String) (width : Nat),
        (Code.writeAll [.block (.loop (some n)) header body "", .exitLabel n] b).text =
          before ++ "\x7d\n" ++ Text.replicate width " " ++ "loop_exit_" ++ toString n ++
            ": ;\n" := by
  obtain ⟨top, code, entry, k, hcode, hsource⟩ := exists_programCode_of_generate h
  -- Everything written belongs to the grammar of bodies, and the claim is read off the grammar.
  have hwritten : Written none [] 0 k.labels code := written_programCode rfl hcode
  exact ⟨⟨top, code, entry, k, hcode, hsource, hwritten.leavesInnermostLoop⟩, openBreaks_stmts,
    openBreaks_valueBlock, exists_text_loop_label⟩

/-- A loop that is left from inside a switch, behind a loop that is left directly. -/
def switchInLoop : Program :=
  ⟨[.whileLoop (.ident "ready")
    [.whileLoop (.ident "busy") [.breakLoop],
     .switchOn (.ident "step") [⟨.default, [.breakLoop]⟩]]]⟩

theorem switchInLoop_leaves_outer_loop :
    ∃ (g : Generated) (j : Journal),
      (generate {} Resolver.dotnet switchInLoop).run' = (.ok g, j) ∧
      ∃ (top : String) (code : List Code) (entry : Option String) (k : Journal),
        (programCode {} Resolver.dotnet switchInLoop).Yields {} (code, entry) k ∧
          g.source = top ++ Code.render (layoutStyle {}) code ∧ LeavesInnermostLoop code ∧
          Mark.jump [.switch, .loop (some 0), .body] (.leaveLoop 0) ∈ Code.allMarks code := by
  obtain ⟨⟨top, code, entry, k, hcode, hsource, hleaves⟩, -⟩ := break_leaves_innermost_loop
    (rfl : (generate {} Resolver.dotnet switchInLoop).run' = (.ok _, _))
  refine ⟨_, _, rfl, top, code, entry, k, hcode, hsource, hleaves, ?_⟩
  cases hcode
  decide +kernel

end CSharp

end SourceGen
