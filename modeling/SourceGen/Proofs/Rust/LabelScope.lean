import SourceGen.Proofs.Rust.LabelledBody

/-!
# Where jumps out of labelled bodies stand

A jump out of a labelled body always stands in that body, and neither a closure nor a function is in
between. The body is that of the innermost loop around the jump, with one exception: the step of a
loop is written inside that loop with the label from around it, so a `continue` in the step leaves a
body further out.

## Main definitions

* `Rust.Scoped`: a jump leaves the body of the innermost loop around it.

## Main results

* `Rust.labelled_jumps_scoped_iff`: when all jumps of a unit do.
-/

namespace SourceGen

namespace Rust

/-- The jump out of the labelled body with this number is made in that body, which is the body of
the innermost loop around the jump, with only multi-way branches in between. -/
def Scoped (n : Nat) (path : Path) : Prop :=
  ∃ inner outer, path = inner ++ .labelled n :: .loop none :: outer ∧ ∀ e ∈ inner, e = .switch

theorem scoped_iff {n : Nat} {path : Path} : Scoped n path ↔ Caught n path ∧ ¬ Stray n path := by
  constructor
  · rintro ⟨inner, outer, rfl, hinner⟩
    have hfree : Free inner := fun e he => by rw [hinner e he]; rfl
    refine ⟨⟨inner, outer, rfl, hfree⟩, ?_⟩
    rintro ⟨inner', outer', heq, hfree', l, hl⟩
    obtain ⟨rfl, -, -⟩ := labelled_unique hfree hfree' heq
    cases hinner _ hl
  · rintro ⟨⟨inner, outer, rfl, hfree⟩, hstray⟩
    refine ⟨inner, outer, rfl, fun e he => ?_⟩
    cases e with
    | switch => rfl
    | loop l => exact absurd ⟨inner, outer, rfl, hfree, l, he⟩ hstray
    | labelled m => cases hfree _ he
    | body => cases hfree _ he

/-- Is there a jump out of a labelled body with another loop in between? -/
def strayTest : JumpTest where
  ofShape := JumpShape.strays
  ofMarks ms := ∃ n, Makes n (Stray n) ms
  shape_empty := rfl
  shape_append _ _ := rfl
  shape_closed _ := rfl
  marks_append _ _ := by simp [makes_append, exists_or]
  marks_iff h := h.strays_iff

/-- Is there a jump out of a labelled body that does not stand in it? There never is. -/
def strandedTest : JumpTest where
  ofShape _ := false
  ofMarks ms := ∃ n, Makes n (fun path => ¬ Caught n path) ms
  shape_empty := rfl
  shape_append _ _ := rfl
  shape_closed _ := rfl
  marks_append _ _ := by simp [makes_append, exists_or]
  marks_iff h := by
    simp only [Bool.false_eq_true, iff_false]
    rintro ⟨n, path, hmem, hpath⟩
    exact hpath (h.caught_of_none hmem)

/-- A counted loop puts a loop between a jump and its labelled body if it has a step and a
`continue` that the search finds, and its body has a loop with a `continue` in the step. -/
theorem stray_forLoop_iff {env : Env} {place : Place} {start : Option Stmt}
    {condition step : Option Expr} {body : List Stmt} {i k : Journal} {code : List Code}
    (h : (stmt env place (.forLoop start condition step body)).Yields i code k) :
    (∃ n path, .jump path (.leaveBody n) ∈ Code.allMarks code ∧ Stray n path) ↔
      (step.isSome = true ∧ Stmt.anyContinues body = true ∧
        (Stmt.allShape body).stepNexts = true) ∨
      (Stmt.startShape start ++ Expr.optionShape condition ++ Stmt.allShape body ++
        Expr.optionShape step).strays = true := by
  refine (shows_stmt _ h).strays_iff.trans ?_
  rw [Stmt.shape]
  cases hlabel : step.isSome && Stmt.anyContinues body with
  | true =>
    obtain ⟨hstep, hcontinues⟩ := Bool.and_eq_true_iff.mp hlabel
    simp [JumpShape.strays, hstep, hcontinues, or_assoc, or_left_comm]
  | false =>
    have hnot : ¬ (step.isSome = true ∧ Stmt.anyContinues body = true ∧
        (Stmt.allShape body).stepNexts = true) := by
      rintro ⟨hstep, hcontinues, -⟩
      simp [hstep, hcontinues] at hlabel
    rw [or_iff_right hnot]
    simp [JumpShape.strays]

/-- Every jump out of a labelled body stands in that body, with no closure and no function in
between, and the body is that of the innermost loop around the jump unless the jump stands in the
step of a loop. -/
theorem labelled_jumps_scoped_iff {formatter : Formatter} {config : Config} {program : Program}
    {g : Generated} {j : Journal} (h : (generate formatter config program).run' = (.ok g, j)) :
    (∃ (top : String) (code : List Code) (hasEntry : Bool) (k : Journal),
      (programCode config program).Yields {} (code, hasEntry) k ∧
        g.source = formatter.finish config.formatOutput
          (top ++ Code.render (layoutStyle config) code) ∧
        (∀ n path, .jump path (.leaveBody n) ∈ Code.allMarks code → Caught n path) ∧
        ((∀ n path, .jump path (.leaveBody n) ∈ Code.allMarks code → Scoped n path) ↔
          (unitJumps config (Sections.of (Stmt.flattenAll program.stmts))).strays = false)) ∧
    ∀ {env : Env} {place : Place} {start : Option Stmt} {condition step : Option Expr}
      {body : List Stmt} {i k : Journal} {code : List Code},
      (stmt env place (.forLoop start condition step body)).Yields i code k →
        ((∃ n path, .jump path (.leaveBody n) ∈ Code.allMarks code ∧ Stray n path) ↔
          (step.isSome = true ∧ Stmt.anyContinues body = true ∧
            (Stmt.allShape body).stepNexts = true) ∨
          (Stmt.startShape start ++ Expr.optionShape condition ++ Stmt.allShape body ++
            Expr.optionShape step).strays = true) := by
  obtain ⟨top, code, hasEntry, k, hcode, hsource⟩ := exists_programCode_of_generate h
  have hcaught : ∀ n path, .jump path (.leaveBody n) ∈ Code.allMarks code → Caught n path := by
    intro n path hmem
    by_contra hpath
    exact absurd ((JumpTest.answers_unitCode strandedTest _ hcode).mp ⟨n, path, hmem, hpath⟩)
      Bool.false_ne_true
  -- A jump that is caught is out of scope only by straying past a loop in between.
  have hstray := JumpTest.answers_unitCode strayTest _ hcode
  refine ⟨⟨top, code, hasEntry, k, hcode, hsource, hcaught, ?_⟩, stray_forLoop_iff⟩
  rw [← Bool.not_eq_true]
  refine Iff.trans ?_ (not_congr hstray)
  constructor
  · rintro hscoped ⟨n, path, hmem, hpath⟩
    exact (scoped_iff.mp (hscoped n path hmem)).2 hpath
  · exact fun hnone n path hmem =>
      scoped_iff.mpr ⟨hcaught n path hmem, fun hpath => hnone ⟨n, path, hmem, hpath⟩⟩

/-- A counted loop with a `continue`, around a loop whose step is another one. -/
def continueInStep : Program :=
  ⟨[.forLoop none none (some (.unary .plusPlus (.ident "i") true))
    [.ifThen (.ident "skip") [.continueLoop] none,
      .forLoop none (some (.ident "ready")) (some (.block [.continueLoop])) []]]⟩

theorem continueInStep_leaves_outer_body :
    ∃ (g : Generated) (j : Journal),
      (generate .absent {} continueInStep).run' = (.ok g, j) ∧
      ∃ (top : String) (code : List Code) (hasEntry : Bool) (k : Journal),
        (programCode {} continueInStep).Yields {} (code, hasEntry) k ∧
          g.source = top ++ Code.render (layoutStyle {}) code ∧
          ¬ ∀ n path, .jump path (.leaveBody n) ∈ Code.allMarks code → Scoped n path := by
  obtain ⟨⟨top, code, hasEntry, k, hcode, hsource, -, hscoped⟩, -⟩ := labelled_jumps_scoped_iff
    (rfl : (generate .absent {} continueInStep).run' = (.ok _, _))
  refine ⟨_, _, rfl, top, code, hasEntry, k, hcode, hsource, fun hall => ?_⟩
  exact absurd (hscoped.mp hall) (by decide +kernel)

end Rust

end SourceGen
