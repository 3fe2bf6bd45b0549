import SourceGen.Proofs.Rust.Formatting
import SourceGen.Proofs.Rust.ItemTraps

/-!
# Jumps in labelled bodies

Rust refuses a jump without a label directly in a labelled body. The labelled bodies of a unit are
those of counted loops with a step and a `continue`, and they hold such a jump exactly if the loop
is also left by a `break`, or if a closure in the loop has a jump outside of all loops.

## Main definitions

* `Rust.unitTraps`: a loop of the unit traps a jump.

## Main results

* `Rust.trapped_jump_iff`: when a unit has a jump that Rust refuses.
-/

namespace SourceGen

namespace Rust

open Fragment (text)

variable {env : Env}

/-! ### Units -/

/-- A loop of the unit traps a jump. Loose statements are written in the entry function, if there is
one. -/
def unitTraps (config : Config) (sections : Sections) : Bool :=
  anyItemTraps sections.containers ||
    (sections.functions.eraseP (·.name == config.entryName)).any functionTraps ||
    match sections.entry? config.entryName with
    | some f => (f.trace (Stmt.allTrace sections.loose)).traps
    | none => (Stmt.allTrace sections.loose).traps

/-- The answer for a unit is that for its jumps. -/
theorem traps_unitJumps (config : Config) (sections : Sections) :
    trapTest.ofShape (unitJumps config sections) = unitTraps config sections := by
  have hfunctions : ∀ fs : List Function,
      trapTest.ofShape (.join (fs.map functionJumps)) = fs.any functionTraps := by
    intro fs
    rw [trapTest.shape_join, List.any_map]
    exact congrArg fs.any (funext traps_functionJumps)
  unfold unitJumps unitTraps
  rw [trapTest.shape_append, trapTest.shape_append, traps_allItemJumps, hfunctions]
  cases sections.entry? config.entryName with
  | some f => rw [trapTest_ofShape, Function.trace_shape, Stmt.trace_allShape]
  | none => rw [trapTest.shape_closed, trapTest_ofShape, Stmt.trace_allShape]

/-- The code of the unit of a program. -/
def programCode (config : Config) (program : Program) : Gen (List Code × Bool) :=
  let stmts := Stmt.flattenAll program.stmts
  unitCode ⟨config, KnownTypes.collect stmts, collectTraits stmts⟩ (Sections.of stmts)

/-- A unit is written in two steps, its code and then the lines at its top. -/
theorem exists_header_of_compose {config : Config} {program : Program} {g : Generated}
    {j k : Journal} (h : (compose config program).Yields j g k) :
    ∃ (top : String) (code : List Code) (hasEntry : Bool) (i : Journal),
      (programCode config program).Yields j (code, hasEntry) i ∧
        (header ⟨config, KnownTypes.collect (Stmt.flattenAll program.stmts),
          collectTraits (Stmt.flattenAll program.stmts)⟩
          (Sections.of (Stmt.flattenAll program.stmts))).Yields i top k ∧
        g.source = (if top.isEmpty then Code.render (layoutStyle config) code
          else top ++ "\n" ++ Code.render (layoutStyle config) code) := by
  unfold compose at h
  extract_lets +lift stmts env sections build at h
  have hbuild : (build ()).Yields j g k := by
    split at h
    · obtain ⟨_, _, hfail, -⟩ := Gen.yields_bind.mp h
      exact absurd hfail Gen.not_yields_fail
    · exact h
  obtain ⟨⟨code, hasEntry⟩, i, hcode, hrest⟩ := Gen.yields_bind.mp hbuild
  obtain ⟨top, i₁, htop, hrest⟩ := Gen.yields_bind.mp hrest
  obtain ⟨journal, i₂, hget, hrest⟩ := Gen.yields_bind.mp hrest
  obtain ⟨rfl, rfl⟩ := Gen.yields_get.mp hget
  obtain ⟨rfl, rfl⟩ := Gen.yields_pure.mp hrest
  exact ⟨top, code, hasEntry, i, hcode, htop, rfl⟩

/-- The text of a unit as it is written is that of the lines at its top and of its code. -/
theorem exists_programCode_of_compose {config : Config} {program : Program} {g : Generated}
    {j k : Journal} (h : (compose config program).Yields j g k) :
    ∃ (top : String) (code : List Code) (hasEntry : Bool) (i : Journal),
      (programCode config program).Yields j (code, hasEntry) i ∧
        g.source = top ++ Code.render (layoutStyle config) code := by
  obtain ⟨top, code, hasEntry, i, hcode, -, hsource⟩ := exists_header_of_compose h
  by_cases htop : top.isEmpty
  · exact ⟨"", code, hasEntry, i, hcode, by simp [hsource, htop]⟩
  · exact ⟨top ++ "\n", code, hasEntry, i, hcode, by simp [hsource, htop]⟩

/-- The text of a finished unit is that of the lines at its top and of its code, finished. -/
theorem exists_programCode_of_generate {formatter : Formatter} {config : Config}
    {program : Program} {g : Generated} {j k : Journal}
    (h : (generate formatter config program).Yields j g k) :
    ∃ (top : String) (code : List Code) (hasEntry : Bool) (i : Journal),
      (programCode config program).Yields j (code, hasEntry) i ∧
        g.source = formatter.finish config.formatOutput
          (top ++ Code.render (layoutStyle config) code) := by
  obtain ⟨w, k', hw, -, rfl⟩ := exists_compose_of_generate h
  obtain ⟨top, code, hasEntry, i, hcode, hsource⟩ := exists_programCode_of_compose hw
  exact ⟨top, code, hasEntry, i, hcode,
    congrArg (formatter.finish config.formatOutput) hsource⟩

/-- A counted loop traps a jump in its own labelled body if it has a step and a `continue` that
the search finds, and is left by a `break` or has a jump in a closure. -/
theorem trapped_forLoop_iff {place : Place} {start : Option Stmt} {condition step : Option Expr}
    {body : List Stmt} {i k : Journal} {code : List Code}
    (h : (stmt env place (.forLoop start condition step body)).Yields i code k) :
    Mark.Trapped (Code.allMarks code) ↔
      (step.isSome = true ∧ Stmt.anyContinues body = true ∧
        (⟨.leave, false⟩ ∈ (Stmt.allTrace body).exits ∨
          ∃ kind, ⟨kind, true⟩ ∈ (Stmt.allTrace body).exits)) ∨
      (Stmt.startTrace start ++ Expr.optionTrace condition ++ Stmt.allTrace body ++
        Expr.optionTrace step).traps = true := by
  have hbare : (Stmt.allTrace body).exits.any Exit.isBare = true ↔
      ⟨.leave, false⟩ ∈ (Stmt.allTrace body).exits ∨
        ∃ kind, ⟨kind, true⟩ ∈ (Stmt.allTrace body).exits := by
    rw [List.any_eq_true]
    constructor
    · rintro ⟨⟨_ | _, _ | _⟩, hmem, hx⟩
      · exact .inl hmem
      · exact .inr ⟨_, hmem⟩
      · simp [Exit.isBare] at hx
      · exact .inr ⟨_, hmem⟩
    · rintro (hmem | ⟨kind, hmem⟩)
      · exact ⟨_, hmem, rfl⟩
      · exact ⟨_, hmem, rfl⟩
  -- Only a labelled body traps anything new; all else is what the parts of the loop trap.
  rw [(tracks_stmt _ h).trapped_iff, Stmt.trace, ← hbare]
  cases hlabel : step.isSome && Stmt.anyContinues body with
  | true =>
    obtain ⟨hstep, hcontinues⟩ := Bool.and_eq_true_iff.mp hlabel
    simp [Trace.inLoop, Trace.labelled, hstep, hcontinues, or_assoc, or_left_comm]
  | false =>
    have hnot : ¬ (step.isSome = true ∧ Stmt.anyContinues body = true ∧
        (Stmt.allTrace body).exits.any Exit.isBare = true) := by
      rintro ⟨hstep, hcontinues, -⟩
      simp [hstep, hcontinues] at hlabel
    rw [or_iff_right hnot]
    simp [Trace.inLoop]

/-- The labelled bodies of a unit hold a jump that Rust refuses, one without a label and with no
loop in between, exactly if one of the counted loops that are written has such a jump. -/
theorem trapped_jump_iff {formatter : Formatter} {config : Config} {program : Program}
    {g : Generated} {j : Journal} (h : (generate formatter config program).run' = (.ok g, j)) :
    (∃ (top : String) (code : List Code) (hasEntry : Bool) (k : Journal),
      (programCode config program).Yields {} (code, hasEntry) k ∧
        g.source = formatter.finish config.formatOutput
          (top ++ Code.render (layoutStyle config) code) ∧
        (Mark.Trapped (Code.allMarks code) ↔
          unitTraps config (Sections.of (Stmt.flattenAll program.stmts)) = true)) ∧
    ∀ {env : Env} {place : Place} {start : Option Stmt} {condition step : Option Expr}
      {body : List Stmt} {i k : Journal} {code : List Code},
      (stmt env place (.forLoop start condition step body)).Yields i code k →
        (Mark.Trapped (Code.allMarks code) ↔
          (step.isSome = true ∧ Stmt.anyContinues body = true ∧
            (⟨.leave, false⟩ ∈ (Stmt.allTrace body).exits ∨
              ∃ kind, ⟨kind, true⟩ ∈ (Stmt.allTrace body).exits)) ∨
          (Stmt.startTrace start ++ Expr.optionTrace condition ++ Stmt.allTrace body ++
            Expr.optionTrace step).traps = true) := by
  obtain ⟨top, code, hasEntry, k, hcode, hsource⟩ := exists_programCode_of_generate h
  -- The unit answers the test by the shapes of its syntax; the traces decide the shapes.
  have htraps := JumpTest.answers_unitCode trapTest _ hcode
  rw [traps_unitJumps] at htraps
  exact ⟨⟨top, code, hasEntry, k, hcode, hsource, htraps⟩, trapped_forLoop_iff⟩

/-- A counted loop with a `continue` and a `break`. -/
def continueAndBreak : Program :=
  ⟨[.forLoop none none (some (.unary .plusPlus (.ident "i") true))
    [.ifThen (.ident "skip") [.continueLoop] none, .breakLoop]]⟩

theorem continueAndBreak_traps_break :
    ∃ (g : Generated) (j : Journal),
      (generate .absent {} continueAndBreak).run' = (.ok g, j) ∧
      ∃ (top : String) (code : List Code) (hasEntry : Bool) (k : Journal),
        (programCode {} continueAndBreak).Yields {} (code, hasEntry) k ∧
          g.source = top ++ Code.render (layoutStyle {}) code ∧
          Mark.Trapped (Code.allMarks code) := by
  obtain ⟨⟨top, code, hasEntry, k, hcode, hsource, htraps⟩, -⟩ := trapped_jump_iff
    (rfl : (generate .absent {} continueAndBreak).run' = (.ok _, _))
  exact ⟨_, _, rfl, top, code, hasEntry, k, hcode, hsource, htraps.mpr (by decide +kernel)⟩

end Rust

end SourceGen
