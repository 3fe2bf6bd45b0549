import SourceGen.Compose.Include
import SourceGen.Compose.Sections
import SourceGen.Config
import SourceGen.Proofs.Yields

/-!
# Loose statements

Statements outside any function are to be written in the entry function, ahead of its own
statements, or in an entry point of their own if the program declares none.

## Main definitions

* `Program.loose`: the loose statements of a program.
* `Sections.takesLoose`: loose statements have a place to go.
* `FunctionRuns`: code that is one function with the code of given statements as its body.

## Main results

* `Sections.loose_of`: a unit keeps its loose statements in their order.
* `FunctionRuns.exists_of_append_cons`: the function is the first item that is no line.
-/

namespace SourceGen

/-! ### Loose statements and the entry function -/

/-- The statement is code to run, not a declaration and not raw text. -/
def Stmt.isLoose : Stmt → Bool
  | .binding _ | .ifThen _ _ _ | .whileLoop _ _ | .forLoop _ _ _ _ | .forEach _ _ _ _ | .ret _
  | .breakLoop | .continueLoop | .matchOn _ _ | .switchOn _ _ | .expr _ => true
  | _ => false

/-- A unit keeps its loose statements in their order. -/
theorem Sections.loose_of (ss : List Stmt) :
    (Sections.of ss).loose = ss.filter Stmt.isLoose := by
  induction ss with
  | nil => rfl
  | cons s ss ih =>
    have hcons : Sections.of (s :: ss) = (Sections.of ss).cons s := rfl
    rw [hcons, List.filter_cons, ← ih]
    -- Each kind of statement goes to one section.
    cases s <;> rfl

namespace Program

/-- The top-level statements by role, with includes in place of what they include. -/
def sections (p : Program) : Sections :=
  Sections.of (Stmt.flattenAll p.stmts)

/-- The loose top-level statements, in order. -/
def loose (p : Program) : List Stmt :=
  (Stmt.flattenAll p.stmts).filter Stmt.isLoose

theorem loose_sections (p : Program) : p.sections.loose = p.loose :=
  Sections.loose_of _

end Program

/-- The function is written, and with a body of its own. -/
def Function.isHost (f : Function) : Bool :=
  f.marker.isNone && !Text.hasChar '.' f.name && f.body.isSome

namespace Sections

/-- The statements that the declared entry function runs on its own. -/
def entryBody (sections : Sections) (config : Config) : List Stmt :=
  ((sections.entry? config.entryName).bind Function.body).getD []

/-- Loose statements have a place to go: no entry function is declared, or one that is written with
its body. -/
def takesLoose (sections : Sections) (config : Config) : Bool :=
  (sections.entry? config.entryName).all Function.isHost

end Sections

/-! ### Functions that run given statements -/

/-- A line, or what may separate it from the lines before it. -/
def Code.isLine : Code → Bool
  | .line _ | .separator => true
  | _ => false

/-- The code is one function and then `tail`. Only lines stand ahead of the function, and its body
is the code of the statements `first` and then that of the statements `own`. -/
def FunctionRuns {P : Type} (gen : P → List Stmt → Gen (List Code)) (first own : List Stmt)
    (tail code : List Code) : Prop :=
  ∃ (lines : List Code) (head : Fragment) (before after : List Code) (place : P) (i j k : Journal),
    code = lines ++ .block .function head (before ++ after) "" :: tail ∧
      lines.all Code.isLine = true ∧ (gen place first).Yields i before j ∧
        (gen place own).Yields j after k

/-- The first item that is no line is where the lines in front of it end. -/
theorem Code.eq_of_append_cons {lines lines' rest rest' : List Code} {c c' : Code}
    (h : lines ++ c :: rest = lines' ++ c' :: rest') (hlines : lines.all Code.isLine = true)
    (hlines' : lines'.all Code.isLine = true) (hc : c.isLine = false) (hc' : c'.isLine = false) :
    c = c' := by
  induction lines generalizing lines' with
  | nil =>
    cases lines' with
    | nil => exact (List.cons.inj h).1
    | cons l lines' =>
      -- `c` would be one of the lines in front of `c'`.
      obtain ⟨rfl, -⟩ := List.cons.inj h
      simp [hc] at hlines'
  | cons l lines ih =>
    cases lines' with
    | nil =>
      obtain ⟨rfl, -⟩ := List.cons.inj h
      simp [hc'] at hlines
    | cons l' lines' =>
      rw [List.all_cons, Bool.and_eq_true] at hlines hlines'
      exact ih (List.cons.inj h).2 hlines.2 hlines'.2

namespace FunctionRuns

variable {P : Type} {gen : P → List Stmt → Gen (List Code)} {first own : List Stmt}
  {tail code : List Code}

/-- Lines alone are no function. -/
theorem not_of_all (h : code.all Code.isLine = true) : ¬ FunctionRuns gen first own tail code := by
  rintro ⟨lines, head, before, after, place, i, j, k, rfl, -⟩
  simp [Code.isLine] at h

/-- The function is the first item that is no line. -/
theorem exists_of_append_cons {lines rest : List Code} {c : Code}
    (h : FunctionRuns gen first own tail (lines ++ c :: rest))
    (hlines : lines.all Code.isLine = true) (hc : c.isLine = false) :
    ∃ (head : Fragment) (before after : List Code) (place : P) (i j k : Journal),
      c = .block .function head (before ++ after) "" ∧ (gen place first).Yields i before j ∧
        (gen place own).Yields j after k := by
  obtain ⟨lines', head, before, after, place, i, j, k, hcode, hlines', hbefore, hafter⟩ := h
  have heq := Code.eq_of_append_cons hcode hlines hlines' hc rfl
  exact ⟨head, before, after, place, i, j, k, heq, hbefore, hafter⟩

end FunctionRuns

end SourceGen
