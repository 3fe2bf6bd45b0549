import SourceGen.Backend
import SourceGen.Proofs.CSharp.EntryPart
import SourceGen.Proofs.CSharp.UnitWritten
import SourceGen.Proofs.Rust.EntryPart
import SourceGen.Proofs.Rust.LabelledBody

/-!
# Entry points and loose statements

Loose statements are written once, in order, in the entry point and ahead of what the entry function
runs on its own, unless the program declares an entry function that is marked, has a qualified name
or has no body. Such a function is written without them, and they are lost.

## Main definitions

* `Backend.EntryPart`: the part of a unit that is written for the entry point.
* `Backend.EntryRuns`: the part runs the loose statements and then those of the entry function.

## Main results

* `Backend.loose_in_entry_iff`: when the entry point of a unit runs the loose statements.
-/

namespace SourceGen

namespace Backend

/-- How a unit is laid out. -/
def layoutStyle (b : Backend) : LayoutStyle :=
  match b.language with
  | .csharp => CSharp.layoutStyle b.config
  | .rust => Rust.layoutStyle b.config

/-- In the code of the program's unit, `part` is what is written for the entry point, and all else
is written without the loose statements. -/
def EntryPart (b : Backend) (program : Program) (code part : List Code) : Prop :=
  let stmts := Stmt.flattenAll program.stmts
  match b.language with
  | .csharp =>
    CSharp.EntryPart ⟨b.config, KnownTypes.collect stmts, b.resolver⟩ program.sections code part
  | .rust =>
    Rust.EntryPart ⟨b.config, KnownTypes.collect stmts, Rust.collectTraits stmts⟩ program.sections
      code part

/-- The entry point is one function that runs the loose statements and then those of the declared
entry function. -/
def EntryRuns (b : Backend) (program : Program) (part : List Code) : Prop :=
  let stmts := Stmt.flattenAll program.stmts
  match b.language with
  | .csharp =>
    CSharp.EntryRuns ⟨b.config, KnownTypes.collect stmts, b.resolver⟩ program.sections part
  | .rust =>
    Rust.EntryRuns ⟨b.config, KnownTypes.collect stmts, Rust.collectTraits stmts⟩ program.sections
      part

/-- Whenever a unit is generated, its entry point runs the loose statements, each once and in order,
ahead of what the entry function runs on its own, exactly if no entry function is declared or the
one that is declared is neither marked nor qualified and has a body. A formatter that keeps what a
reader sees, such as the syntax tree, shows the same code. -/
theorem loose_in_entry_iff {α : Type} (view : String → α) {b : Backend} {program : Program}
    {g : Generated} (h : (b.generate program).result = .ok g) (hne : program.loose ≠ [])
    (hview : b.formats = true → b.formatter.Keeps view) :
    ∃ (top : String) (code part : List Code),
      g.source = b.finish (top ++ Code.render b.layoutStyle code) ∧
        view g.source = view (top ++ Code.render b.layoutStyle code) ∧
        b.EntryPart program code part ∧
        (b.EntryRuns program part ↔ program.sections.takesLoose b.config = true) := by
  -- Both generators look for the loose code among the sections.
  have hloose : program.sections.loose ≠ [] := by rwa [Program.loose_sections]
  have hall : ∀ s ∈ program.sections.loose, s.isLoose = true := by
    intro s hs
    rw [Program.loose_sections] at hs
    exact (List.mem_filter.mp hs).2
  obtain ⟨k, hgen⟩ := exists_run_of_generate h
  obtain ⟨language, config, services⟩ := b
  cases language with
  | csharp =>
    obtain ⟨top, code, entry, i, hcode, hsource⟩ := CSharp.exists_programCode_of_generate hgen
    obtain ⟨part, hpart⟩ := CSharp.exists_entryPart hloose hcode
    exact ⟨top, code, part, hsource, congrArg view hsource, hpart, CSharp.entryRuns_iff hpart⟩
  | rust =>
    obtain ⟨top, code, hasEntry, i, hcode, hsource⟩ := Rust.exists_programCode_of_generate hgen
    obtain ⟨part, hpart⟩ := Rust.exists_entryPart hcode
    have hread : view g.source = view (top ++ Code.render (Rust.layoutStyle config) code) := by
      rw [hsource]
      exact Formatter.view_finish hview _
    exact ⟨top, code, part, hsource, hread, hpart, Rust.entryRuns_iff hpart hloose hall⟩

/-- A call next to an entry function without a body. -/
def bodilessEntry : Program :=
  ⟨[.expr (.call (.ident "start") []),
    .functionDecl .function ⟨"main", [], none, [], [], [], none, false, false⟩]⟩

/-- Rust whose units are formatted by a formatter that leaves laid out text as it is. -/
def formattedRust : Backend :=
  ⟨.rust, { formatOutput := true, allowLints := false }, { formatter := ⟨.ok⟩ }⟩

theorem bodilessEntry_loses_loose :
    bodilessEntry.loose ≠ [] ∧ formattedRust.formats = true ∧ formattedRust.formatter.Keeps id ∧
    ∃ g, (formattedRust.generate bodilessEntry).result = .ok g ∧
      ∃ (top : String) (code part : List Code),
        g.source = top ++ Code.render formattedRust.layoutStyle code ∧
          formattedRust.EntryPart bodilessEntry code part ∧
          ¬ formattedRust.EntryRuns bodilessEntry part := by
  have hne : bodilessEntry.loose ≠ [] := nofun
  have hkeeps : formattedRust.formatter.Keeps id := by
    rintro text shown ⟨⟩
    rfl
  refine ⟨hne, rfl, hkeeps, _, rfl, ?_⟩
  obtain ⟨top, code, part, -, hread, hpart, hruns⟩ := loose_in_entry_iff id
    (rfl : (formattedRust.generate bodilessEntry).result = .ok _) hne fun _ => hkeeps
  have hlost : bodilessEntry.sections.takesLoose formattedRust.config = false := by decide
  exact ⟨top, code, part, hread, hpart, fun h => by simp [hruns.mp h] at hlost⟩

end Backend

end SourceGen
