import SourceGen.Proofs.BackendRun
import SourceGen.Proofs.CSharp.UnitRecords
import SourceGen.Proofs.Rust.ItemRecords

/-!
# Warnings about unknown types

A unit comes with at most as many warnings about unknown types as its target writes references to
them. Rust writes each reference of a program at most once. C# writes the start of a range twice, so
an unknown type there gets two warnings.

## Main definitions

* `Backend.census`: which references of a program are unknown, and how often each is written.
* `Backend.unknownNodes`: the references to unknown types that are written for a program.

## Main results

* `Backend.countP_unknownTypes_le`: the warnings of a unit.
-/

namespace SourceGen

namespace Backend

/-- Which references of a program are unknown, and how often each is written. Only those count whose
warning is among the given ones. -/
def census (b : Backend) (only : Diagnostic → Bool) (p : Program) : TypeCensus :=
  let known := KnownTypes.collect (Stmt.flattenAll p.stmts)
  match b.language with
  | .csharp => CSharp.census only ⟨b.config, known, b.resolver⟩
  | .rust => Rust.census only ⟨b.config, known, Rust.collectTraits (Stmt.flattenAll p.stmts)⟩

/-- The references to unknown types that are written for a program. -/
def unknownNodes (b : Backend) (only : Diagnostic → Bool) (p : Program) : Nat :=
  (b.census only p).sections b.config.entryName p.sections

/-- The references to unknown types in a program, each of them once. -/
def unknownReferences (b : Backend) (only : Diagnostic → Bool) (p : Program) : Nat :=
  { b.census only p with startWeight := 1 }.sections b.config.entryName p.sections

theorem unknownNodes_eq_of_rust {b : Backend} (h : b.language = .rust)
    (only : Diagnostic → Bool) (p : Program) :
    b.unknownNodes only p = b.unknownReferences only p := by
  obtain ⟨language, config, services⟩ := b
  cases h
  rfl

theorem exists_records_gen (b : Backend) (only : Diagnostic → Bool) (p : Program) :
    ∃ names, Gen.Records only names (b.unknownNodes only p) (b.gen p) := by
  obtain ⟨language, config, services⟩ := b
  cases language with
  | csharp => exact ⟨_, CSharp.records_generate config services.resolver p⟩
  | rust => exact ⟨_, Rust.records_generate services.formatter config p⟩

/-- A unit comes with at most one warning for each time that a reference to an unknown type is
written, in Rust with at most one for each reference. This holds of all warnings together as well as
of those about one type. -/
theorem countP_unknownTypes_le {b : Backend} {p : Program} {g : Generated}
    (h : (b.generate p).result = .ok g) (only : Diagnostic → Bool) :
    let warnings := (b.generate p).diagnostics.countP fun d => d.isUnknownType && only d
    warnings ≤ b.unknownNodes only p ∧
      (b.language = .rust → warnings ≤ b.unknownReferences only p) := by
  intro warnings
  obtain ⟨journal, hrun⟩ := exists_run_of_generate h
  obtain ⟨names, hrecords⟩ := b.exists_records_gen only p
  have hjournal : warnings = journal.unknownTypes only :=
    congrArg (·.2.unknownTypes only) hrun
  -- A run starts with no warning, so all it has were recorded on the way.
  have hbound : warnings ≤ b.unknownNodes only p := by
    have hstart : ({} : Journal).unknownTypes only = 0 := rfl
    have hspent := (hrecords hrun).1
    rw [hstart, Nat.zero_add] at hspent
    rw [hjournal]
    exact hspent
  refine ⟨hbound, fun hrust => ?_⟩
  rw [← unknownNodes_eq_of_rust hrust]
  exact hbound

/-- A main function with a range that starts at a value of an unknown type. -/
def unknownStart : Program :=
  let start : Expr := .construct ⟨"Zz", []⟩ []
  ⟨[.functionDecl .function ⟨"main", [], none, [], [], [],
    some [.binding ⟨"xs", none, some (.range (some start) (some (.literal (.number "10"))) false),
      .mutable⟩], false, false⟩]⟩

/-- Executable C#. -/
def csharpExecutable : Backend :=
  ⟨.csharp, {}, Resolver.dotnet⟩

theorem unknownStart_warns_twice :
    (∃ g, (csharpExecutable.generate unknownStart).result = .ok g) ∧
      (csharpExecutable.generate unknownStart).diagnostics.countP
        (fun d => d.isUnknownType && true) = 2 ∧
      csharpExecutable.unknownNodes (fun _ => true) unknownStart = 2 ∧
      csharpExecutable.unknownReferences (fun _ => true) unknownStart = 1 := by
  have hgenerates : csharpExecutable.Generates unknownStart := generates_iff.mpr (by decide)
  have hnodes : csharpExecutable.unknownNodes (fun _ => true) unknownStart = 2 := by
    decide +kernel
  obtain ⟨g, hg⟩ := hgenerates
  have hle := (countP_unknownTypes_le hg fun _ => true).1
  rw [hnodes] at hle
  -- The census bounds the warnings from above, the run itself from below.
  have hge : 2 ≤ (csharpExecutable.generate unknownStart).diagnostics.countP
      (fun d => d.isUnknownType && true) := by
    decide +kernel
  exact ⟨⟨g, hg⟩, Nat.le_antisymm hle hge, hnodes, by decide +kernel⟩

end Backend

end SourceGen
