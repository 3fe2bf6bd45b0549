import SourceGen.Diagnostic
import SourceGen.Failure

/-!
# Journals

What a generator records on its way through a tree: diagnostics, the imports that the written code
needs, and how many labels it has used. A failure ends the way but keeps the journal, so that what
was reported before is not lost.

## Main definitions

* `Journal`: the records.
* `Gen`: a computation that writes a journal and may fail.
* `Gen.report`, `Gen.requireImport`, `Gen.freshLabel`: the three kinds of entries.
-/

namespace SourceGen

/-- What a generator has recorded. -/
structure Journal where
  /-- In the order of their reports. -/
  diagnostics : List Diagnostic := []
  /-- Sorted, each once. -/
  imports : List String := []
  /-- The number of labels used so far. -/
  labels : Nat := 0

namespace Journal

/-- Adds a text to a sorted list, unless it is there. -/
def insertSorted (s : String) : List String → List String
  | [] => [s]
  | t :: ts => if s < t then s :: t :: ts else if s = t then t :: ts else t :: insertSorted s ts

theorem mem_insertSorted {s x : String} {ts : List String} :
    x ∈ insertSorted s ts ↔ x = s ∨ x ∈ ts := by
  induction ts with
  | nil => simp [insertSorted]
  | cons t ts ih =>
    rw [insertSorted]
    split
    · simp
    · split
      · rename_i h
        subst h
        simp
      · simp only [List.mem_cons, ih]
        constructor
        · rintro (h | h | h) <;> simp [h]
        · rintro (h | h | h) <;> simp [h]

end Journal

/-- A computation that writes a journal and may fail; a failure keeps the journal. -/
abbrev Gen (α : Type) : Type :=
  ExceptT Failure (StateM Journal) α

namespace Gen

/-- Records a diagnostic. -/
def report (d : Diagnostic) : Gen Unit :=
  modify fun j => { j with diagnostics := j.diagnostics ++ [d] }

/-- Records that the written code needs an import. -/
def requireImport (name : String) : Gen Unit :=
  modify fun j => { j with imports := Journal.insertSorted name j.imports }

/-- A label number that was not used before. -/
def freshLabel : Gen Nat :=
  modifyGet fun j => (j.labels, { j with labels := j.labels + 1 })

/-- Ends the generation. -/
def fail {α : Type} (e : Failure) : Gen α :=
  throw e

/-- The result of a computation from an empty journal, and the journal it wrote. -/
def run' {α : Type} (g : Gen α) : Except Failure α × Journal :=
  StateT.run (ExceptT.run g) {}

end Gen

end SourceGen
