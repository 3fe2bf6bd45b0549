import SourceGen.Proofs.BackendRun
import SourceGen.Proofs.CSharp.UnitDrops
import SourceGen.Proofs.Rust.UnitDrops

/-!
# Marked declarations

A program without some of its marked functions, fields and properties, wherever they are declared,
is generated with the same text, up to blank lines, and without some of its marked fields and
properties with exactly the same text. It still has to need an implicit class and to have the same
entry point in C#, and its interfaces still have to require the same of the members that are left in
Rust.

## Main definitions

* `Backend.ReadsAlike`: what a target reads off a program as a whole stays the same.
* `Backend.FinishedAlike`: units finished from the same text, up to blank lines.

## Main results

* `Backend.resembles_of_drops`: programs without some marked declarations.
-/

namespace SourceGen

namespace Backend

/-- What the target reads off a program as a whole is the same: in C# whether there is code outside
of types and what the entry point is, in Rust what interfaces require of the members of types. -/
def ReadsAlike (b : Backend) (p q : Program) : Prop :=
  match b.language with
  | .csharp => p.sections.hasLooseCode = q.sections.hasLooseCode ∧ b.entryPoint? p = b.entryPoint? q
  | .rust => ∀ query ∈ Stmt.allTraitQueries q.sections.containers,
    (Rust.collectTraits (Stmt.flattenAll p.stmts)).AgreeAbout
      (Rust.collectTraits (Stmt.flattenAll q.stmts)) query.1 query.2

/-- The units are finished from units with the same text, up to blank lines if functions were
dropped. -/
def FinishedAlike (b : Backend) (fns : Bool) (g g' : Generated) : Prop :=
  ∃ w w' : Generated, w.Resembles fns w' ∧ g = w.finished b.formatter b.formats ∧
    g' = w'.finished b.formatter b.formats

/-- Units have the same text if they are finished from the same text. If functions were dropped, the
formatter has to ignore blank lines as well. -/
theorem FinishedAlike.resembles {b : Backend} {fns : Bool} {g g' : Generated}
    (h : b.FinishedAlike fns g g')
    (hblank : b.formats = true → fns = true → b.formatter.IgnoresBlankLines) :
    g.Resembles fns g' := by
  obtain ⟨w, w', hw, rfl, rfl⟩ := h
  have hsame : fns = false →
      b.formatter.finish b.formats w.source = b.formatter.finish b.formats w'.source :=
    fun hfns => congrArg _ (hw.source hfns)
  refine ⟨hw.imports, hw.entryPoint, ?_, hsame⟩
  unfold Generated.finished
  cases fns with
  | false => rw [hsame rfl]
  | true =>
    cases hformats : b.formats with
    | false => exact hw.lines
    | true => exact hblank hformats rfl _ _ hw.lines

/-- A program without some of its marked declarations has the same unit, up to blank lines. If units
are formatted, this holds of the text that is formatted, and of the formatted text as far as the
formatter ignores blank lines. -/
theorem resembles_of_drops {b : Backend} {fns : Bool} {p q : Program} {g : Generated}
    (hdrops : p.Drops fns b.config.entryName q) (hreads : b.ReadsAlike p q)
    (hg : (b.generate p).result = .ok g) :
    ∃ g', (b.generate q).result = .ok g' ∧ b.FinishedAlike fns g g' ∧
      ((b.formats = true → fns = true → b.formatter.IgnoresBlankLines) → g.Resembles fns g') := by
  obtain ⟨journal, hrun⟩ := exists_run_of_generate hg
  -- The run on the shorter program mirrors the given one, journal and text.
  have hmirrored : Gen.Mirrored (b.FinishedAlike fns) (b.gen p) (b.gen q) := by
    obtain ⟨language, config, services⟩ := b
    cases language with
    | csharp =>
      refine (CSharp.mirrored_generate hdrops hreads.1 hreads.2).mono fun w w' hw => ?_
      exact ⟨w, w', hw, rfl, rfl⟩
    | rust =>
      exact Rust.mirrored_generate services.formatter (Rust.mirrored_compose hdrops hreads)
  obtain ⟨g', journal', hrun', -, halike⟩ := hmirrored (.refl {}) hrun
  exact ⟨g', congrArg Prod.fst hrun', halike, halike.resembles⟩

/-- A class with two fields, and other members between them. -/
def timer (members : List Stmt) : Program :=
  let field (name : String) : Stmt := .fieldDecl ⟨name, some ⟨"int", []⟩, [], [], none⟩
  ⟨[.typeDecl .cls ⟨"Timer", [], [], [], none, [], [field "start"] ++ members ++ [field "stop"]⟩]⟩

/-- A function that is provided from outside. -/
def markedNow (kind : FunctionKind) : Stmt :=
  .functionDecl kind ⟨"now", [], none, [], [], [⟨"external", []⟩], none, false, false⟩

/-- C# without the need for an entry point. -/
def csharpLibrary : Backend :=
  ⟨.csharp, { outputKind := .library }, Resolver.dotnet⟩

theorem markedMethod_leaves_blank_line :
    ∃ g g', (csharpLibrary.generate (timer [markedNow .method])).result = .ok g ∧
      (csharpLibrary.generate (timer [])).result = .ok g' ∧ g.Resembles true g' ∧
      g.source ≠ g'.source := by
  have hdrops : (timer [markedNow .method]).Drops true "main" (timer []) :=
    .inr ⟨_, _, rfl, ⟨_, rfl, _, _, rfl, rfl, Stmt.dropsAll_append rfl [_] [_]⟩, rfl⟩
  have hreads : csharpLibrary.ReadsAlike (timer [markedNow .method]) (timer []) := ⟨rfl, rfl⟩
  obtain ⟨g, hg⟩ : csharpLibrary.Generates (timer [markedNow .method]) :=
    generates_iff.mpr (by decide)
  obtain ⟨g', hg', -, hresembles⟩ := resembles_of_drops hdrops hreads hg
  have hsame : g.Resembles true g' := hresembles nofun
  have hdiffer :
      (csharpLibrary.generate (timer [markedNow .method])).result.toOption.map (·.source) ≠
        (csharpLibrary.generate (timer [])).result.toOption.map (·.source) := by
    decide +kernel
  rw [hg, hg'] at hdiffer
  exact ⟨g, g', hg, hg', hsame, fun h => hdiffer (congrArg some h)⟩

-- A marked function alone still asks for an implicit class.
example :
    (csharpLibrary.generate ⟨[markedNow .function]⟩).result.toOption.map (·.source) ≠
      (csharpLibrary.generate ⟨[]⟩).result.toOption.map (·.source) := by
  decide +kernel

end Backend

end SourceGen
