import SourceGen.Proofs.BackendRun
import SourceGen.Proofs.CSharp.EntryDefinition
import SourceGen.Proofs.EntryPoint
import SourceGen.Proofs.Rust.EntryDefinition

/-!
# Definitions of entry points

A unit names its entry point. What is written for the source of the entry point stands in the unit,
in the blocks that the name says, but it need not be a definition: the class around a static entry
point can be marked, and the function can be marked, have a qualified name, lack a body or be a
constructor.

## Main definitions

* `Backend.entrySource?`: where the entry point of a program comes from.
* `Backend.WritesEntry`: the part of a unit that is written for the source of the entry point.
* `Backend.DefinesEntry`: the part defines the entry point.

## Main results

* `Backend.entry_defined_iff`: when the entry point of a unit is defined in it.
-/

namespace SourceGen

namespace Backend

variable (b : Backend) (p : Program)

/-- Where the entry point of the program comes from. -/
def entrySource? : Option EntrySource :=
  match b.language with
  | .csharp => p.sections.entrySource? b.config (CSharp.findStaticHost? (Stmt.flattenAll p.stmts))
  | .rust => p.sections.entrySource? b.config none

/-- The entry point that comes from a source. -/
def entryPointOf (source : EntrySource) : String :=
  match b.language with
  | .csharp => CSharp.entryPointOf b.config source
  | .rust => Rust.entryName

/-- The entry point of a program is the one that comes from its source. -/
theorem entryPoint?_eq_map : b.entryPoint? p = (b.entrySource? p).map b.entryPointOf := by
  obtain ⟨language, config, services⟩ := b
  cases language with
  | csharp => exact CSharp.entryPoint?_eq_map config _ _
  | rust =>
    change (if p.sections.hasEntry config.entryName then some Rust.entryName else none) =
      (p.sections.entrySource? config none).map fun _ => Rust.entryName
    cases hentry : p.sections.hasEntry config.entryName with
    | true =>
      obtain ⟨f, -, -, hsource⟩ | ⟨-, -, hsource⟩ := Sections.entrySource?_of_hasEntry hentry
      · rw [hsource]
        rfl
      · rw [hsource]
        rfl
    | false =>
      rw [Sections.entrySource?_of_not_hasEntry hentry]
      rfl

/-- In the code of the program's unit, `part` is what is written for the source of the entry point.
It stands in the blocks that the entry point names, or at the end. -/
def WritesEntry (source : EntrySource) (code part : List Code) : Prop :=
  let stmts := Stmt.flattenAll p.stmts
  match b.language with
  | .csharp =>
    Code.Inside part (CSharp.entryHeads b.config source) code ∧
      CSharp.WritesEntry ⟨b.config, KnownTypes.collect stmts, b.resolver⟩ source part
  | .rust =>
    (∃ ahead, code = ahead ++ part) ∧
      Rust.WritesEntry ⟨b.config, KnownTypes.collect stmts, Rust.collectTraits stmts⟩ source part

/-- The part defines the entry point that comes from the source. -/
def DefinesEntry (source : EntrySource) (part : List Code) : Prop :=
  let stmts := Stmt.flattenAll p.stmts
  match b.language with
  | .csharp =>
    CSharp.DefinesEntry ⟨b.config, KnownTypes.collect stmts, b.resolver⟩ source part
  | .rust =>
    Rust.DefinesEntry ⟨b.config, KnownTypes.collect stmts, Rust.collectTraits stmts⟩ source part

/-- Nothing is left out on the way to the definition of the entry point. -/
def entryIsDefined (source : EntrySource) : Bool :=
  match b.language with
  | .csharp => CSharp.entryIsDefined source
  | .rust => Rust.entryIsDefined source

/-- The entry point of a unit comes from the source that was looked up in the program, and what is
written for this source stands in the unit where the entry point says. It defines the entry point
exactly if nothing is left out on the way to it. A formatter that keeps what a reader sees, such as
the syntax tree, shows the same code. -/
theorem entry_defined_iff {α : Type} (view : String → α) {b : Backend} {p : Program}
    {g : Generated} {q : String} (h : (b.generate p).result = .ok g) (hq : g.entryPoint = some q)
    (hview : b.formats = true → b.formatter.Keeps view) :
    ∃ (source : EntrySource) (top : String) (code part : List Code),
      b.entrySource? p = some source ∧ b.entryPointOf source = q ∧
        g.source = b.finish (top ++ Code.render b.layoutStyle code) ∧
        view g.source = view (top ++ Code.render b.layoutStyle code) ∧
        b.WritesEntry p source code part ∧
        (b.DefinesEntry p source part ↔ b.entryIsDefined source = true) := by
  -- The reported name is the name of a source, found before anything is written.
  rw [entryPoint_of_generate h, entryPoint?_eq_map, Option.map_eq_some_iff] at hq
  obtain ⟨source, hsource, hname⟩ := hq
  obtain ⟨k, hgen⟩ := exists_run_of_generate h
  obtain ⟨language, config, services⟩ := b
  cases language with
  | csharp =>
    obtain ⟨top, code, entry, i, hcode, htext⟩ := CSharp.exists_programCode_of_generate hgen
    obtain ⟨part, hinside, hwrites⟩ := CSharp.exists_inside_unitCode hcode hsource
    exact ⟨source, top, code, part, hsource, hname, htext, congrArg view htext,
      ⟨hinside, hwrites⟩, CSharp.definesEntry_iff hwrites hsource⟩
  | rust =>
    obtain ⟨top, code, hasEntry, i, hcode, htext⟩ := Rust.exists_programCode_of_generate hgen
    obtain ⟨ahead, part, hpart, hwrites⟩ := Rust.exists_unitCode_eq_append hcode hsource
    have hread : view g.source = view (top ++ Code.render (Rust.layoutStyle config) code) := by
      rw [htext]
      exact Formatter.view_finish hview _
    exact ⟨source, top, code, part, hsource, hname, htext, hread, ⟨⟨ahead, hpart⟩, hwrites⟩,
      Rust.definesEntry_iff hwrites hsource⟩

/-- A class with a static entry point that is provided from outside. -/
def markedMain : Program :=
  ⟨[.typeDecl .cls ⟨"App", [], [⟨"external", []⟩], [], none, [],
    [.functionDecl .method ⟨"Main", [], none, [], [], [], some [], false, true⟩]⟩]⟩

theorem markedMain_is_not_defined :
    ∃ g, (generate ⟨.csharp, {}, Resolver.dotnet⟩ markedMain).result = .ok g ∧
      g.entryPoint = some "App.Main" ∧
      ∃ (source : EntrySource) (top : String) (code part : List Code),
        entryPointOf ⟨.csharp, {}, Resolver.dotnet⟩ source = "App.Main" ∧
          g.source = top ++ Code.render (layoutStyle ⟨.csharp, {}, Resolver.dotnet⟩) code ∧
          WritesEntry ⟨.csharp, {}, Resolver.dotnet⟩ markedMain source code part ∧
          ¬ DefinesEntry ⟨.csharp, {}, Resolver.dotnet⟩ markedMain source part := by
  obtain ⟨g, hg⟩ : Generates ⟨.csharp, {}, Resolver.dotnet⟩ markedMain :=
    generates_iff.mpr (by decide)
  have hq : g.entryPoint = some "App.Main" := by
    rw [entryPoint_of_generate hg]
    decide
  obtain ⟨source, top, code, part, hsource, hname, htext, -, hwrites, hdefines⟩ :=
    entry_defined_iff id hg hq nofun
  refine ⟨g, hg, hq, source, top, code, part, hname, htext, hwrites, fun h => ?_⟩
  obtain rfl := Option.some.inj hsource
  exact absurd (hdefines.mp h) (by decide)

end Backend

end SourceGen
