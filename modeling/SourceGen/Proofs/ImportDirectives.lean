import SourceGen.Proofs.BackendRun
import SourceGen.Proofs.CSharp.Directives
import SourceGen.Proofs.EntryPoint
import SourceGen.Proofs.Rust.Directives

/-!
# Directives for imports

However often something is imported, directly or through includes, the unit has one line for it in
Rust, and in C# if it keeps its name. C# lists imports under another name as often as they are
written, along with type aliases that read the same.

## Main definitions

* `Backend.directive`: the line for an import.
* `Backend.Writes`: the code and the type aliases that are written for a program.
* `Backend.topLines`: the lines at the top of a unit.

## Main results

* `Backend.count_directive`: how many lines there are for an import.
-/

namespace SourceGen

namespace Backend

/-- The line for an import. -/
def directive (b : Backend) (d : Import) : String :=
  match b.language with
  | .csharp => CSharp.usingLine d
  | .rust => Rust.useLine d

/-- The code and the lines for type aliases that are written for a program. -/
def Writes (b : Backend) (p : Program) (code : List Code) (typeLines : List String) : Prop :=
  let known := KnownTypes.collect (Stmt.flattenAll p.stmts)
  match b.language with
  | .csharp =>
    (∃ entry i, (CSharp.programCode b.config b.resolver p).Yields {} (code, entry) i) ∧
      ∃ j k, (CSharp.typeAliases ⟨b.config, known, b.resolver⟩ p.sections.aliases).Yields j
        typeLines k
  | .rust =>
    (∃ hasEntry i, (Rust.programCode b.config p).Yields {} (code, hasEntry) i) ∧
      ∃ j k, (p.sections.aliases.mapM (Rust.aliasLine ⟨b.config, known,
        Rust.collectTraits (Stmt.flattenAll p.stmts)⟩ {})).Yields j typeLines k

/-- The lines at the top of a unit: those ahead of the imports, the imports, and aliases. -/
def topLines (b : Backend) (p : Program) (imports typeLines : List String) : List String :=
  Text.paragraphs <|
    match b.language with
    | .csharp =>
      [imports.map CSharp.importLine, CSharp.importAliases p.sections.imports ++ typeLines]
    | .rust => [Rust.lintLines b.config, imports.map Rust.importLine, typeLines]

/-- The text of a unit is that of the lines at its top and of its code, finished. Among these lines
there is exactly one for each import, unless it is an import under another name in C#: then there is
one for each import and each type alias that reads the same. -/
theorem count_directive {b : Backend} {p : Program} {g : Generated}
    (h : (b.generate p).result = .ok g) (hplain : ∀ d ∈ p.sections.imports, d.IsPlain) :
    ∃ code typeLines, b.Writes p code typeLines ∧
      g.source = b.finish (Text.unlines (b.topLines p g.imports typeLines) ++
        Code.render b.layoutStyle code) ∧
      ∀ d ∈ p.sections.imports, (b.topLines p g.imports typeLines).count (b.directive d) =
        if b.language = .csharp ∧ d.localName.isSome then
          (p.sections.imports.map b.directive).count (b.directive d) +
            typeLines.count (b.directive d)
        else 1 := by
  obtain ⟨k, hgen⟩ := exists_run_of_generate h
  have himports : g.imports = k.imports := imports_of_gen hgen
  obtain ⟨language, config, services⟩ := b
  rw [himports]
  cases language with
  | csharp =>
    obtain ⟨top, code, entry, i, hcode, htop, hsource⟩ := CSharp.exists_header_of_generate hgen
    obtain ⟨lines, j, hlines, htext⟩ := CSharp.source_of_header htop
      (Code.render (CSharp.layoutStyle config) code)
    refine ⟨code, lines, ⟨⟨entry, i, hcode⟩, j, k, hlines⟩, hsource.trans htext, fun d hd => ?_⟩
    simp only [true_and]
    exact CSharp.count_usingLine hgen hplain hlines hd
  | rust =>
    obtain ⟨w, k', hw, hagrees, rfl⟩ := Rust.exists_compose_of_generate hgen
    rw [hagrees.imports]
    obtain ⟨top, code, hasEntry, i, hcode, htop, hsource⟩ := Rust.exists_header_of_compose hw
    obtain ⟨lines, j, hlines, htext⟩ := Rust.source_of_header htop
      (Code.render (Rust.layoutStyle config) code)
    refine ⟨code, lines, ⟨⟨hasEntry, i, hcode⟩, j, k', hlines⟩, ?_, ?_⟩
    · exact congrArg (services.formatter.finish config.formatOutput) (hsource.trans htext)
    intro d hd
    rw [if_neg (by simp)]
    exact Rust.count_useLine hw hlines hd

/-- An import under another name, directly and once more through an include. -/
def sharedAlias : Program :=
  let shared : Stmt := .importDecl ⟨["System", "Text"], some "T"⟩
  ⟨[.includeDecl "shared.src" [shared], shared,
    .functionDecl .function ⟨"main", [], none, [], [], [], some [], false, false⟩]⟩

theorem sharedAlias_has_two_lines :
    ∃ g, (generate ⟨.csharp, {}, Resolver.dotnet⟩ sharedAlias).result = .ok g ∧
      ∃ code typeLines, Writes ⟨.csharp, {}, Resolver.dotnet⟩ sharedAlias code typeLines ∧
        g.source = Text.unlines (topLines ⟨.csharp, {}, Resolver.dotnet⟩ sharedAlias g.imports
          typeLines) ++ Code.render (layoutStyle ⟨.csharp, {}, Resolver.dotnet⟩) code ∧
        (topLines ⟨.csharp, {}, Resolver.dotnet⟩ sharedAlias g.imports typeLines).count
          "using T = System.Text;" = 2 := by
  have hplain : ∀ d ∈ sharedAlias.sections.imports, d.IsPlain := by decide
  obtain ⟨g, hg⟩ : Generates ⟨.csharp, {}, Resolver.dotnet⟩ sharedAlias :=
    generates_iff.mpr (by decide)
  obtain ⟨code, typeLines, hwrites, hsource, hcount⟩ := count_directive hg hplain
  -- There are no type aliases, so only the two imports count.
  have htypes : typeLines = [] := by
    obtain ⟨-, j, k, hlines⟩ := hwrites
    exact (Gen.yields_pure.mp hlines).1.symm
  refine ⟨g, hg, code, typeLines, hwrites, hsource, ?_⟩
  refine (hcount ⟨["System", "Text"], some "T"⟩ (by decide)).trans ?_
  rw [htypes]
  decide

end Backend

end SourceGen
