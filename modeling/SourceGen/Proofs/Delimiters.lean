import SourceGen.Backend
import SourceGen.Proofs.CSharp.UnitNesting
import SourceGen.Proofs.Rust.UnitNesting

/-!
# Delimiters of generated units

The texts of a program and of the settings stand in a unit between parentheses and braces that the
generator writes. If none of these texts has a delimiter, those of the unit are well nested, in
every target language.

## Main definitions

* `Backend.PlainSettings`: the settings bring no delimiters into a unit.

## Main results

* `Resolver.isPlain_dotnet`: the well-known types have no delimiters.
* `Backend.wellNested_source`: the delimiters of a unit are well nested.
-/

namespace SourceGen

/-- No spelling of a well-known type has a delimiter. -/
theorem Resolver.isPlain_dotnet : TypeResolver.IsPlain dotnet := by
  have hall : ∀ e ∈ Resolver.dotnet.entries, Text.isPlain e.2 = true := by
    simp only [Resolver.dotnet, List.forall_mem_cons]
    and_intros
    all_goals first | exact (Text.isPlain_ofList _).trans rfl | nofun
  intro name spelling h
  obtain ⟨before, after, hentries, -⟩ := List.lookup_eq_some_iff.mp h
  exact hall (name, spelling) (by rw [hentries]; simp)

namespace Backend

/-- No name that the settings bring into a unit has a delimiter. In Rust they bring none, but a
formatter has to keep delimiters well nested. -/
def PlainSettings (b : Backend) : Prop :=
  match b.language with
  | .csharp =>
    Text.isPlain b.config.implicitNamespace = true ∧ Text.isPlain b.config.implicitClass = true ∧
      b.resolver.IsPlain
  | .rust => b.config.formatOutput = true → ∀ text shown, b.formatter.reprint text = .ok shown →
    Text.NestedText text → Text.NestedText shown

/-- From texts without delimiters, every generated unit has well-nested parentheses and braces. -/
theorem wellNested_source {b : Backend} {program : Program} {g : Generated}
    (hsettings : b.PlainSettings) (hprogram : program.everyText b.target Text.isPlain = true)
    (h : (b.generate program).result = .ok g) : Text.WellNested g.source := by
  obtain ⟨k, hgen⟩ := exists_run_of_generate h
  have hnested : (b.gen program).Clean fun g => Text.NestedText g.source := by
    obtain ⟨language, config, services⟩ := b
    cases language with
    | csharp =>
      obtain ⟨hspace, hclass, hresolver⟩ := hsettings
      exact CSharp.clean_generate hresolver hspace hclass hprogram
    | rust => exact Rust.clean_generate hsettings hprogram
  exact Text.nestedText_iff_wellNested.mp (hnested hgen nofun).2

/-- A class with a choice in a method, next to a loose loop with a closure in it. -/
def choiceAndLoop : Program :=
  ⟨[.typeDecl .cls ⟨"Log", [], [], [], none, [],
      [.fieldDecl ⟨"text", some ⟨"StringBuilder", []⟩, [], [], none⟩,
        .functionDecl .method ⟨"note", [], none, [], [], [],
          some [.ifThen (.ident "quiet") [.ret none]
            (some [.expr (.call (.ident "print") [.literal (.string "noted")])])], false, false⟩]⟩,
    .whileLoop (.ident "busy")
      [.expr (.call (.ident "later") [.lambda [] (.block [.breakLoop])])]]⟩

theorem choiceAndLoop_wellNested :
    PlainSettings ⟨.csharp, {}, Resolver.dotnet⟩ ∧
    choiceAndLoop.everyText CSharp.target Text.isPlain = true ∧
    ∃ g, (generate ⟨.csharp, {}, Resolver.dotnet⟩ choiceAndLoop).result = .ok g ∧
      Text.WellNested g.source := by
  have hsettings : PlainSettings ⟨.csharp, {}, Resolver.dotnet⟩ :=
    ⟨by decide, by decide, Resolver.isPlain_dotnet⟩
  have hprogram : choiceAndLoop.everyText CSharp.target Text.isPlain = true := by decide +kernel
  -- Normal forms of types do not unfold by `rfl`, so only the kernel runs the generator.
  have hok : (generate ⟨.csharp, {}, Resolver.dotnet⟩ choiceAndLoop).result.isOk = true := by
    decide +kernel
  refine ⟨hsettings, hprogram, ?_⟩
  cases hresult : (generate ⟨.csharp, {}, Resolver.dotnet⟩ choiceAndLoop).result with
  | error e =>
    rw [hresult] at hok
    cases hok
  | ok g => exact ⟨g, rfl, wellNested_source hsettings hprogram hresult⟩

end Backend

end SourceGen
