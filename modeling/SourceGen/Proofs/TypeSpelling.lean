import SourceGen.Proofs.BackendRun
import SourceGen.Proofs.CSharp.DeclarationHeads
import SourceGen.Proofs.EntryPoint
import SourceGen.Proofs.Rust.DeclarationHeads

/-!
# Spellings of declared types

A unit writes the identifier of a declared type in the head of the declaration, and the plain name
wherever the type is referred to. Both are the same text unless the name is a reserved word of the
target: then only the identifier in the head is escaped.

## Main definitions

* `Backend.ident`, `Backend.isReserved`: identifiers and reserved words of a target.
* `Backend.declarationKeyword`: the keyword of a declaration.
* `Backend.mapType`: the spelling of a reference.

## Main results

* `Backend.declared_spelled_alike_iff`: when a declared type is spelled the same in both places.
-/

namespace SourceGen

namespace CSharp

/-- Exactly the reserved words are escaped. -/
theorem eq_ident_iff {name : String} : name = ident name ↔ isKeyword name = false := by
  unfold ident
  split
  · rename_i h
    refine iff_of_false (fun heq => ?_) (by simp [h])
    have hlength := congrArg String.length heq
    simp at hlength
  · rename_i h
    exact iff_of_true rfl (by simpa using h)

end CSharp

namespace Rust

/-- The word cannot stand as an identifier. -/
def isReserved (name : String) : Bool :=
  nonRawKeywords.contains name || isKeyword name

/-- Exactly the reserved words are escaped. -/
theorem eq_ident_iff {name : String} : name = ident name ↔ isReserved name = false := by
  unfold ident isReserved
  split
  · rename_i h
    refine iff_of_false (fun heq => ?_) (by rw [h, Bool.true_or]; exact Bool.noConfusion)
    have hlength := congrArg String.length heq
    simp at hlength
  · rename_i hraw
    split
    · rename_i h
      refine iff_of_false (fun heq => ?_) (by simp [h])
      have hlength := congrArg String.length heq
      simp at hlength
    · rename_i h
      exact iff_of_true rfl (by simpa [h] using hraw)

end Rust

namespace Backend

/-- An identifier. -/
def ident (b : Backend) (name : String) : String :=
  match b.language with
  | .csharp => CSharp.ident name
  | .rust => Rust.ident name

/-- The word is reserved in the target language. -/
def isReserved (b : Backend) (name : String) : Bool :=
  match b.language with
  | .csharp => CSharp.isKeyword name
  | .rust => Rust.isReserved name

/-- The keyword of a declaration. -/
def declarationKeyword (b : Backend) (kind : Option TypeKind) : String :=
  match b.language with
  | .csharp => CSharp.declarationKeyword kind
  | .rust => Rust.declarationKeyword kind

/-- The spelling of a reference in the unit of a program. -/
def mapType (b : Backend) (p : Program) (scope : Scope) (type : TypeRef) : Gen String :=
  let known := KnownTypes.collect (Stmt.flattenAll p.stmts)
  match b.language with
  | .csharp => CSharp.mapType ⟨b.config, known, b.resolver⟩ scope type
  | .rust => Rust.mapType known scope type

variable {b : Backend} {p : Program} {g : Generated}

theorem eq_ident_iff {name : String} : name = b.ident name ↔ b.isReserved name = false := by
  unfold ident isReserved
  cases b.language with
  | csharp => exact CSharp.eq_ident_iff
  | rust => exact Rust.eq_ident_iff

/-- A reference to a type that the program declares is spelled as the name of the type. -/
theorem mapType_declared {d : Declared} (hd : d ∈ Stmt.allDeclarations (Stmt.flattenAll p.stmts))
    {scope : Scope} (h : d.MeansItself scope.generics) :
    b.mapType p scope (.named d.name) = pure d.name := by
  have hknown := KnownTypes.contains_of_mem hd
  unfold mapType
  cases b.language with
  | csharp => exact CSharp.mapType_declared h hknown
  | rust => exact Rust.mapType_declared h hknown

/-- Every type that a unit declares has a head with its identifier, and a reference to it is spelled
as its name. The two agree exactly if the name is not a reserved word of the target. -/
theorem declared_spelled_alike_iff (h : (b.generate p).result = .ok g) :
    ∃ (top : String) (code : List Code),
      g.source = b.finish (top ++ Code.render b.layoutStyle code) ∧
      ∀ d ∈ Stmt.allDeclarations (Stmt.flattenAll p.stmts),
        Code.HoldsHead (b.declarationKeyword d.kind) (b.ident d.name) code ∧
          ∀ scope : Scope, d.MeansItself scope.generics →
            b.mapType p scope (.named d.name) = pure d.name ∧
              (d.name = b.ident d.name ↔ b.isReserved d.name = false) := by
  -- A declared name is known, so a reference to it is written as it stands and never escaped.
  have hspelled : ∀ d ∈ Stmt.allDeclarations (Stmt.flattenAll p.stmts), ∀ scope : Scope,
      d.MeansItself scope.generics → b.mapType p scope (.named d.name) = pure d.name ∧
        (d.name = b.ident d.name ↔ b.isReserved d.name = false) :=
    fun d hd scope hmeans => ⟨mapType_declared hd hmeans, eq_ident_iff⟩
  obtain ⟨k, hgen⟩ := exists_run_of_generate h
  obtain ⟨language, config, services⟩ := b
  cases language with
  | csharp =>
    obtain ⟨top, code, entry, i, hcode, hsource⟩ := CSharp.exists_programCode_of_generate hgen
    exact ⟨top, code, hsource, fun d hd =>
      ⟨CSharp.holdsHead_programCode hcode hd, hspelled d hd⟩⟩
  | rust =>
    obtain ⟨top, code, hasEntry, i, hcode, hsource⟩ := Rust.exists_programCode_of_generate hgen
    exact ⟨top, code, hsource, fun d hd =>
      ⟨Rust.holdsHead_programCode hcode hd, hspelled d hd⟩⟩

/-- A class whose name is a reserved word of C#, and an entry function that takes a value of it. -/
def reservedClass : Program :=
  ⟨[.typeDecl .cls ⟨"event", [], [], [], none, [], []⟩,
    .functionDecl .function
      ⟨"main", [⟨"e", some (.named "event"), none⟩], none, [], [], [], some [], false, false⟩]⟩

theorem reservedClass_spelled_apart :
    ∃ (g : Generated) (top : String) (code : List Code),
      (generate ⟨.csharp, {}, Resolver.dotnet⟩ reservedClass).result = .ok g ∧
        g.source = top ++ Code.render (layoutStyle ⟨.csharp, {}, Resolver.dotnet⟩) code ∧
        Code.HoldsHead "class" "@event" code ∧
        mapType ⟨.csharp, {}, Resolver.dotnet⟩ reservedClass {} (.named "event") =
          pure "event" := by
  obtain ⟨g, hg⟩ : Generates ⟨.csharp, {}, Resolver.dotnet⟩ reservedClass :=
    generates_iff.mpr (by decide)
  obtain ⟨top, code, hsource, hdeclared⟩ := declared_spelled_alike_iff hg
  obtain ⟨hhead, hspelled⟩ := hdeclared ⟨some .cls, "event"⟩ (by decide)
  have hident : ident ⟨.csharp, {}, Resolver.dotnet⟩ "event" = "@event" := by decide
  rw [hident] at hhead
  refine ⟨g, top, code, hg, hsource, hhead, (hspelled {} ?_).1⟩
  exact ⟨by decide, by decide, by decide, by decide, by decide⟩

end Backend

end SourceGen
