import SourceGen.Proofs.BackendRun
import SourceGen.Proofs.CSharp.ReturnTypes
import SourceGen.Proofs.Rust.ReturnTypes

/-!
# Inferred return types

A function without a declared return type gets its result from a search through its statements.
The search stops at expressions, while the code of a match that stands as an expression statement,
and in Rust the code of any block that stands for a value, is written into the function. So a
function can return a value and have no result in its signature.

## Main definitions

* `Backend.WritesFunction`: the code is written for a function without a declared return type.
* `Backend.anyOwnReturn`: statements return a value from the function that they are written into.

## Main results

* `Backend.result_fits_iff`: when the result in a signature fits the returns in the body.
-/

namespace SourceGen

namespace Backend

/-- In the unit of a program, the code is written for a function with a body that declares no return
type. -/
def WritesFunction (b : Backend) (p : Program) (f : Function) (w : Writing) (code : List Code) :
    Prop :=
  let stmts := Stmt.flattenAll p.stmts
  match b.language with
  | .csharp => CSharp.WritesFunction ⟨b.config, KnownTypes.collect stmts, b.resolver⟩ f w code
  | .rust =>
    Rust.WritesFunction ⟨b.config, KnownTypes.collect stmts, Rust.collectTraits stmts⟩ f w code

/-- The head is the one of a function with this name and this result. -/
def HasSignature (b : Backend) (f : Function) (name : String) (result : Result)
    (head : Fragment) : Prop :=
  match b.language with
  | .csharp => CSharp.HasSignature f name result head
  | .rust => ∃ s, head = Fragment.text s ∧ Rust.HasSignature name result s

/-- The statements return a value from the function that they are written into. -/
def anyOwnReturn (b : Backend) (ss : List Stmt) : Bool :=
  match b.language with
  | .csharp => CSharp.anyOwnReturn ss
  | .rust => Rust.anyOwnReturn ss

variable {b : Backend} {p : Program} {f : Function} {w : Writing} {code : List Code}

theorem exists_function (hmarker : f.marker = none) (hqualified : f.isQualified = false)
    (hdeclared : f.returnType = none) (h : b.WritesFunction p f w code) :
    ∃ (head : Fragment) (body : List Code), .block .function head body "" ∈ code ∧
      b.HasSignature f w.name w.result head ∧
      (w.constructs = false → Tells (Stmt.allText b.target Text.isNoReturn w.run)
        (b.anyOwnReturn w.run) (Code.anyOwnReturn body)) := by
  obtain ⟨language, config, services⟩ := b
  cases language with
  | csharp =>
    obtain ⟨head, body, hmem, hhead, htells⟩ :=
      CSharp.exists_function hmarker hqualified hdeclared h
    exact ⟨head, body, hmem, hhead, fun _ => htells⟩
  | rust =>
    obtain ⟨head, body, hmem, hhead, htells⟩ :=
      Rust.exists_function hmarker hqualified hdeclared h
    exact ⟨Fragment.text head, body, hmem, ⟨head, rfl, hhead⟩, htells⟩

/-- A function that declares no return type is written with the result that is found in its
statements. A return that leaves the function is always written into its body. So the signature fits
the body if the search finds some return whenever there is one that leaves the function, and, unless
a name or number could be taken for the start of a return, in no other case. A constructor needs no
result in its signature. -/
theorem result_fits_iff (hmarker : f.marker = none) (hqualified : f.isQualified = false)
    (hdeclared : f.returnType = none) (h : b.WritesFunction p f w code) :
    ∃ (head : Fragment) (body : List Code), .block .function head body "" ∈ code ∧
      b.HasSignature f w.name w.result head ∧
      (w.result = .nothing ↔ w.constructs = false ∧ Stmt.anyReturnsValue w.run = false) ∧
      (w.constructs = false → b.anyOwnReturn w.run = true → Code.anyOwnReturn body = true) ∧
      (Stmt.allText b.target Text.isNoReturn w.run = true →
        ((Code.anyOwnReturn body = true → w.result ≠ .nothing) ↔
          (w.constructs = false → b.anyOwnReturn w.run = true →
            Stmt.anyReturnsValue w.run = true))) := by
  obtain ⟨head, body, hmem, hhead, htells⟩ := exists_function hmarker hqualified hdeclared h
  refine ⟨head, body, hmem, hhead, Writing.result_eq_nothing_iff, fun hplain => (htells hplain).1,
    fun hplain => ?_⟩
  rw [ne_eq, Writing.result_eq_nothing_iff]
  constructor
  · -- A written return is an own return of the body, and the signature was decided by the scan.
    intro hfits hconstructs hown
    have hreturns := (htells hconstructs).1 hown
    exact eq_true_of_ne_false fun hnone => hfits hreturns ⟨hconstructs, hnone⟩
  · rintro hseen hreturns ⟨hconstructs, hnone⟩
    have hfound := hseen hconstructs ((htells hconstructs).2 hplain hreturns)
    rw [hnone] at hfound
    exact absurd hfound Bool.false_ne_true

/-- A function that returns a value from a match. -/
def matchReturn : Function :=
  ⟨"pick", [⟨"n", none, none⟩], none, [], [], [],
    some [.expr (.matchOn (.ident "n")
      [⟨.default, .block [.ret (some (.literal (.number "1")))]⟩])], false, false⟩

theorem matchReturn_has_no_result :
    matchReturn.marker = none ∧ matchReturn.isQualified = false ∧ matchReturn.returnType = none ∧
    ∃ (w : Writing) (code : List Code) (head : Fragment) (body : List Code),
      WritesFunction ⟨.csharp, {}, Resolver.dotnet⟩ ⟨[.functionDecl .function matchReturn]⟩
        matchReturn w code ∧ .block .function head body "" ∈ code ∧
      HasSignature ⟨.csharp, {}, Resolver.dotnet⟩ matchReturn "pick" .nothing head ∧
      Code.anyOwnReturn body = true := by
  have hwrites : WritesFunction ⟨.csharp, {}, Resolver.dotnet⟩
      ⟨[.functionDecl .function matchReturn]⟩ matchReturn _ _ :=
    @CSharp.WritesFunction.plain _ _ _ (CSharp.implicitScope {}) { forceStatic := true } {} _ _
      rfl rfl rfl
  obtain ⟨head, body, hmem, hhead, -, hreturns, -⟩ := result_fits_iff rfl (by decide) rfl hwrites
  exact ⟨rfl, by decide, rfl, _, _, head, body, hwrites, hmem, hhead, hreturns rfl (by decide)⟩

end Backend

end SourceGen
