import SourceGen.Proofs.Rust.OwnReturns
import SourceGen.Rust.Unit

/-!
# Inferred return types in Rust

A function without a declared return type is written with the catch-all for a returned value, or
without a return clause, by what is found in its statements. An entry function that returns a value
gets the type of exit codes, and a constructor always gives a new value of its type.

## Main definitions

* `Rust.WritesFunction`: the code is written for a function without a declared return type.
* `Rust.HasSignature`: the head has a name and says what the result is.

## Main results

* `Rust.exists_function`: the signature and the body of such a function.
-/

namespace SourceGen

open Text (isNoReturn)

namespace Rust

open Fragment (text)

variable {env : Env} {place : Place} {options : FunctionOptions} {f : Function} {w : Writing}
  {block : List Stmt} {i k : Journal} {code : List Code}

/-- The clause for the result, behind the parameters of a function. -/
def resultClause : Result → String
  | .nothing => ""
  | .value type => " -> " ++ type
  | .new => " -> Self"

/-- The head is the one of a function with this name and this result. -/
def HasSignature (name : String) (result : Result) (head : String) : Prop :=
  ∃ words bounds params : String,
    head = words ++ "fn " ++ ident name ++ bounds ++ "(" ++ params ++ ")" ++ resultClause result

/-- The result of a function without a declared return type. -/
def resultOf (options : FunctionOptions) (block : List Stmt) : Result :=
  match options.returns with
  | some type => if type == unitType then .nothing else .value type
  | none => if Stmt.anyReturnsValue block then .value catchAll else .nothing

/-- A function that is not left out is written with its head and with its statements behind those of
the prologue. -/
theorem exists_signature {prologue : Place → Gen (List Code)} (hmarker : f.marker = none)
    (hqualified : f.isQualified = false) (hdeclared : f.returnType = none)
    (hbody : f.body = some block) (h : (function env place options prologue f).Yields i code k) :
    ∃ (lines before own : List Code) (head : String) (inner : Place) (i₁ i₂ : Journal),
      code = lines ++ [.block .function (text head) (before ++ own) ""] ∧
        HasSignature (options.name.getD f.name) (resultOf options block) head ∧
        (prologue inner).Yields i₁ before i₂ ∧ (stmts env inner block).Yields i₂ own k := by
  obtain ⟨name, declared, returnType, generics, modifiers, attributes, body, isConstructor,
    isStatic⟩ := f
  obtain rfl : returnType = none := hdeclared
  obtain rfl : body = some block := hbody
  rw [function] at h
  obtain ⟨skipped, i₁, hskipped, h⟩ := Gen.yields_bind.mp h
  rw [target.always_skipMarked _ _ _ hskipped, show Marker.of? attributes = none from hmarker,
    Option.isSome_none, if_neg Bool.false_ne_true] at h
  rw [show Text.hasChar '.' name = false from hqualified, if_neg Bool.false_ne_true] at h
  obtain ⟨lines, i₂, -, h⟩ := Gen.yields_bind.mp h
  obtain ⟨params, i₃, -, h⟩ := Gen.yields_bind.mp h
  extract_lets +lift shown finish at h
  -- The result is given by the options, or it is looked up in the statements.
  have hreturns : ∃ returns j, (finish returns).Yields j code k ∧
      returnClause returns = resultClause (resultOf options block) := by
    unfold resultOf
    cases hgiven : options.returns with
    | some type =>
      rw [hgiven] at h
      refine ⟨type, _, h, ?_⟩
      dsimp only [returnClause]
      split <;> rfl
    | none =>
      rw [hgiven] at h
      obtain ⟨returns, i₄, hreturns, h⟩ := Gen.yields_bind.mp h
      refine ⟨returns, i₄, h, ?_⟩
      rw [returnSpelling, Option.any_some] at hreturns
      dsimp only
      split at hreturns
      · rename_i hvalue
        obtain ⟨_, i₅, -, hreturns⟩ := Gen.yields_bind.mp hreturns
        obtain ⟨rfl, -⟩ := Gen.yields_pure.mp hreturns
        rw [if_pos hvalue]
        decide
      · rename_i hvalue
        obtain ⟨rfl, -⟩ := Gen.yields_pure.mp hreturns
        rw [if_neg hvalue]
        decide
  obtain ⟨returns, j, h, hclause⟩ := hreturns
  obtain ⟨bounds, i₄, -, h⟩ := Gen.yields_bind.mp h
  obtain ⟨written, i₅, hwritten, h⟩ := Gen.yields_bind.mp h
  obtain ⟨rfl, rfl⟩ := Gen.yields_pure.mp h
  rw [functionBody] at hwritten
  obtain ⟨before, i₆, hbefore, hwritten⟩ := Gen.yields_bind.mp hwritten
  obtain ⟨own, i₇, hown, hwritten⟩ := Gen.yields_bind.mp hwritten
  obtain ⟨rfl, rfl⟩ := Gen.yields_pure.mp hwritten
  exact ⟨lines, before, own, _, _, i₄, i₆, rfl,
    ⟨options.visibility, bounds, Text.join ", " shown, by rw [hclause]⟩, hbefore, hown⟩

/-- The code is written for a function with a body that declares no return type: for a constructor,
for the entry function with loose statements ahead of its body, or for any other function. -/
inductive WritesFunction (env : Env) (f : Function) : Writing → List Code → Prop
  | plain {block : List Stmt} {place : Place} {options : FunctionOptions} {i k : Journal}
      {code : List Code} (hbody : f.body = some block) (hreturns : options.returns = none)
      (h : (function env place options (fun _ => return []) f).Yields i code k) :
      WritesFunction env f ⟨options.name.getD f.name, false, catchAll, block⟩ code
  | entry {block loose : List Stmt} {written : Bool} {i k : Journal} {code : List Code}
      (hbody : f.body = some block) (h : (entryCode env f loose).Yields i (code, written) k) :
      WritesFunction env f
        ⟨if Stmt.anyReturnsValue (loose ++ block) then valueEntryName else entryName, false,
          exitType, loose ++ block⟩ code
  | constructor {block : List Stmt} {place : Place} {fields : List FieldSpec} {i k : Journal}
      {code : Code} (hconstructor : f.isConstructor = true) (hbody : f.body = some block)
      (h : (constructorCode env place (some f) fields).Yields i code k) :
      WritesFunction env f ⟨"new", true, "Self", block⟩ [code]

theorem exists_constructor {fields : List FieldSpec} {c : Code}
    (h : (constructorCode env place (some f) fields).Yields i c k) :
    ∃ (head : String) (body : List Code), c = .block .function (text head) body "" ∧
      HasSignature "new" .new head := by
  obtain ⟨params, i₁, -, h⟩ := Gen.yields_bind.mp h
  extract_lets shown inner head at h
  have hhead : HasSignature "new" .new head := by
    have hident : ident "new" = "new" := by decide
    exact ⟨shown, "", Text.join ", " params, by
      simp [head, resultClause, hident, String.append_assoc]⟩
  obtain ⟨values, i₂, -, h⟩ := Gen.yields_bind.mp h
  split at h
  · obtain ⟨rfl, -⟩ := Gen.yields_pure.mp h
    exact ⟨head, _, rfl, hhead⟩
  · obtain ⟨own, i₃, -, h⟩ := Gen.yields_bind.mp h
    obtain ⟨rfl, -⟩ := Gen.yields_pure.mp h
    exact ⟨head, _, rfl, hhead⟩

/-- A function that is not left out has the result in its signature that is found in its statements,
and in its body it returns a value where its statements do. The body of a constructor has more to
do. -/
theorem exists_function (hmarker : f.marker = none) (hqualified : f.isQualified = false)
    (hdeclared : f.returnType = none) (h : WritesFunction env f w code) :
    ∃ (head : String) (body : List Code), .block .function (text head) body "" ∈ code ∧
      HasSignature w.name w.result head ∧
      (w.constructs = false → Tells (Stmt.allText target isNoReturn w.run) (anyOwnReturn w.run)
        (Code.anyOwnReturn body)) := by
  cases h with
  | @plain block place options i k code hbody hreturns h =>
    obtain ⟨lines, before, own, head, inner, i₁, i₂, rfl, hhead, hbefore, hown⟩ :=
      exists_signature hmarker hqualified hdeclared hbody h
    obtain ⟨rfl, -⟩ := Gen.yields_pure.mp hbefore
    have hresult : resultOf options block =
        Writing.result ⟨options.name.getD f.name, false, catchAll, block⟩ := by
      rw [resultOf, hreturns]
      rfl
    exact ⟨head, [] ++ own, by simp, hresult ▸ hhead, fun _ => tells_stmts inner block hown⟩
  | @entry block loose written i k code hbody h =>
    unfold entryCode at h
    extract_lets +lift build at h
    rw [hmarker, Option.isSome_none, if_neg Bool.false_ne_true] at h
    have hbuild : ∃ j, (build ()).Yields j (code, written) k := by
      split at h
      · obtain ⟨_, j, -, h⟩ := Gen.yields_bind.mp h
        exact ⟨j, h⟩
      · exact ⟨i, h⟩
    obtain ⟨j, hbuild⟩ := hbuild
    obtain ⟨declared, i₁, hnone, hbuild⟩ := Gen.yields_bind.mp hbuild
    rw [hdeclared] at hnone
    obtain ⟨rfl, -⟩ := Gen.yields_pure.mp hnone
    extract_lets +lift returnsValue options at hbuild
    obtain ⟨own, i₂, hown, hbuild⟩ := Gen.yields_bind.mp hbuild
    obtain ⟨heq, -⟩ := Gen.yields_pure.mp hbuild
    obtain ⟨rfl, -⟩ := Prod.mk.inj heq
    obtain ⟨lines, before, after, head, inner, i₃, i₄, rfl, hhead, hbefore, hafter⟩ :=
      exists_signature hmarker hqualified hdeclared hbody hown
    -- The signature of an entry is decided by its own body and the loose code together.
    have hvalue : Stmt.anyReturnsValue (loose ++ block) = returnsValue := by
      rw [Stmt.anyReturnsValue_append, Bool.or_comm]
      simp [returnsValue, hbody]
    refine ⟨head, before ++ after, by simp, ?_, fun _ => ?_⟩
    · rw [Writing.result]
      rw [resultOf] at hhead
      dsimp only [options] at hhead ⊢
      rw [hvalue]
      cases hreturns : returnsValue with
      | true => simpa [hreturns, exitType, unitType] using hhead
      | false => simpa [hreturns] using hhead
    · have hbefore := tells_stmts inner loose hbefore
      have hafter := tells_stmts inner block hafter
      have hplain := @Stmt.allText_append target isNoReturn loose block
      rw [anyOwnReturn_append, Code.anyOwnReturn_append]
      grind
  | @constructor block place fields i k code hconstructor hbody h =>
    obtain ⟨head, body, rfl, hhead⟩ := exists_constructor h
    exact ⟨head, body, by simp, hhead, fun h => absurd h Bool.noConfusion⟩

end Rust

end SourceGen
