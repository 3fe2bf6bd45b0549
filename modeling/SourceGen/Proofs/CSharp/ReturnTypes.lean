import SourceGen.CSharp.Unit
import SourceGen.Proofs.CSharp.OwnReturns
import SourceGen.Tree.Kind

/-!
# Inferred return types in C#

A function without a declared return type is written with a type for a returned value, or as `void`,
by what is found in its statements. A constructor has no return type at all.

## Main definitions

* `CSharp.WritesFunction`: the code is written for a function without a declared return type.
* `CSharp.HasSignature`: the head has a name and says what the result is.

## Main results

* `CSharp.exists_function`: the signature and the body of such a function.
-/

namespace SourceGen

open Text (isNoReturn)

namespace CSharp

open Fragment (text)

variable {env : Env} {scope : Scope} {options : FunctionOptions} {f : Function} {w : Writing}
  {block : List Stmt} {i k : Journal} {code : List Code}

/-- The text for the result, in front of the name of a function. -/
def resultText : Result → String
  | .nothing => "void "
  | .value type => type ++ " "
  | .new => ""

/-- The head is the one of a function with this name and this result. -/
def HasSignature (f : Function) (name : String) (result : Result) (head : Fragment) : Prop :=
  ∃ (words generics : String) (rest : Fragment),
    head = .text (words ++ resultText result ++ ident name ++ generics ++ "(") :: rest ∧
      (words = "" ∨
        ∃ makeStatic scope, words = modifierText f.modifiers .publicAccess makeStatic scope) ∧
      (generics = "" ∨ generics = genericList f.generics)

/-- The result of a function without a declared return type. -/
def resultOf (options : FunctionOptions) (f : Function) (block : List Stmt) : Result :=
  if f.isConstructor then .new
  else
    match options.returns with
    | some type => .value type
    | none => if Stmt.anyReturnsValue block then .value untyped else .nothing

/-- A function that is not left out is written with its head and with its statements behind those of
the prologue. -/
theorem exists_signature {prologue : Scope → Gen (List Code)} (hmarker : f.marker = none)
    (hqualified : f.isQualified = false) (hdeclared : f.returnType = none)
    (hbody : f.body = some block) (h : (function env scope options prologue f).Yields i code k) :
    ∃ (lines before own : List Code) (head : Fragment) (inner : Scope) (i₁ i₂ : Journal),
      code = lines ++ [.block .function head (before ++ own) ""] ∧
        HasSignature f (if f.isConstructor then scope.className.getD f.name
          else options.name.getD f.name) (resultOf options f block) head ∧
        (prologue inner).Yields i₁ before i₂ ∧ (stmts env inner none block).Yields i₂ own k := by
  obtain ⟨name, declared, returnType, generics, modifiers, attributes, body, isConstructor,
    isStatic⟩ := f
  obtain rfl : returnType = none := hdeclared
  obtain rfl : body = some block := hbody
  rw [function] at h
  obtain ⟨skipped, i₁, hskipped, h⟩ := Gen.yields_bind.mp h
  rw [target.always_skipMarked _ _ _ hskipped, show Marker.of? attributes = none from hmarker,
    Option.isSome_none, if_neg Bool.false_ne_true] at h
  rw [show Text.hasChar '.' name = false from hqualified, if_neg Bool.false_ne_true] at h
  obtain ⟨lines, i₂, -, h⟩ := Gen.yields_bind.mp h
  obtain ⟨params, i₃, -, h⟩ := Gen.yields_bind.mp h
  extract_lets +lift shown words finish named at h
  have hwords : words = "" ∨
      ∃ makeStatic scope, words = modifierText modifiers .publicAccess makeStatic scope := by
    dsimp only [words]
    split
    · exact .inl rfl
    · exact .inr ⟨_, _, rfl⟩
  have hfinish : ∀ head j, (finish head).Yields j code k →
      ∃ (before own : List Code) (inner : Scope) (i₁ i₂ : Journal),
        code = lines ++ [.block .function head (before ++ own) ""] ∧
          (prologue inner).Yields i₁ before i₂ ∧ (stmts env inner none block).Yields i₂ own k := by
    intro head j h
    obtain ⟨written, i₄, hwritten, h⟩ := Gen.yields_bind.mp h
    obtain ⟨rfl, rfl⟩ := Gen.yields_pure.mp h
    rw [functionBody] at hwritten
    obtain ⟨before, i₅, hbefore, hwritten⟩ := Gen.yields_bind.mp hwritten
    obtain ⟨own, i₆, hown, hwritten⟩ := Gen.yields_bind.mp hwritten
    obtain ⟨rfl, rfl⟩ := Gen.yields_pure.mp hwritten
    exact ⟨before, own, _, j, i₅, rfl, hbefore, hown⟩
  cases isConstructor with
  | true =>
    rw [if_pos rfl] at h
    obtain ⟨before, own, inner, i₄, i₅, hcode, hruns⟩ := hfinish _ _ h
    refine ⟨lines, before, own, _, inner, i₄, i₅, hcode, ?_, hruns⟩
    simp only [resultOf, reduceIte]
    refine ⟨words, "", shown ++ text ")", ?_, hwords, .inl rfl⟩
    rw [resultText, String.append_empty, String.append_empty]
    rfl
  | false =>
    rw [if_neg Bool.false_ne_true] at h
    -- The result is given by the options, or it is looked up in the statements.
    have hnamed : ∀ returns j, (named returns).Yields j code k →
        ∃ (before own : List Code) (clauses : String) (inner : Scope) (i₁ i₂ : Journal),
          code = lines ++ [.block .function (text (words ++ returns ++ " " ++
            ident (options.name.getD name) ++ genericList generics ++ "(") ++ shown ++
              text (")" ++ clauses)) (before ++ own) ""] ∧
          (prologue inner).Yields i₁ before i₂ ∧ (stmts env inner none block).Yields i₂ own k := by
      intro returns j h
      obtain ⟨clauses, i₄, -, h⟩ := Gen.yields_bind.mp h
      obtain ⟨before, own, inner, i₅, i₆, hcode, hruns⟩ := hfinish _ _ h
      exact ⟨before, own, clauses, inner, i₅, i₆, hcode, hruns⟩
    have hreturns : ∃ returns j, (named returns).Yields j code k ∧
        resultText (resultOf options ⟨name, declared, none, generics, modifiers, attributes,
          some block, false, isStatic⟩ block) = returns ++ " " := by
      simp only [resultOf, Bool.false_eq_true, if_false]
      cases hgiven : options.returns with
      | some type =>
        rw [hgiven] at h
        exact ⟨type, _, h, rfl⟩
      | none =>
        rw [hgiven] at h
        obtain ⟨returns, i₄, hreturns, h⟩ := Gen.yields_bind.mp h
        obtain ⟨rfl, -⟩ := Gen.yields_pure.mp hreturns
        refine ⟨_, _, h, ?_⟩
        rw [Option.any_some]
        dsimp only
        split <;> rfl
    obtain ⟨returns, j, h, hresult⟩ := hreturns
    obtain ⟨before, own, clauses, inner, i₄, i₅, hcode, hruns⟩ := hnamed returns j h
    refine ⟨lines, before, own, _, inner, i₄, i₅, hcode, ?_, hruns⟩
    refine ⟨words, genericList generics, shown ++ text (")" ++ clauses), ?_, hwords, .inr rfl⟩
    rw [hresult, ← String.append_assoc]
    simp only [Bool.false_eq_true, if_false]
    rfl

/-- The code is written for a function with a body that declares no return type: for the entry
function with loose statements ahead of its body, or for any other function. -/
inductive WritesFunction (env : Env) (f : Function) : Writing → List Code → Prop
  | plain {block : List Stmt} {scope : Scope} {options : FunctionOptions} {i k : Journal}
      {code : List Code} (hbody : f.body = some block) (hreturns : options.returns = none)
      (h : (function env scope options (fun _ => return []) f).Yields i code k) :
      WritesFunction env f
        ⟨if f.isConstructor then scope.className.getD f.name else options.name.getD f.name,
          f.isConstructor, untyped, block⟩ code
  | entry {block loose : List Stmt} {written : Bool} {i k : Journal} {code : List Code}
      (hbody : f.body = some block) (hname : f.name = env.config.entryName)
      (h : (implicitFunctions env loose false [f]).Yields i (code, written) k) :
      WritesFunction env f
        ⟨if f.isConstructor then env.config.implicitClass else entryName, f.isConstructor, "int",
          loose ++ block⟩ code

/-- A function that is not left out has the result in its signature that is found in its statements,
and in its body it returns a value where its statements do. -/
theorem exists_function (hmarker : f.marker = none) (hqualified : f.isQualified = false)
    (hdeclared : f.returnType = none) (h : WritesFunction env f w code) :
    ∃ (head : Fragment) (body : List Code), .block .function head body "" ∈ code ∧
      HasSignature f w.name w.result head ∧
      Tells (Stmt.allText target isNoReturn w.run) (anyOwnReturn w.run)
        (Code.anyOwnReturn body) := by
  cases h with
  | @plain block scope options i k code hbody hreturns h =>
    obtain ⟨lines, before, own, head, inner, i₁, i₂, rfl, hhead, hbefore, hown⟩ :=
      exists_signature hmarker hqualified hdeclared hbody h
    obtain ⟨rfl, -⟩ := Gen.yields_pure.mp hbefore
    have hresult : resultOf options f block = Writing.result ⟨if f.isConstructor then
        scope.className.getD f.name else options.name.getD f.name, f.isConstructor, untyped,
          block⟩ := by
      rw [resultOf, hreturns]
      rfl
    exact ⟨head, [] ++ own, by simp, hresult ▸ hhead, tells_stmts inner none block hown⟩
  | @entry block loose written i k code hbody hname h =>
    rw [implicitFunctions, if_pos (by simp [hname])] at h
    extract_lets +lift returnsValue options build at h
    have hbuild : ∃ j, (build ()).Yields j (code, written) k := by
      split at h
      · obtain ⟨_, j, -, h⟩ := Gen.yields_bind.mp h
        exact ⟨j, h⟩
      · exact ⟨i, h⟩
    obtain ⟨j, hbuild⟩ := hbuild
    obtain ⟨own, i₁, hown, hbuild⟩ := Gen.yields_bind.mp hbuild
    obtain ⟨rest, i₂, hrest, hbuild⟩ := Gen.yields_bind.mp hbuild
    obtain ⟨heq, -⟩ := Gen.yields_pure.mp hbuild
    obtain ⟨rfl, -⟩ := Prod.mk.inj heq
    obtain ⟨lines, before, after, head, inner, i₃, i₄, rfl, hhead, hbefore, hafter⟩ :=
      exists_signature hmarker hqualified hdeclared hbody hown
    have hresult : resultOf options f block = Writing.result ⟨if f.isConstructor then
        env.config.implicitClass else entryName, f.isConstructor, "int", loose ++ block⟩ := by
      have hvalue : Stmt.anyReturnsValue (loose ++ block) = returnsValue := by
        rw [Stmt.anyReturnsValue_append, Bool.or_comm]
        simp [returnsValue, hbody]
      rw [resultOf, Writing.result]
      dsimp only [options]
      rw [hdeclared, hvalue]
      cases hreturns : returnsValue with
      | true => rfl
      | false =>
        rw [hreturns, Stmt.anyReturnsValue_append, Bool.or_eq_false_iff] at hvalue
        rw [hvalue.2]
        rfl
    refine ⟨head, before ++ after, by simp, hresult ▸ hhead, ?_⟩
    have hbefore := tells_stmts inner none loose hbefore
    have hafter := tells_stmts inner none block hafter
    have hplain := @Stmt.allText_append target isNoReturn loose block
    rw [anyOwnReturn_append, Code.anyOwnReturn_append]
    grind

end CSharp

end SourceGen
