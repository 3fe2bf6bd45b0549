import Mathlib.Data.List.Forall2
import SourceGen.CSharp.Body
import SourceGen.Layout.Render
import SourceGen.Proofs.Formula
import SourceGen.Rust.Body

/-!
# The grouping of operators

Both targets write a formula so that their own operators, with their strengths and sides, group it
as the tree does. In C# this is about the operators alone: whether a `<` behind a name could open a
list of type arguments is not a matter of strength.

## Main definitions

* `CSharp.operatorGrammar`, `Rust.operatorGrammar`: the operators of the targets.
* `CSharp.formulas`, `Rust.formulas`: how the targets write formulas.

## Main results

* `CSharp.writes_of_formula`, `Rust.writes_of_formula`: the text that the targets write for a
  formula.
* `written_formula_parses`: the text is parsed as the formula.
-/

namespace SourceGen

/-- The text has the form of an identifier. -/
def isIdentifier (name : String) : Bool :=
  isWord name && !name.toList.head?.any Char.isDigit

/-! ### The operators of the targets -/

/-- The operators of C#. -/
def CSharp.operatorGrammar : OperatorGrammar where
  rows :=
    [⟨["=", "+=", "-=", "*=", "/=", "%=", "&=", "|=", "^=", "<<=", ">>=", ">>>=", "??="], .right⟩,
     ⟨["??"], .right⟩,
     ⟨["||"], .left⟩,
     ⟨["&&"], .left⟩,
     ⟨["|"], .left⟩,
     ⟨["^"], .left⟩,
     ⟨["&"], .left⟩,
     ⟨["==", "!="], .left⟩,
     ⟨["<", ">", "<=", ">=", "is", "as"], .left⟩,
     ⟨["<<", ">>", ">>>"], .left⟩,
     ⟨["+", "-"], .left⟩,
     ⟨["*", "/", "%"], .left⟩,
     ⟨[".."], .neither⟩]
  leading := ["+", "-", "!", "~", "++", "--", "^", "&", "*"]
  others := ["=>", "->", "::", "?", "?.", ":", ";"]
  areSymbols := by decide

example : CSharp.operatorGrammar.parse "a - b - c * d" =
    some (.operation (.operation (.leaf "a") "-" (.leaf "b")) "-"
      (.operation (.leaf "c") "*" (.leaf "d"))) := by
  rfl

/-- The operators of Rust. -/
def Rust.operatorGrammar : OperatorGrammar where
  rows :=
    [⟨["=", "+=", "-=", "*=", "/=", "%=", "&=", "|=", "^=", "<<=", ">>="], .right⟩,
     ⟨["..", "..="], .neither⟩,
     ⟨["||"], .left⟩,
     ⟨["&&"], .left⟩,
     ⟨["==", "!=", "<", ">", "<=", ">="], .neither⟩,
     ⟨["|"], .left⟩,
     ⟨["^"], .left⟩,
     ⟨["&"], .left⟩,
     ⟨["<<", ">>"], .left⟩,
     ⟨["+", "-"], .left⟩,
     ⟨["*", "/", "%"], .left⟩,
     ⟨["as"], .left⟩]
  -- Two references in a row are read as one lexeme.
  leading := ["-", "*", "!", "&", "&&"]
  others := ["=>", "->", "::", "?", ":", ";", "..."]
  areSymbols := by decide

example : Rust.operatorGrammar.parse "a < b < c" = none := by
  rfl

/-- The text is an identifier that C# writes as it is. -/
def CSharp.isPlainName (name : String) : Bool :=
  isIdentifier name && !isKeyword name

/-- The text is an identifier that Rust writes as it is. -/
def Rust.isPlainName (name : String) : Bool :=
  isIdentifier name && !isKeyword name && !nonRawKeywords.contains name

/-- How C# writes formulas. -/
def CSharp.formulas : FormulaSpelling CSharp.operatorGrammar where
  isName := isPlainName
  between := binaryOp
  front := unaryOp
  wrapsCallee := Expr.isOperation
  isWord_of_isName := by
    intro name h
    simp only [isPlainName, isIdentifier, Bool.and_eq_true] at h
    exact h.1.1
  notMem_of_isName := by
    intro name h mem
    -- The only words among the symbols, `is` and `as`, are keywords.
    have reserved : ∀ symbol ∈ CSharp.operatorGrammar.symbols, isWord symbol →
        CSharp.isKeyword symbol := by decide
    simp only [isPlainName, isIdentifier, Bool.and_eq_true, Bool.not_eq_true'] at h
    rw [reserved name mem h.1.1] at h
    cases h.2
  between_mem := by decide
  between_isLexeme := by decide
  assignment_takesLeft := by decide
  front_mem := by decide
  front_isLexeme := by decide
  front_isWordChar := by
    intro op hop c hc
    have noWord : ∀ op ∈ Token.negations, (unaryOp op).toList.all (!isWordChar ·) := by decide
    simpa using List.all_eq_true.mp (noWord op hop) c hc
  wrapsCallee_of_isOperation _ h := h

/-- How Rust writes formulas; only a name and a member are called without parentheses. -/
def Rust.formulas : FormulaSpelling Rust.operatorGrammar where
  isName := isPlainName
  between := binaryOp
  front := unaryOp
  wrapsCallee
    | .ident _ | .member _ _ => false
    | _ => true
  isWord_of_isName := by
    intro name h
    simp only [isPlainName, isIdentifier, Bool.and_eq_true] at h
    exact h.1.1.1
  notMem_of_isName := by
    intro name h mem
    have reserved : ∀ symbol ∈ Rust.operatorGrammar.symbols, isWord symbol →
        Rust.isKeyword symbol := by decide
    simp only [isPlainName, isIdentifier, Bool.and_eq_true, Bool.not_eq_true'] at h
    rw [reserved name mem h.1.1.1] at h
    cases h.1.2
  between_mem := by decide
  between_isLexeme := by decide
  assignment_takesLeft := by decide
  front_mem := by decide
  front_isLexeme := by decide
  front_isWordChar := by
    intro op hop c hc
    have noWord : ∀ op ∈ Token.negations, (unaryOp op).toList.all (!isWordChar ·) := by decide
    simpa using List.all_eq_true.mp (noWord op hop) c hc
  wrapsCallee_of_isOperation := by
    intro callee h
    cases callee <;> first | rfl | cases h

/-! ### Fragments with a fixed text -/

/-- The fragment has this text, however it is laid out. -/
def Fragment.Shows (f : Fragment) (cs : List Char) : Prop :=
  ∀ style depth, Piece.renderAll style depth f = String.ofList cs

namespace Fragment

theorem shows_text (s : String) : Shows (text s) s.toList := by
  intro style depth
  simp [text, Piece.renderAll, Piece.render]

theorem Shows.of_eq {f : Fragment} {cs cs' : List Char} (h : f.Shows cs) (same : cs = cs') :
    f.Shows cs' :=
  same ▸ h

/-- Fragments side by side show their texts side by side. -/
theorem Shows.append {f f' : Fragment} {cs cs' : List Char} (h : f.Shows cs) (h' : f'.Shows cs') :
    Shows (f ++ f') (cs ++ cs') := by
  intro style depth
  have renders : ∀ f : Fragment, Piece.renderAll style depth (f ++ f') =
      Piece.renderAll style depth f ++ Piece.renderAll style depth f' := by
    intro f
    induction f with
    | nil => simp [Piece.renderAll]
    | cons p ps ih => simp [Piece.renderAll, ih, String.append_assoc]
  rw [renders, h style depth, h' style depth, String.ofList_append]

/-- A fragment in parentheses shows its text in parentheses. -/
theorem Shows.wrap {f : Fragment} {cs : List Char} (h : f.Shows cs) (wrapped : Bool) :
    Shows (if wrapped then f.parens else f) (FormulaSpelling.wrap wrapped cs) := by
  cases wrapped with
  | false => exact h
  | true => exact ((shows_text "(").append h).append (shows_text ")")

/-- Arguments show their texts between commas. -/
theorem shows_join {g : OperatorGrammar} {s : FormulaSpelling g} {fs : List Fragment}
    {args : List Expr} (h : List.Forall₂ (fun f a => Shows f (s.text a)) fs args) :
    Shows (join ", " fs) (s.argumentText args) := by
  induction h with
  | nil => exact fun _ _ => rfl
  | @cons f a fs args first more ih =>
    cases more with
    | nil => exact first
    | cons =>
      exact ((first.append (shows_text ", ")).append ih).of_eq (by
        simp [FormulaSpelling.argumentText])

end Fragment

open Fragment (Shows shows_text shows_join)

/-! ### What C# writes -/

namespace CSharp

theorem ident_of_isPlainName {name : String} (h : isPlainName name) : ident name = name := by
  simp only [isPlainName, Bool.and_eq_true, Bool.not_eq_true'] at h
  simp [ident, h.2]

/-- Exactly operations are put in parentheses. -/
theorem grouped_of_formula {e : Expr} (h : e.Formula isPlainName) (f : Fragment) :
    grouped e f = if e.isOperation then f.parens else f := by
  have same : needsParens e = e.isOperation := by
    cases h <;> rfl
  rw [grouped, same]

/-- The expression is written as a formula, without any record. -/
def Writes (env : Env) (scope : Scope) (e : Expr) : Prop :=
  ∃ f, expr env scope e = pure f ∧ Shows f (formulas.text e)

attribute [local simp] expr exprs

variable {env : Env} {scope : Scope}

theorem exists_exprs {args : List Expr} (h : ∀ a ∈ args, Writes env scope a) :
    ∃ fs, exprs env scope args = pure fs ∧
      Shows (Fragment.join ", " fs) (formulas.argumentText args) := by
  have each : ∃ fs, exprs env scope args = pure fs ∧
      List.Forall₂ (fun f a => Shows f (formulas.text a)) fs args := by
    induction args with
    | nil => exact ⟨[], rfl, .nil⟩
    | cons e es ih =>
      obtain ⟨f, hf, shown⟩ := h e (by simp)
      obtain ⟨fs, hfs, shownAll⟩ := ih fun a ha => h a (by simp [ha])
      exact ⟨f :: fs, by simp only [exprs, hf, hfs, pure_bind], .cons shown shownAll⟩
  obtain ⟨fs, hfs, shown⟩ := each
  exact ⟨fs, hfs, shows_join shown⟩

/-- A callee that is neither a name nor a member is written as an operand. -/
theorem expr_call_of_formula {callee : Expr} (args : List Expr) (h : callee.Formula isPlainName)
    (notIdent : ∀ name, callee ≠ .ident name)
    (notMember : ∀ object name, callee ≠ .member object name) :
    expr env scope (.call callee args) = (do
      let rendered := Fragment.join ", " (← exprs env scope args)
      return grouped callee (← expr env scope callee) ++ Fragment.text "(" ++ rendered ++
        Fragment.text ")") := by
  cases h with
  | ident => exact absurd rfl (notIdent _)
  | member => exact absurd rfl (notMember _ _)
  | number | index | binary | unary | assign | call => simp only [expr]

/-- A call, by the form of its callee. -/
theorem writes_call {callee : Expr} {args : List Expr}
    (hb : ∀ name, callee = .ident name → Builtin.ofName? name = none)
    (hc : callee.Formula isPlainName) (written : Writes env scope callee)
    (receiver : ∀ object name, callee = .member object name → Writes env scope object)
    (ha : ∀ a ∈ args, Writes env scope a) : Writes env scope (.call callee args) := by
  obtain ⟨fs, hfs, shown⟩ := exists_exprs ha
  -- Names and members are written as parts of the call, any other callee as an expression.
  by_cases isIdent : ∃ name, callee = .ident name
  · obtain ⟨name, rfl⟩ := isIdent
    cases hc with
    | ident hn =>
      refine ⟨_, by simp only [expr, hfs, pure_bind, Callee.of, hb name rfl]; rfl, ?_⟩
      rw [ident_of_isPlainName hn]
      exact (((shows_text (name ++ "(")).append shown).append (shows_text ")")).of_eq (by
        simp [formulas, FormulaSpelling.text, FormulaSpelling.wrap, Expr.isOperation])
  · by_cases isMember : ∃ object name, callee = .member object name
    · obtain ⟨object, name, rfl⟩ := isMember
      obtain ⟨f, hf, shownObject⟩ := receiver object name rfl
      cases hc with
      | member ho hn =>
        refine ⟨_, by simp only [expr, hfs, hf, pure_bind]; rfl, ?_⟩
        rw [ident_of_isPlainName hn, grouped_of_formula ho]
        exact ((((shownObject.wrap _).append (shows_text ("." ++ name ++ "("))).append shown).append
          (shows_text ")")).of_eq (by
            simp [formulas, FormulaSpelling.text, FormulaSpelling.wrap, Expr.isOperation])
    · obtain ⟨f, hf, shownCallee⟩ := written
      refine ⟨_, by
        rw [expr_call_of_formula args hc (fun name h => isIdent ⟨name, h⟩)
          (fun object name h => isMember ⟨object, name, h⟩)]
        simp only [hfs, hf, pure_bind]
        rfl, ?_⟩
      rw [grouped_of_formula hc]
      exact ((((shownCallee.wrap _).append (shows_text "(")).append shown).append
        (shows_text ")")).of_eq (by simp [formulas, FormulaSpelling.text])

/-- A formula is written as its spelling, by induction on its syntax. -/
theorem writes_of_formula {e : Expr} (h : e.Formula isPlainName) :
    Writes env scope e ∧ ∀ object name, e = .member object name → Writes env scope object := by
  -- A call of a member is written with the object of the member, two levels below the call, so the
  -- induction is about that object as well.
  induction h with
  | @number digits hd =>
    refine ⟨⟨_, by simp only [expr, literal]; rfl, ?_⟩, by simp⟩
    exact (shows_text digits).of_eq (by simp [FormulaSpelling.text])
  | @ident name hn =>
    refine ⟨⟨_, by simp only [expr]; rfl, ?_⟩, by simp⟩
    rw [ident_of_isPlainName hn]
    exact (shows_text name).of_eq (by simp [FormulaSpelling.text])
  | @member object name ho hn ih =>
    refine ⟨?_, by rintro _ _ ⟨⟩; exact ih.1⟩
    obtain ⟨f, hf, shown⟩ := ih.1
    refine ⟨_, by simp only [expr, hf, pure_bind]; rfl, ?_⟩
    rw [ident_of_isPlainName hn, grouped_of_formula ho]
    exact ((shown.wrap _).append (shows_text ("." ++ name))).of_eq (by simp [FormulaSpelling.text])
  | @index object i ho _ iho ihi =>
    refine ⟨?_, by simp⟩
    obtain ⟨f, hf, shown⟩ := iho.1
    obtain ⟨f', hf', shown'⟩ := ihi.1
    refine ⟨_, by simp only [expr, hf, hf', pure_bind]; rfl, ?_⟩
    rw [grouped_of_formula ho]
    exact ((((shown.wrap _).append (shows_text "[")).append shown').append
      (shows_text "]")).of_eq (by simp [FormulaSpelling.text])
  | @binary left op right hl hop hr ihl ihr =>
    refine ⟨?_, by simp⟩
    obtain ⟨f, hf, shown⟩ := ihl.1
    obtain ⟨f', hf', shown'⟩ := ihr.1
    have notPower : op ≠ .starStar := by
      rintro rfl
      revert hop
      decide
    refine ⟨_, by simp only [expr, hf, hf', pure_bind, if_neg notPower]; rfl, ?_⟩
    rw [grouped_of_formula hl, grouped_of_formula hr]
    exact (((shown.wrap _).append (shows_text (" " ++ binaryOp op ++ " "))).append
      (shown'.wrap _)).of_eq (by simp [formulas, FormulaSpelling.text])
  | @unary op operand _ ho ih =>
    refine ⟨?_, by simp⟩
    obtain ⟨f, hf, shown⟩ := ih.1
    refine ⟨_, by simp only [expr, hf, pure_bind]; rfl, ?_⟩
    rw [grouped_of_formula ho]
    exact ((shows_text (unaryOp op)).append (shown.wrap _)).of_eq (by
      simp [formulas, FormulaSpelling.text])
  | @assign target op value _ _ _ _ iht ihv =>
    refine ⟨?_, by simp⟩
    obtain ⟨f, hf, shown⟩ := iht.1
    obtain ⟨f', hf', shown'⟩ := ihv.1
    refine ⟨_, by simp only [expr, hf, hf', pure_bind]; rfl, ?_⟩
    exact ((shown.append (shows_text (" " ++ binaryOp op ++ " "))).append shown').of_eq (by
      simp [formulas, FormulaSpelling.text])
  | call hb hc _ ihc iha =>
    exact ⟨writes_call hb hc ihc.1 ihc.2 fun a ha => (iha a ha).1, by simp⟩

end CSharp

/-! ### What Rust writes -/

namespace Rust

theorem ident_of_isPlainName {name : String} (h : isPlainName name) : ident name = name := by
  simp only [isPlainName, Bool.and_eq_true, Bool.not_eq_true'] at h
  rw [ident, h.2, h.1.2]
  rfl

theorem grouped_of_formula {e : Expr} (h : e.Formula isPlainName) (f : Fragment) :
    grouped e f = if e.isOperation then f.parens else f := by
  have same : needsParens e = e.isOperation := by
    cases h <;> rfl
  rw [grouped, same]

theorem owned_of_formula {e : Expr} (h : e.Formula isPlainName) (f : Fragment) : owned e f = f := by
  cases h <;> rfl

theorem isStringLiteral_of_formula {e : Expr} (h : e.Formula isPlainName) :
    e.isStringLiteral = false := by
  cases h <;> rfl

theorem binaryText_of_operator {left : Expr} (notString : left.isStringLiteral = false) {op : Token}
    (hop : op ∈ Token.operators) (l r : Fragment) :
    binaryText left op l r = l ++ Fragment.text (" " ++ binaryOp op ++ " ") ++ r := by
  have others : op ≠ .starStar ∧ op ≠ .questionQuestion := by
    constructor <;> rintro rfl <;> revert hop <;> decide
  simp [binaryText, others.1, others.2, notString]

theorem unaryText_of_negation {op : Token} (hop : op ∈ Token.negations) (inner : Fragment) :
    unaryText op false inner = Fragment.text (unaryOp op) ++ inner := by
  simp only [Token.negations, List.mem_cons, List.not_mem_nil, or_false] at hop
  rcases hop with rfl | rfl | rfl | rfl <;> rfl

/-- The expression is written as a formula, without any record. -/
def Writes (env : Env) (place : Place) (e : Expr) : Prop :=
  ∀ position, ∃ f, expr env place position e = pure f ∧ Shows f (formulas.text e)

attribute [local simp] expr ownedExprs

variable {env : Env} {place : Place}

theorem exists_ownedExprs {args : List Expr} (hf : ∀ a ∈ args, a.Formula isPlainName)
    (h : ∀ a ∈ args, Writes env place a) :
    ∃ fs, ownedExprs env place args = pure fs ∧
      Shows (Fragment.join ", " fs) (formulas.argumentText args) := by
  have each : ∃ fs, ownedExprs env place args = pure fs ∧
      List.Forall₂ (fun f a => Shows f (formulas.text a)) fs args := by
    induction args with
    | nil => exact ⟨[], rfl, .nil⟩
    | cons e es ih =>
      obtain ⟨f, hexpr, shown⟩ := h e (by simp) .value
      obtain ⟨fs, hfs, shownAll⟩ :=
        ih (fun a ha => hf a (by simp [ha])) fun a ha => h a (by simp [ha])
      refine ⟨f :: fs, ?_, .cons shown shownAll⟩
      simp only [ownedExprs, hexpr, hfs, pure_bind, owned_of_formula (hf e (by simp))]
  obtain ⟨fs, hfs, shown⟩ := each
  exact ⟨fs, hfs, shows_join shown⟩

/-- A callee that is neither a name nor a member is written between parentheses. -/
theorem expr_call_of_formula {callee : Expr} (args : List Expr) (h : callee.Formula isPlainName)
    (notIdent : ∀ name, callee ≠ .ident name)
    (notMember : ∀ object name, callee ≠ .member object name) (position : Position) :
    expr env place position (.call callee args) = (do
      let head := Fragment.parens (← expr env place .value callee)
      let rendered := Fragment.join ", " (← ownedExprs env place args)
      return head ++ Fragment.text "(" ++ rendered ++ Fragment.text ")") := by
  cases h with
  | ident => exact absurd rfl (notIdent _)
  | member => exact absurd rfl (notMember _ _)
  | number | index | binary | unary | assign | call => simp only [expr]

/-- A callee that is neither a name nor a member is put in parentheses. -/
theorem wrapsCallee_of_formula {callee : Expr} (h : callee.Formula isPlainName)
    (notIdent : ∀ name, callee ≠ .ident name)
    (notMember : ∀ object name, callee ≠ .member object name) :
    formulas.wrapsCallee callee = true := by
  cases h with
  | ident => exact absurd rfl (notIdent _)
  | member => exact absurd rfl (notMember _ _)
  | number | index | binary | unary | assign | call => rfl

/-- Without declared types, nothing is the name of one. -/
theorem typeName?_eq_none (known : ∀ name, env.known.contains name = false) (e : Expr) :
    typeName? env e = none := by
  cases e <;> simp [typeName?, known]

/-- A call, by the form of its callee. -/
theorem writes_call (known : ∀ name, env.known.contains name = false) {callee : Expr}
    {args : List Expr} (hb : ∀ name, callee = .ident name → Builtin.ofName? name = none)
    (hc : callee.Formula isPlainName) (hargs : ∀ a ∈ args, a.Formula isPlainName)
    (written : Writes env place callee)
    (receiver : ∀ object name, callee = .member object name → Writes env place object)
    (ha : ∀ a ∈ args, Writes env place a) : Writes env place (.call callee args) := by
  intro position
  obtain ⟨fs, hfs, shown⟩ := exists_ownedExprs hargs ha
  -- The same three forms as in C#, but here the third one is always wrapped.
  by_cases isIdent : ∃ name, callee = .ident name
  · obtain ⟨name, rfl⟩ := isIdent
    cases hc with
    | ident hn =>
      refine ⟨_, by simp only [expr, hfs, pure_bind, Callee.of, hb name rfl]; rfl, ?_⟩
      rw [ident_of_isPlainName hn]
      exact (((shows_text (name ++ "(")).append shown).append (shows_text ")")).of_eq (by
        simp [formulas, FormulaSpelling.text, FormulaSpelling.wrap])
  · by_cases isMember : ∃ object name, callee = .member object name
    · obtain ⟨object, name, rfl⟩ := isMember
      obtain ⟨f, hf, shownObject⟩ := receiver object name rfl .value
      cases hc with
      | member ho hn =>
        refine ⟨_, by simp only [expr, typeName?_eq_none known, hfs, hf, pure_bind]; rfl, ?_⟩
        rw [ident_of_isPlainName hn, grouped_of_formula ho]
        exact ((((shownObject.wrap _).append (shows_text ("." ++ name ++ "("))).append shown).append
          (shows_text ")")).of_eq (by simp [formulas, FormulaSpelling.text, FormulaSpelling.wrap])
    · obtain ⟨f, hf, shownCallee⟩ := written .value
      have notIdent : ∀ name, callee ≠ .ident name := fun name h => isIdent ⟨name, h⟩
      have notMember : ∀ object name, callee ≠ .member object name :=
        fun object name h => isMember ⟨object, name, h⟩
      refine ⟨_, by
        rw [expr_call_of_formula args hc notIdent notMember]
        simp only [hfs, hf, pure_bind]
        rfl, ?_⟩
      exact ((((shownCallee.wrap true).append (shows_text "(")).append shown).append
        (shows_text ")")).of_eq (by
          simp [FormulaSpelling.text, wrapsCallee_of_formula hc notIdent notMember])

theorem writes_of_formula (known : ∀ name, env.known.contains name = false) {e : Expr}
    (h : e.Formula isPlainName) :
    Writes env place e ∧ ∀ object name, e = .member object name → Writes env place object := by
  induction h with
  | @number digits hd =>
    refine ⟨fun position => ⟨_, by simp only [expr, literal]; rfl, ?_⟩, by simp⟩
    exact (shows_text digits).of_eq (by simp [FormulaSpelling.text])
  | @ident name hn =>
    refine ⟨fun position => ⟨_, by simp only [expr]; rfl, ?_⟩, by simp⟩
    rw [ident_of_isPlainName hn]
    exact (shows_text name).of_eq (by simp [FormulaSpelling.text])
  | @member object name ho hn ih =>
    refine ⟨fun position => ?_, by rintro _ _ ⟨⟩; exact ih.1⟩
    obtain ⟨f, hf, shown⟩ := ih.1 .value
    refine ⟨_, by simp only [expr, typeName?_eq_none known, hf, pure_bind]; rfl, ?_⟩
    rw [ident_of_isPlainName hn, grouped_of_formula ho]
    exact ((shown.wrap _).append (shows_text ("." ++ name))).of_eq (by simp [FormulaSpelling.text])
  | @index object i ho _ iho ihi =>
    refine ⟨fun position => ?_, by simp⟩
    obtain ⟨f, hf, shown⟩ := iho.1 .value
    obtain ⟨f', hf', shown'⟩ := ihi.1 .value
    refine ⟨_, by simp only [expr, hf, hf', pure_bind]; rfl, ?_⟩
    rw [grouped_of_formula ho]
    exact ((((shown.wrap _).append (shows_text "[")).append shown').append
      (shows_text "]")).of_eq (by simp [FormulaSpelling.text])
  | @binary left op right hl hop hr ihl ihr =>
    refine ⟨fun position => ?_, by simp⟩
    obtain ⟨f, hf, shown⟩ := ihl.1 .value
    obtain ⟨f', hf', shown'⟩ := ihr.1 .value
    have notString := isStringLiteral_of_formula hl
    refine ⟨_, by
      simp only [expr, hf, hf', pure_bind, binaryText_of_operator notString hop]
      rfl, ?_⟩
    rw [grouped_of_formula hl, grouped_of_formula hr]
    exact (((shown.wrap _).append (shows_text (" " ++ binaryOp op ++ " "))).append
      (shown'.wrap _)).of_eq (by simp [formulas, FormulaSpelling.text])
  | @unary op operand hop ho ih =>
    refine ⟨fun position => ?_, by simp⟩
    obtain ⟨f, hf, shown⟩ := ih.1 .value
    -- In a statement, an increment would be written as an assignment.
    have notStep : ¬ (position = .statement ∧ isStepOp op) := by
      simp only [Token.negations, List.mem_cons, List.not_mem_nil, or_false] at hop
      rcases hop with rfl | rfl | rfl | rfl <;> simp [isStepOp]
    refine ⟨_, by
      simp only [expr, hf, pure_bind, if_neg notStep, unaryText_of_negation hop]
      rfl, ?_⟩
    rw [grouped_of_formula ho]
    exact ((shows_text (unaryOp op)).append (shown.wrap _)).of_eq (by
      simp [formulas, FormulaSpelling.text])
  | @assign target op value _ _ _ _ iht ihv =>
    refine ⟨fun position => ?_, by simp⟩
    obtain ⟨f, hf, shown⟩ := iht.1 .value
    obtain ⟨f', hf', shown'⟩ := ihv.1 .value
    refine ⟨_, by simp only [expr, hf, hf', pure_bind]; rfl, ?_⟩
    exact ((shown.append (shows_text (" " ++ binaryOp op ++ " "))).append shown').of_eq (by
      simp [formulas, FormulaSpelling.text])
  | call hb hc hargs ihc iha =>
    exact ⟨writes_call known hb hc hargs ihc.1 ihc.2 fun a ha => (iha a ha).1, by simp⟩

end Rust

/-! ### Both targets -/

/-- Both targets write a formula as a text that their operators group as the formula is grouped. -/
theorem written_formula_parses :
    (∀ (env : CSharp.Env) (scope : Scope) (e : Expr), e.Formula CSharp.isPlainName →
      ∃ f : Fragment, CSharp.expr env scope e = pure f ∧
        ∀ style depth, CSharp.operatorGrammar.parse (Piece.renderAll style depth f) =
          some (CSharp.formulas.tree e)) ∧
    (∀ (env : Rust.Env) (place : Rust.Place) (position : Rust.Position) (e : Expr),
      (∀ name, env.known.contains name = false) → e.Formula Rust.isPlainName →
      ∃ f : Fragment, Rust.expr env place position e = pure f ∧
        ∀ style depth, Rust.operatorGrammar.parse (Piece.renderAll style depth f) =
          some (Rust.formulas.tree e)) := by
  constructor
  · intro env scope e h
    have written : CSharp.Writes env scope e := (CSharp.writes_of_formula h).1
    obtain ⟨f, hf, shown⟩ := written
    exact ⟨f, hf, fun style depth => by rw [shown style depth, FormulaSpelling.parse_text h]⟩
  · intro env place position e known h
    have written : Rust.Writes env place e := (Rust.writes_of_formula known h).1
    obtain ⟨f, hf, shown⟩ := written position
    exact ⟨f, hf, fun style depth => by rw [shown style depth, FormulaSpelling.parse_text h]⟩

/-- The product of a sum and a negation: `(a + b) * (-c[1])`. -/
def scaledSum : Expr :=
  .binary (.binary (.ident "a") .plus (.ident "b")) .star
    (.unary .minus (.index (.ident "c") (.literal (.number "1"))) false)

theorem scaledSum_formula {isName : String → Bool} (a : isName "a") (b : isName "b")
    (c : isName "c") : scaledSum.Formula isName :=
  .binary (.binary (.ident a) (by decide) (.ident b)) (by decide)
    (.unary (by decide) (.index (.ident c) (.number (by decide))))

/-- A sum scaled by a factor keeps its grouping in both languages. -/
theorem scaledSum_parses :
    let tree := OperatorTree.operation (.operation (.leaf "a") "+" (.leaf "b")) "*"
      (.leading "-" (.index (.leaf "c") (.leaf "1")))
    (∃ f : Fragment, CSharp.expr ⟨{}, {}, Resolver.dotnet⟩ {} scaledSum = pure f ∧
      ∀ style depth,
        CSharp.operatorGrammar.parse (Piece.renderAll style depth f) = some tree) ∧
    ∃ f : Fragment, Rust.expr ⟨{}, {}, []⟩ {} .value scaledSum = pure f ∧
      ∀ style depth, Rust.operatorGrammar.parse (Piece.renderAll style depth f) = some tree :=
  ⟨written_formula_parses.1 _ _ _ (scaledSum_formula (by decide) (by decide) (by decide)),
    written_formula_parses.2 _ _ _ _ (fun _ => rfl)
      (scaledSum_formula (by decide) (by decide) (by decide))⟩

end SourceGen
