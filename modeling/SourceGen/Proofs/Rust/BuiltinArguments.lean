import SourceGen.Proofs.Rust.OperandText

/-!
# The arguments of builtins

The builtins `len`, `str`, `abs` and `sqrt` become methods of their argument, `sqrt` behind a
conversion. An operator in the argument is weaker than both, so the argument has to be an operand
where they stand. The method always follows an operand that is the whole argument. The conversion
does not: it is written directly behind the argument, and of two operands with an operator between
them it takes the right one.

## Main definitions

* `Rust.methodOf`: the conversion and the method that stand for a builtin.
* `Rust.Calculation`: the arguments in question.
* `Rust.Spelled`: the text of an expression as an operand or as what operators are still open in.

## Main results

* `Rust.writes_of_calculation`: what is written for an expression.
* `Rust.builtin_argument_whole_iff`: the call of a builtin acts on the whole argument unless it
  converts two operands with an operator between them.
-/

namespace SourceGen

/-- The fragment is this text, in one line of plain code. -/
def Fragment.IsText (f : Fragment) (cs : List Char) : Prop :=
  f.Shows cs ∧ ∀ p, f.allChars p = cs.all p

namespace Fragment

theorem isText_text (s : String) : IsText (text s) s.toList :=
  ⟨shows_text s, fun p => by simp [text, allChars, Piece.allChars]⟩

theorem IsText.of_eq {f : Fragment} {cs cs' : List Char} (h : f.IsText cs) (same : cs = cs') :
    f.IsText cs' :=
  same ▸ h

/-- Texts side by side are a text. -/
theorem IsText.append {f f' : Fragment} {cs cs' : List Char} (h : f.IsText cs)
    (h' : f'.IsText cs') : IsText (f ++ f') (cs ++ cs') := by
  refine ⟨h.1.append h'.1, fun p => ?_⟩
  have whole : allChars p (f ++ f') = (allChars p f && allChars p f') := by
    simp [allChars, List.all_append]
  rw [whole, h.2, h'.2, List.all_append]

/-- A text in parentheses is a text. -/
theorem IsText.wrap {f : Fragment} {cs : List Char} (h : f.IsText cs) (wrapped : Bool) :
    IsText (if wrapped then f.parens else f) (FormulaSpelling.wrap wrapped cs) := by
  cases wrapped with
  | false => exact h
  | true => exact ((isText_text "(").append h).append (isText_text ")")

end Fragment

namespace Rust

open Fragment (IsText isText_text)
open FormulaSpelling (wrap)
open OperatorGrammar (Frame settleAll)

/-! ### Expressions and their trees -/

/-- The conversion and the method that the call of a builtin with one argument becomes. -/
def methodOf : Builtin → Option (Option String × String)
  | .len => some (none, "len")
  | .str => some (none, "to_string")
  | .abs => some (none, "abs")
  | .sqrt => some (some "f64", "sqrt")
  | .print | .min | .max => none

/-- The tree of a call that converts the operand and calls the method of it. -/
def applied (conversion : Option String) (method : String) (tree : OperatorTree) : OperatorTree :=
  let object :=
    match conversion with
    | none => tree
    | some type => .operation tree "as" (.leaf type)
  .call (.member object method) []

/-- The operators that are written between two operands or as a method of the first one. -/
def infixTokens : List Token :=
  Token.operators ++ [.starStar, .questionQuestion]

/-- The operators that are written in front of an operand or as a block around it. -/
def prefixTokens : List Token :=
  Token.negations ++ [.plus, .star, .amp, .plusPlus, .minusMinus]

/-- The expression is written with an operator between two operands. -/
def isInfix : Expr → Bool
  | .binary _ op _ => Token.operators.contains op
  | _ => false

/-- The expressions that are built from names, numbers, operators, accesses and calls, where a
builtin that becomes a method has its one argument. -/
inductive Calculation : Expr → Prop
  | number {digits} : Expr.isNumeral digits → Calculation (.literal (.number digits))
  | fraction {whole part} : Expr.isNumeral whole → Expr.isNumeral part →
      Calculation (.literal (.number (whole ++ "." ++ part)))
  | ident {name} : isWord name → Calculation (.ident name)
  | path {parts} : parts ≠ [] → (∀ part ∈ parts, isWord part) → Calculation (.path parts)
  | member {object name} : Calculation object → isWord name → Calculation (.member object name)
  | index {object i} : Calculation object → Calculation i → Calculation (.index object i)
  | binary {left op right} : Calculation left → op ∈ infixTokens → Calculation right →
      Calculation (.binary left op right)
  | unary {op operand} : op ∈ prefixTokens → Calculation operand →
      Calculation (.unary op operand false)
  | call {callee args} : (∀ name fn, callee = .ident name → Builtin.ofName? name = some fn →
        (methodOf fn).isSome → args.length = 1) →
      Calculation callee → (∀ a ∈ args, Calculation a) → Calculation (.call callee args)

/-- The text of an expression and its tree, with what is open at the end of the text. -/
inductive Spelled : Expr → List Char → OperatorTree → Prop
  | operand {e cs tree} : isInfix e = false → Operand cs tree → Spelled e cs tree
  | leading {op operand cs sign tree} : Ending cs [.leading sign] tree →
      cs.all isPathChar = false → Spelled (.unary op operand false) cs (.leading sign tree)
  | operation {left op right cs l r} : op ∈ Token.operators →
      Ending cs [.operand l (binaryOp op)] r → cs.all isPathChar = false →
      Spelled (.binary left op right) cs (.operation l (binaryOp op) r)

variable {e : Expr} {cs : List Char} {tree : OperatorTree}

/-- A spelled calculation is read as its tree. -/
theorem Spelled.reads (h : Spelled e cs tree) : Reads cs tree := by
  cases h with
  | operand _ operand => exact operand.reads
  | leading ending _ => exact ⟨_, _, ending, rfl⟩
  | operation _ ending _ => exact ⟨_, _, ending, rfl⟩

/-- What is read as a tree is an operand in parentheses. -/
theorem Reads.wrap {wrapped : Bool} (h : Reads cs tree) (ho : wrapped = false → Operand cs tree) :
    Operand (wrap wrapped cs) tree := by
  cases wrapped with
  | false => exact ho rfl
  | true => exact h.group

/-- As an operand of something else, the text is one operand. -/
theorem Spelled.grouped (h : Spelled e cs tree) : Operand (wrap (needsParens e) cs) tree := by
  refine h.reads.wrap fun plain => ?_
  cases h with
  | operand _ operand => exact operand
  | leading | operation => cases plain

/-- A text with open operators is no plain path, so it is written between parentheses. -/
theorem Spelled.chainable (h : Spelled e cs tree) :
    Operand (wrap (!cs.all isPathChar) cs) tree := by
  refine h.reads.wrap fun plain => ?_
  cases h with
  | operand _ operand => exact operand
  | leading _ other => simp [other] at plain
  | operation _ _ other => simp [other] at plain

/-- An operand is put in parentheses where it needs them. -/
theorem isText_grouped {f : Fragment} (h : f.IsText cs) (e : Expr) :
    (grouped e f).IsText (wrap (needsParens e) cs) :=
  h.wrap _

/-- A receiver is put in parentheses unless it is a path. -/
theorem isText_chainable {f : Fragment} (h : f.IsText cs) :
    (chainable f).IsText (wrap (!cs.all isPathChar) cs) := by
  have shown := h.wrap (!cs.all isPathChar)
  rw [chainable, h.2]
  cases hall : cs.all isPathChar <;> simpa [hall] using shown

/-! ### The calls of builtins -/

theorem mem_as : "as" ∈ operatorGrammar.operators := by
  decide

/-- A method call on an operand is an operand. -/
theorem operand_of_method {ds : List Char} (h : Operand ds tree) (method : String)
    (hm : isWord method) :
    Operand (ds ++ '.' :: (method.toList ++ "()".toList)) (.call (.member tree method) []) := by
  have called := (h.member (spells_word hm)).call .nil
  simpa [commas] using called

/-- A conversion behind a text with no open operator between operands applies to its whole tree. -/
theorem Spelled.converted (h : Spelled e cs tree) (notInfix : isInfix e = false) {type : String}
    (ht : CountsAs type.toList type) :
    Ending (cs ++ ' ' :: ("as".toList ++ ' ' :: type.toList)) [.operand tree "as"]
      (.leaf type) := by
  cases h with
  | operand _ operand => exact operand.operation mem_as ht.operand
  | @leading _ _ _ sign inner ending _ =>
    -- The sign is stronger than the conversion.
    have taken : ∀ frames, Fresh frames → operatorGrammar.settle "as"
        ([.leading sign] ++ frames) inner = some ([] ++ frames, .leading sign inner) :=
      fun frames fresh => fresh.settle_eq "as" (.leading sign inner)
    exact ending.operation mem_as taken ht.operand
  | operation hop => simp [isInfix, hop] at notInfix

/-- A conversion behind an operator between operands applies to the right one only. -/
theorem converted_right {op : Token} {l r : OperatorTree} (hop : op ∈ Token.operators)
    (h : Ending cs [.operand l (binaryOp op)] r) {type : String} (ht : CountsAs type.toList type) :
    Ending (cs ++ ' ' :: ("as".toList ++ ' ' :: type.toList))
      [.operand r "as", .operand l (binaryOp op)] (.leaf type) := by
  have weaker : ∀ op ∈ Token.operators,
      operatorGrammar.takesLeft (binaryOp op) "as" = some false := by decide
  have kept : ∀ frames, Fresh frames →
      operatorGrammar.settle "as" ([.operand l (binaryOp op)] ++ frames) r =
        some ([.operand l (binaryOp op)] ++ frames, r) := by
    intro frames _
    simp [OperatorGrammar.settle, weaker op hop]
  exact h.operation mem_as kept ht.operand

/-- How the tree of an argument is used in the tree of the call: as a whole, or, where a conversion
follows an operator between two operands, with the conversion in it. -/
inductive Used (conversion : Option String) (method : String) :
    Expr → OperatorTree → OperatorTree → Prop
  | whole {e : Expr} {tree : OperatorTree} : ¬ (conversion.isSome ∧ isInfix e) →
      Used conversion method e tree (applied conversion method tree)
  | converted {left op right l r type} : conversion = some type → op ∈ Token.operators →
      Used conversion method (.binary left op right) (.operation l (binaryOp op) r)
        (applied none method (.operation l (binaryOp op) (.operation r "as" (.leaf type))))

/-- The call of a builtin that becomes a method is an operand. -/
theorem builtinCall_of_method {fn : Builtin} {conversion : Option String} {method : String}
    (hfn : methodOf fn = some (conversion, method)) {f : Fragment} (hf : f.IsText cs)
    (h : Spelled e cs tree) : ∃ cs' call, (builtinCall fn 1 f).IsText cs' ∧ Operand cs' call ∧
      Used conversion method e tree call := by
  have chained := isText_chainable hf
  cases fn with
  | print | min | max => cases hfn
  | len =>
    cases hfn
    exact ⟨_, _, chained.append (isText_text ".len()"),
      operand_of_method h.chainable "len" (by decide), .whole (by simp)⟩
  | str =>
    cases hfn
    exact ⟨_, _, chained.append (isText_text ".to_string()"),
      operand_of_method h.chainable "to_string" (by decide), .whole (by simp)⟩
  | abs =>
    cases hfn
    exact ⟨_, _, (hf.wrap true).append (isText_text ".abs()"),
      operand_of_method h.reads.group "abs" (by decide), .whole (by simp)⟩
  -- The only one that converts: `as` binds more tightly than every operator between values.
  | sqrt =>
    cases hfn
    have number : CountsAs "f64".toList "f64" := ⟨spells_word (by decide), by decide⟩
    have shown : (builtinCall .sqrt 1 f).IsText
        ('(' :: (cs ++ ' ' :: ("as".toList ++ ' ' :: "f64".toList) ++ [')']) ++
          '.' :: ("sqrt".toList ++ "()".toList)) :=
      (((isText_text "(").append hf).append (isText_text " as f64).sqrt()")).of_eq (by simp)
    have called : ∀ {object}, Reads (cs ++ ' ' :: ("as".toList ++ ' ' :: "f64".toList)) object →
        Operand ('(' :: (cs ++ ' ' :: ("as".toList ++ ' ' :: "f64".toList) ++ [')']) ++
          '.' :: ("sqrt".toList ++ "()".toList)) (applied none "sqrt" object) :=
      fun reads => operand_of_method reads.group "sqrt" (by decide)
    cases notInfix : isInfix e with
    | false => exact ⟨_, _, shown, called ⟨_, _, h.converted notInfix number, rfl⟩,
        .whole (by simp [notInfix])⟩
    | true =>
      cases h with
      | operand other => simp [other] at notInfix
      | leading => cases notInfix
      | operation hop ending =>
        exact ⟨_, _, shown, called ⟨_, _, converted_right hop ending number, rfl⟩,
          .converted rfl hop⟩

/-! ### What is written for an expression -/

/-- The expression is written as a text of one of these forms, without any record. -/
def Shown (env : Env) (place : Place) (e : Expr) : Prop :=
  ∃ f cs tree, expr env place .value e = pure f ∧ f.IsText cs ∧ Spelled e cs tree

attribute [local simp] expr exprs ownedExprs

variable {env : Env} {place : Place}

/-- No calculation is a string literal. -/
theorem isStringLiteral_of_calculation (h : Calculation e) : e.isStringLiteral = false := by
  cases h <;> rfl

/-- Arguments side by side are a text. -/
theorem isText_join {fs : List Fragment} {css : List (List Char)}
    (h : List.Forall₂ IsText fs css) : (Fragment.join ", " fs).IsText (commas css) := by
  induction h with
  | nil => exact ⟨fun _ _ => rfl, fun _ => rfl⟩
  | cons first more ih =>
    cases more with
    | nil => exact first
    | cons => exact ((first.append (isText_text ", ")).append ih).of_eq (by simp [commas])

/-- Arguments are written alike for a builtin and for any other function. -/
theorem exists_arguments {args : List Expr} (hargs : ∀ a ∈ args, Calculation a)
    (h : ∀ a ∈ args, Shown env place a) : ∃ fs css trees,
      exprs env place args = pure fs ∧ ownedExprs env place args = pure fs ∧
      (Fragment.join ", " fs).IsText (commas css) ∧ List.Forall₂ Reads css trees ∧
      css.length = args.length := by
  have each : ∃ fs css trees, exprs env place args = pure fs ∧
      ownedExprs env place args = pure fs ∧ List.Forall₂ IsText fs css ∧
      List.Forall₂ Reads css trees ∧ css.length = args.length := by
    induction args with
    | nil => exact ⟨[], [], [], rfl, rfl, .nil, .nil, rfl⟩
    | cons e es ih =>
      obtain ⟨f, cs, tree, hexpr, shown, spelled⟩ := h e (by simp)
      obtain ⟨fs, css, trees, hfs, hfs', shownAll, readAll, length⟩ :=
        ih (fun a ha => hargs a (by simp [ha])) fun a ha => h a (by simp [ha])
      have notString := isStringLiteral_of_calculation (hargs e (by simp))
      refine ⟨f :: fs, cs :: css, tree :: trees, ?_, ?_, .cons shown shownAll,
        .cons spelled.reads readAll, by simp [length]⟩
      · simp only [exprs, hexpr, hfs, pure_bind]
      · simp [hexpr, hfs', owned, notString]
  obtain ⟨fs, css, trees, hfs, hfs', shown, reads, length⟩ := each
  exact ⟨fs, css, trees, hfs, hfs', isText_join shown, reads, length⟩

/-- A text that is an operand, for an expression without an operator between operands. -/
theorem shown_of_operand {f : Fragment} (hf : expr env place .value e = pure f)
    (text : f.IsText cs) (notInfix : isInfix e = false) (h : Operand cs tree) :
    Shown env place e :=
  ⟨f, cs, tree, hf, text, .operand notInfix h⟩

theorem isPathChar_blank : isPathChar ' ' = false := by
  decide

/-- A binary expression is shown when its operands are. -/
theorem shown_binary {left right : Expr} {op : Token} (hop : op ∈ infixTokens)
    (notString : left.isStringLiteral = false) (hl : Shown env place left)
    (hr : Shown env place right) : Shown env place (.binary left op right) := by
  obtain ⟨f, ls, l, hf, shownLeft, spelledLeft⟩ := hl
  obtain ⟨f', rs, r, hf', shownRight, spelledRight⟩ := hr
  have textLeft := isText_grouped shownLeft left
  have textRight := isText_grouped shownRight right
  have operandLeft := spelledLeft.grouped
  have operandRight := spelledRight.grouped
  have written : expr env place .value (.binary left op right) =
      pure (binaryText left op (grouped left f) (grouped right f')) := by
    simp only [expr, hf, hf', pure_bind]
  rcases List.mem_append.mp hop with operator | method
  · rw [binaryText_of_operator notString operator] at written
    have mem : binaryOp op ∈ operatorGrammar.operators :=
      formulas.between_mem op (List.mem_append_left _ operator)
    have shown := (textLeft.append (isText_text (" " ++ binaryOp op ++ " "))).append textRight
    have spelled : Spelled (.binary left op right) (wrap (needsParens left) ls ++
        ' ' :: ((binaryOp op).toList ++ ' ' :: wrap (needsParens right) rs)) _ :=
      .operation operator (operandLeft.operation mem operandRight) (by simp [isPathChar_blank])
    exact ⟨_, _, _, written, shown.of_eq (by simp), spelled⟩
  · simp only [List.mem_cons, List.not_mem_nil, or_false] at method
    rcases method with rfl | rfl
    · -- The left operand is made fit for a call once more.
      have power : Operand (wrap (!(wrap (needsParens left) ls).all isPathChar)
          (wrap (needsParens left) ls)) l :=
        operandLeft.reads.wrap fun _ => operandLeft
      have number : CountsAs "u32".toList "u32" := ⟨spells_word (by decide), by decide⟩
      have argument : Reads _ (.operation r "as" (.leaf "u32")) :=
        ⟨_, _, operandRight.operation mem_as number.operand, rfl⟩
      have pow : Spells "pow".toList "pow" := spells_word (by decide)
      have called := (power.member pow).call (.cons argument .nil)
      have shown := (((isText_chainable textLeft).append (isText_text ".pow(")).append
        textRight).append (isText_text " as u32)")
      refine shown_of_operand written ?_ rfl called
      exact shown.of_eq (by simp [commas])
    · have unwrap : Spells "unwrap_or".toList "unwrap_or" := spells_word (by decide)
      have called := (operandLeft.member unwrap).call (.cons operandRight.reads .nil)
      have shown := ((textLeft.append (isText_text ".unwrap_or(")).append textRight).append
        (isText_text ")")
      refine shown_of_operand written ?_ rfl called
      exact shown.of_eq (by simp [commas])

/-- An increment or a decrement is written as a block, which is an operand. -/
theorem operand_step {op : Token} {inner : Fragment} {is : List Char} (hop : isStepOp op)
    (text : inner.IsText is) (h : Operand is tree) :
    ∃ cs tree', (unaryText op false inner).IsText cs ∧ Operand cs tree' := by
  have change : Balanced (stepOp op).toList := by
    unfold stepOp
    split_ifs <;> exact balanced_of_all (by decide)
  have blank : Balanced [' '] := balanced_of_all (by decide)
  have balanced : Balanced (' ' :: (is ++ (stepOp op).toList ++ "; ".toList ++ is ++ [' '])) :=
    blank.append ((((h.balanced.append change).append (balanced_of_all (by decide))).append
      h.balanced).append blank)
  have shown := (((((isText_text "\x7b ").append text).append (isText_text (stepOp op))).append
    (isText_text "; ")).append text).append (isText_text " \x7d")
  refine ⟨_, _, ?_, (countsAs_block balanced).operand⟩
  rw [unaryText, if_pos hop, if_neg (by decide)]
  exact shown.of_eq (by simp)

/-- A unary expression is shown when its operand is. -/
theorem shown_unary {operand : Expr} {op : Token} (hop : op ∈ prefixTokens)
    (h : Shown env place operand) : Shown env place (.unary op operand false) := by
  obtain ⟨f, cs, tree, hf, shown, spelled⟩ := h
  have text := isText_grouped shown operand
  have written : expr env place .value (.unary op operand false) =
      pure (unaryText op false (grouped operand f)) := by
    simp [hf]
  have forms : isStepOp op ∨ op = .plus ∨ unaryOp op ∈ signs ∧
      unaryText op false (grouped operand f) =
        Fragment.text (unaryOp op) ++ grouped operand f := by
    simp only [prefixTokens, Token.negations, List.cons_append, List.nil_append, List.mem_cons,
      List.not_mem_nil, or_false] at hop
    rcases hop with rfl | rfl | rfl | rfl | rfl | rfl | rfl | rfl | rfl <;>
      simp [isStepOp, signs, unaryOp, unaryText]
  rcases forms with step | rfl | ⟨sign, signText⟩
  · obtain ⟨cs', tree', shownBlock, block⟩ := operand_step step text spelled.grouped
    exact shown_of_operand written shownBlock rfl block
  · -- A plus sign is left out.
    exact shown_of_operand written text rfl spelled.grouped
  · rw [signText] at written
    have noPath : ∀ sign ∈ signs, sign.toList.all isPathChar = false := by decide
    exact ⟨_, _, _, written, (isText_text _).append text,
      .leading (spelled.grouped.leading sign) (by simp [noPath _ sign, List.all_append])⟩

/-! ### Calls -/

theorem quote_notMem_join {parts : List String} (h : ∀ part ∈ parts, '"' ∉ part.toList) :
    '"' ∉ (Text.join " " parts).toList := by
  induction parts with
  | nil => simp [Text.join]
  | cons part parts ih =>
    have first := h part (by simp)
    have rest := ih fun p hp => h p (by simp [hp])
    cases parts with
    | nil => exact first
    | cons => simpa [Text.join, first] using rest

theorem countsAs_println : CountsAs "println!".toList "println_" where
  spans afterWord := by
    cases afterWord <;> exact ⟨rfl, rfl⟩
  balanced := balanced_of_all (by decide)
  isWord := by decide
  ne_as := by decide

/-- A builtin that does not become a method of its argument is the call of a macro or a function. -/
theorem builtinCall_of_others {fn : Builtin} (hfn : methodOf fn = none) {f : Fragment}
    {css : List (List Char)} {trees : List OperatorTree} (hf : f.IsText (commas css))
    (h : List.Forall₂ Reads css trees) :
    ∃ cs tree, (builtinCall fn css.length f).IsText cs ∧ Operand cs tree := by
  have function : ∀ name ∈ ["min", "max"], ∃ cs tree,
      (Fragment.text ("std::cmp::" ++ name ++ "(") ++ f ++ Fragment.text ")").IsText cs ∧
        Operand cs tree := by
    intro name hname
    have parts : ∀ name ∈ ["min", "max"], path ["std", "cmp", name] = "std::cmp::" ++ name ∧
        ∀ part ∈ ["std", "cmp", name], isWord part := by decide
    obtain ⟨spelling, words⟩ := parts name hname
    obtain ⟨word, counts⟩ := countsAs_path (by simp) words
    rw [spelling] at counts
    have shown := ((isText_text ("std::cmp::" ++ name ++ "(")).append hf).append (isText_text ")")
    exact ⟨_, _, shown.of_eq (by simp), counts.operand.call h⟩
  cases fn with
  | len | str | abs | sqrt => cases hfn
  | min => exact function "min" (by decide)
  | max => exact function "max" (by decide)
  | print =>
    cases h with
    | nil =>
      have called := countsAs_println.operand.call .nil
      exact ⟨_, _, isText_text "println!()", by simpa [commas] using called⟩
    | @cons cs tree css trees first more =>
      -- The format, a string, is the first argument.
      have noQuote : '"' ∉ (Text.join " " (List.replicate (css.length + 1) "\x7b\x7d")).toList :=
        quote_notMem_join fun part hpart => by
          rw [List.eq_of_mem_replicate hpart]
          decide
      have called := countsAs_println.operand.call
        (.cons (countsAs_string noQuote).operand.reads (.cons first more))
      have shown := ((isText_text ("println!(\"" ++
        Text.join " " (List.replicate (css.length + 1) "\x7b\x7d") ++ "\", ")).append hf).append
        (isText_text ")")
      exact ⟨_, _, shown.of_eq (by simp [commas]), called⟩

/-- Only an identifier names a type. -/
theorem eq_ident_of_typeName? {object : Expr} {type : String}
    (h : typeName? env object = some type) : object = .ident type := by
  cases object with
  | ident name =>
    simp only [typeName?] at h
    split_ifs at h
    cases h
    rfl
  | _ => cases h

/-- A name in front of which a declared type stands is part of a path. -/
theorem countsAs_associated {object : Expr} {type name : String}
    (h : typeName? env object = some type) (ho : Calculation object) (hn : isWord name) :
    ∃ word, CountsAs (ident type ++ "::" ++ ident name).toList word := by
  obtain rfl := eq_ident_of_typeName? h
  cases ho with
  | ident ht =>
    obtain ⟨word, spelled⟩ := countsAs_ident ht
    obtain ⟨word', spelled'⟩ := countsAs_ident hn
    exact ⟨_, by simpa using spelled.scoped spelled'.toSpells⟩

/-- The argument list behind the text of a callee. -/
theorem shown_of_callee {callee : Expr} {args : List Expr} {head : String} {f : Fragment}
    {css : List (List Char)} {trees : List OperatorTree}
    (written : expr env place .value (.call callee args) =
      pure (Fragment.text (head ++ "(") ++ f ++ Fragment.text ")"))
    (h : Operand head.toList tree) (hf : f.IsText (commas css))
    (hargs : List.Forall₂ Reads css trees) : Shown env place (.call callee args) := by
  have shown := ((isText_text (head ++ "(")).append hf).append (isText_text ")")
  exact shown_of_operand written (shown.of_eq (by simp)) rfl (h.call hargs)

/-- A call by name is shown when its arguments are. -/
theorem shown_call_ident {name : String} {args : List Expr} (hn : isWord name)
    (hb : ∀ fn, Builtin.ofName? name = some fn → (methodOf fn).isSome → args.length = 1)
    (hargs : ∀ a ∈ args, Calculation a) (ha : ∀ a ∈ args, Shown env place a) :
    Shown env place (.call (.ident name) args) := by
  obtain ⟨fs, css, trees, hfs, hfs', shown, reads, length⟩ := exists_arguments hargs ha
  cases hname : Builtin.ofName? name with
  | none =>
    have written : expr env place .value (.call (.ident name) args) =
        pure (Fragment.text (ident name ++ "(") ++ Fragment.join ", " fs ++ Fragment.text ")") := by
      simp only [expr, Callee.of, hname, hfs', pure_bind]
    obtain ⟨word, spelled⟩ := countsAs_ident hn
    exact shown_of_callee written spelled.operand shown reads
  | some fn =>
    cases hfn : methodOf fn with
    | none =>
      obtain ⟨cs, tree, shownCall, operand⟩ := builtinCall_of_others hfn shown reads
      refine shown_of_operand ?_ shownCall rfl operand
      simp only [expr, Callee.of, hname, hfs, pure_bind, length]
    | some call =>
      obtain ⟨a, rfl⟩ := List.length_eq_one_iff.mp (hb fn hname (by rw [hfn]; rfl))
      obtain ⟨f, cs, tree, hf, text, spelled⟩ := ha a (by simp)
      have written : expr env place .value (.call (.ident name) [a]) =
          pure (builtinCall fn 1 f) := by
        simp only [expr, exprs, Callee.of, hname, hf, pure_bind]
        rfl
      obtain ⟨cs', tree', shownCall, operand, _⟩ := builtinCall_of_method hfn text spelled
      exact shown_of_operand written shownCall rfl operand

/-- A method call is shown when its receiver and its arguments are. -/
theorem shown_call_member {object : Expr} {name : String} {args : List Expr}
    (ho : Calculation object) (hn : isWord name) (h : Shown env place object)
    (hargs : ∀ a ∈ args, Calculation a) (ha : ∀ a ∈ args, Shown env place a) :
    Shown env place (.call (.member object name) args) := by
  obtain ⟨fs, css, trees, -, hfs, shown, reads, -⟩ := exists_arguments hargs ha
  cases htype : typeName? env object with
  | some type =>
    have written : expr env place .value (.call (.member object name) args) =
        pure (Fragment.text (ident type ++ "::" ++ ident name ++ "(") ++ Fragment.join ", " fs ++
          Fragment.text ")") := by
      simp only [expr, htype, hfs, pure_bind]
    obtain ⟨word, counts⟩ := countsAs_associated htype ho hn
    exact shown_of_callee written counts.operand shown reads
  | none =>
    obtain ⟨f, cs, tree, hf, text, spelled⟩ := h
    have written : expr env place .value (.call (.member object name) args) =
        pure (grouped object f ++ Fragment.text ("." ++ ident name ++ "(") ++
          Fragment.join ", " fs ++ Fragment.text ")") := by
      simp only [expr, htype, hf, hfs, pure_bind]
    obtain ⟨word, counts⟩ := countsAs_ident hn
    have shownCall := (((isText_grouped text object).append
      (isText_text ("." ++ ident name ++ "("))).append shown).append (isText_text ")")
    exact shown_of_operand written (shownCall.of_eq (by simp)) rfl
      ((spelled.grouped.member counts.toSpells).call reads)

/-- Any other callee stands between parentheses. -/
theorem shown_call_other {callee : Expr} {args : List Expr} (h : Shown env place callee)
    (written : expr env place .value (.call callee args) = (do
      let head := Fragment.parens (← expr env place .value callee)
      let rendered := Fragment.join ", " (← ownedExprs env place args)
      return head ++ Fragment.text "(" ++ rendered ++ Fragment.text ")"))
    (hargs : ∀ a ∈ args, Calculation a) (ha : ∀ a ∈ args, Shown env place a) :
    Shown env place (.call callee args) := by
  obtain ⟨fs, css, trees, -, hfs, shown, reads, -⟩ := exists_arguments hargs ha
  obtain ⟨f, cs, tree, hf, text, spelled⟩ := h
  have shownCall := (((text.wrap true).append (isText_text "(")).append shown).append
    (isText_text ")")
  rw [hf, hfs] at written
  exact shown_of_operand written (shownCall.of_eq (by simp [wrap])) rfl
    (spelled.reads.group.call reads)

/-- A call is shown when its callee and its arguments are. -/
theorem shown_call {callee : Expr} {args : List Expr}
    (hb : ∀ name fn, callee = .ident name → Builtin.ofName? name = some fn →
      (methodOf fn).isSome → args.length = 1)
    (hc : Calculation callee) (h : Shown env place callee)
    (receiver : ∀ object name, callee = .member object name → Shown env place object)
    (hargs : ∀ a ∈ args, Calculation a) (ha : ∀ a ∈ args, Shown env place a) :
    Shown env place (.call callee args) := by
  cases hc with
  | ident hn => exact shown_call_ident hn (fun fn => hb _ fn rfl) hargs ha
  | path hne hp =>
    obtain ⟨fs, css, trees, -, hfs, shown, reads, -⟩ := exists_arguments hargs ha
    obtain ⟨word, counts⟩ := countsAs_path hne hp
    exact shown_of_callee (by simp only [expr, hfs, pure_bind]) counts.operand shown reads
  | member ho hn => exact shown_call_member ho hn (receiver _ _ rfl) hargs ha
  | number | fraction | index | binary | unary | call =>
    exact shown_call_other h (by simp only [expr]) hargs ha

/-- A member is shown when its object is. -/
theorem shown_member {object : Expr} {name : String} (ho : Calculation object) (hn : isWord name)
    (h : Shown env place object) : Shown env place (.member object name) := by
  cases htype : typeName? env object with
  | some type =>
    obtain ⟨word, counts⟩ := countsAs_associated htype ho hn
    exact shown_of_operand (by simp only [expr, htype]) (isText_text _) rfl counts.operand
  | none =>
    obtain ⟨f, cs, tree, hf, text, spelled⟩ := h
    obtain ⟨word, counts⟩ := countsAs_ident hn
    have shown := (isText_grouped text object).append (isText_text ("." ++ ident name))
    exact shown_of_operand (by simp only [expr, htype, hf, pure_bind])
      (shown.of_eq (by simp)) rfl (spelled.grouped.member counts.toSpells)

/-- An element is shown when its object and its index are. -/
theorem shown_index {object i : Expr} (ho : Shown env place object) (hi : Shown env place i) :
    Shown env place (.index object i) := by
  obtain ⟨f, cs, tree, hf, text, spelled⟩ := ho
  obtain ⟨f', cs', tree', hf', text', spelled'⟩ := hi
  have shown := (((isText_grouped text object).append (isText_text "[")).append text').append
    (isText_text "]")
  exact shown_of_operand (by simp only [expr, hf, hf', pure_bind])
    (shown.of_eq (by simp)) rfl (spelled.grouped.index spelled'.reads)

theorem countsAs_numeral {digits : String} (h : Expr.isNumeral digits) :
    CountsAs digits.toList digits where
  toSpells := spells_word (FormulaSpelling.isWord_of_isNumeral h)
  ne_as := by
    rintro rfl
    revert h
    decide

/-- What is written for an expression. -/
theorem writes_of_calculation (h : Calculation e) :
    Shown env place e ∧ ∀ object name, e = .member object name → Shown env place object := by
  -- A call of a member is written with the object of the member, two levels below the call, so the
  -- induction is about that object as well.
  induction h with
  | number hd =>
    refine ⟨?_, by simp⟩
    exact shown_of_operand (by simp only [expr, literal]) (isText_text _) rfl
      (countsAs_numeral hd).operand
  | @fraction whole part hw hp =>
    -- The operator grammar takes the fraction for a member of the whole part.
    refine ⟨?_, by simp⟩
    have number := (countsAs_numeral hw).operand.member (countsAs_numeral hp).toSpells
    refine shown_of_operand (by simp only [expr, literal]; rfl) ?_ rfl number
    exact (isText_text (whole ++ "." ++ part)).of_eq (by simp)
  | ident hn =>
    refine ⟨?_, by simp⟩
    obtain ⟨word, counts⟩ := countsAs_ident hn
    exact shown_of_operand (by simp only [expr]) (isText_text _) rfl counts.operand
  | path hne hp =>
    refine ⟨?_, by simp⟩
    obtain ⟨word, counts⟩ := countsAs_path hne hp
    exact shown_of_operand (by simp only [expr]) (isText_text _) rfl counts.operand
  | member ho hn ih =>
    refine ⟨shown_member ho hn ih.1, ?_⟩
    rintro _ _ ⟨⟩
    exact ih.1
  | index _ _ iho ihi => exact ⟨shown_index iho.1 ihi.1, by simp⟩
  | binary hl hop _ ihl ihr =>
    exact ⟨shown_binary hop (isStringLiteral_of_calculation hl) ihl.1 ihr.1, by simp⟩
  | unary hop _ ih => exact ⟨shown_unary hop ih.1, by simp⟩
  | call hb hc hargs ihc iha =>
    exact ⟨shown_call hb hc ihc.1 ihc.2 hargs fun a ha => (iha a ha).1, by simp⟩

/-! ### Calls of builtins -/

/-- What is read as a tree is parsed to it in any layout. -/
theorem parse_of_operand {f : Fragment} (hf : f.IsText cs) (h : Reads cs tree)
    (style : LayoutStyle) (depth : Nat) : parse (Piece.renderAll style depth f) = some tree := by
  rw [hf.1 style depth]
  exact Reads.parse (by rwa [String.toList_ofList])

/-- The call of a builtin that becomes a method acts on its whole argument, except where it converts
an argument with an operator between two operands: there the right one alone is converted. -/
theorem builtin_argument_whole_iff (env : Env) (place : Place) (position : Position) {name : String}
    {fn : Builtin} {conversion : Option String} {method : String}
    (hname : Builtin.ofName? name = some fn) (hfn : methodOf fn = some (conversion, method))
    {e : Expr} (he : Calculation e) :
    ∃ (f call : Fragment) (tree : OperatorTree),
      expr env place .value e = pure f ∧
      expr env place position (.call (.ident name) [e]) = pure call ∧
      (∀ style depth, parse (Piece.renderAll style depth f) = some tree) ∧
      ((∀ style depth, parse (Piece.renderAll style depth call) =
          some (applied conversion method tree)) ↔ ¬ (conversion.isSome ∧ isInfix e)) ∧
      ∀ left op right type, e = .binary left op right → op ∈ Token.operators →
        conversion = some type → ∃ l r, tree = .operation l (binaryOp op) r ∧
          ∀ style depth, parse (Piece.renderAll style depth call) = some (applied none method
            (.operation l (binaryOp op) (.operation r "as" (.leaf type)))) := by
  have argument : Shown env place e := (writes_of_calculation he).1
  obtain ⟨f, cs, tree, hf, text, spelled⟩ := argument
  obtain ⟨cs', call, shown, operand, used⟩ := builtinCall_of_method hfn text spelled
  have written : expr env place position (.call (.ident name) [e]) = pure (builtinCall fn 1 f) := by
    simp only [expr, exprs, Callee.of, hname, hf, pure_bind]
    rfl
  have parsed := parse_of_operand shown operand.reads
  refine ⟨f, builtinCall fn 1 f, tree, hf, written, parse_of_operand text spelled.reads, ?_⟩
  cases used with
  | whole hwhole =>
    refine ⟨⟨fun _ => hwhole, fun _ => parsed⟩, ?_⟩
    rintro left op right type rfl hop rfl
    exact absurd ⟨rfl, by simp [isInfix, hop]⟩ hwhole
  | @converted left op right l r type hconversion hop =>
    subst hconversion
    refine ⟨⟨fun whole => ?_, fun notBoth => ?_⟩, ?_⟩
    · -- As a whole, the argument would be the left operand of the conversion.
      have same := (whole ⟨0, .sameLine⟩ 0).symm.trans (parsed ⟨0, .sameLine⟩ 0)
      have noConversion : ∀ op ∈ Token.operators, binaryOp op ≠ "as" := by decide
      simp only [applied, Option.some.injEq, OperatorTree.call.injEq, OperatorTree.member.injEq,
        OperatorTree.operation.injEq] at same
      exact absurd same.1.1.2.1.symm (noConversion op hop)
    · exact absurd ⟨rfl, by simp [isInfix, hop]⟩ notBoth
    · rintro _ _ _ _ ⟨⟩ _ ⟨⟩
      exact ⟨l, r, rfl, parsed⟩

/-- The length of a sum is that of the whole sum, and the square root of a sum converts its second
operand only. -/
theorem sum_as_argument :
    (∃ (f call : Fragment) (tree : OperatorTree),
      expr ⟨{}, {}, []⟩ {} .value (.binary (.ident "a") .plus (.ident "b")) = pure f ∧
      expr ⟨{}, {}, []⟩ {} .value
        (.call (.ident "len") [.binary (.ident "a") .plus (.ident "b")]) = pure call ∧
      (∀ style depth, parse (Piece.renderAll style depth f) = some tree) ∧
      ∀ style depth, parse (Piece.renderAll style depth call) = some (applied none "len" tree)) ∧
    ∃ (call : Fragment) (l r : OperatorTree),
      expr ⟨{}, {}, []⟩ {} .value
        (.call (.ident "sqrt") [.binary (.ident "a") .plus (.ident "b")]) = pure call ∧
      ∀ style depth, parse (Piece.renderAll style depth call) =
        some (applied none "sqrt" (.operation l "+" (.operation r "as" (.leaf "f64")))) := by
  have sum : Calculation (.binary (.ident "a") .plus (.ident "b")) :=
    .binary (.ident (by decide)) (by decide) (.ident (by decide))
  have len : Builtin.ofName? "len" = some .len := by decide
  have sqrt : Builtin.ofName? "sqrt" = some .sqrt := by decide
  constructor
  · obtain ⟨f, call, tree, hf, hcall, parsed, whole, -⟩ :=
      builtin_argument_whole_iff ⟨{}, {}, []⟩ {} .value len rfl sum
    exact ⟨f, call, tree, hf, hcall, parsed, whole.mpr (by simp)⟩
  · obtain ⟨_, call, _, -, hcall, -, -, converted⟩ :=
      builtin_argument_whole_iff ⟨{}, {}, []⟩ {} .value sqrt rfl sum
    obtain ⟨l, r, -, parsed⟩ := converted _ _ _ _ rfl (by decide) rfl
    exact ⟨call, l, r, hcall, parsed⟩

end Rust

end SourceGen
