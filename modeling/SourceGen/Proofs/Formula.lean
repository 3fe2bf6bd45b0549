import SourceGen.Proofs.OperatorGrammar
import SourceGen.Tree.Basic
import SourceGen.Vocabulary.Builtin

/-!
# Formulas

The expressions that are built from names and numbers with operators, accesses and calls, and their
text in a language that writes parentheses around every operand that is an operation. Read with the
operator grammar of the language, the text of a formula is the formula again.

## Main definitions

* `Expr.Formula`: the expressions in question.
* `FormulaSpelling`: how a language writes operators and callees.
* `FormulaSpelling.tree`: the formula as its grammar sees it.
* `FormulaSpelling.text`: the text of a formula.

## Main results

* `FormulaSpelling.readsOpen_of_formula`: the machine reads the text of a formula as its tree.
* `FormulaSpelling.parse_text`: so does the parser.
-/

namespace SourceGen

/-- The operators between the operands of an operation. -/
def Token.operators : List Token :=
  [plus, minus, star, slash, percent, equalEqual, bangEqual, less, lessEqual, greater, greaterEqual,
   ampAmp, pipePipe, and, or, amp, pipe, caret, shiftLeft, shiftRight]

/-- The operators of an assignment. -/
def Token.assignments : List Token :=
  [equal, plusEqual, minusEqual, starEqual, slashEqual, percentEqual]

/-- The operators in front of an operand. -/
def Token.negations : List Token :=
  [bang, not, minus, tilde]

namespace Expr

/-- The expression can be assigned to. -/
def isPlace : Expr → Bool
  | .ident _ | .member _ _ | .index _ _ => true
  | _ => false

/-- The expression has an operator of its own. -/
def isOperation : Expr → Bool
  | .binary _ _ _ | .assign _ _ _ | .unary _ _ _ => true
  | _ => false

theorem isOperation_eq_false_of_isPlace {e : Expr} (h : e.isPlace) : e.isOperation = false := by
  cases e <;> simp_all [isPlace, isOperation]

/-- The text is a number in decimal digits. -/
def isNumeral (text : String) : Bool :=
  !text.toList.isEmpty && text.toList.all Char.isDigit

/-- The expression is built from names, numbers, operators, accesses and calls. -/
inductive Formula (isName : String → Bool) : Expr → Prop
  | number {digits} : isNumeral digits → Formula isName (.literal (.number digits))
  | ident {name} : isName name → Formula isName (.ident name)
  | member {object name} : Formula isName object → isName name →
      Formula isName (.member object name)
  | index {object i} : Formula isName object → Formula isName i → Formula isName (.index object i)
  | binary {left op right} : Formula isName left → op ∈ Token.operators → Formula isName right →
      Formula isName (.binary left op right)
  | unary {op operand} : op ∈ Token.negations → Formula isName operand →
      Formula isName (.unary op operand false)
  | assign {target op value} : target.isPlace → Formula isName target →
      op ∈ Token.assignments → Formula isName value → Formula isName (.assign target op value)
  /-- A call of something that is no builtin. -/
  | call {callee args} : (∀ name, callee = .ident name → Builtin.ofName? name = none) →
      Formula isName callee → (∀ a ∈ args, Formula isName a) → Formula isName (.call callee args)

end Expr

/-- How a language with the grammar `g` writes names, operators and callees. -/
structure FormulaSpelling (g : OperatorGrammar) where
  /-- The text is a name that stands for itself. -/
  isName : String → Bool
  between : Token → String
  front : Token → String
  /-- The callee stands between parentheses. -/
  wrapsCallee : Expr → Bool
  isWord_of_isName : ∀ name, isName name → isWord name
  notMem_of_isName : ∀ name, isName name → name ∉ g.symbols
  between_mem : ∀ op ∈ Token.operators ++ Token.assignments, between op ∈ g.operators
  between_isLexeme : ∀ op ∈ Token.operators ++ Token.assignments, g.isLexeme (between op).toList
  /-- An assignment leaves the operand behind it to any other operator. -/
  assignment_takesLeft : ∀ op ∈ Token.assignments, ∀ next ∈ Token.operators ++ Token.assignments,
    g.takesLeft (between op) (between next) = some false
  front_mem : ∀ op ∈ Token.negations, front op ∈ g.leading
  front_isLexeme : ∀ op ∈ Token.negations, g.isLexeme (front op).toList
  front_isWordChar : ∀ op ∈ Token.negations, ∀ c ∈ (front op).toList, isWordChar c = false
  wrapsCallee_of_isOperation : ∀ callee : Expr, callee.isOperation → wrapsCallee callee

namespace FormulaSpelling

open OperatorGrammar

variable {g : OperatorGrammar} (s : FormulaSpelling g)

mutual

/-- The formula as its grammar sees it. -/
def tree : Expr → OperatorTree
  | .literal (.number digits) => .leaf digits
  | .ident name => .leaf name
  | .member object name => .member (tree object) name
  | .index object i => .index (tree object) (tree i)
  | .binary left op right => .operation (tree left) (s.between op) (tree right)
  | .unary op operand _ => .leading (s.front op) (tree operand)
  | .assign target op value => .operation (tree target) (s.between op) (tree value)
  | .call callee args => .call (tree callee) (trees args)
  | _ => .leaf ""

/-- The trees of formulas. -/
def trees : List Expr → List OperatorTree
  | [] => []
  | e :: es => tree e :: trees es

end

/-- A text between parentheses, if it needs them. -/
def wrap (wrapped : Bool) (cs : List Char) : List Char :=
  if wrapped then '(' :: (cs ++ [')']) else cs

mutual

/-- The text of a formula. -/
def text : Expr → List Char
  | .literal (.number digits) => digits.toList
  | .ident name => name.toList
  | .member object name => wrap object.isOperation (text object) ++ '.' :: name.toList
  -- What stands between brackets of its own is not wrapped.
  | .index object i => wrap object.isOperation (text object) ++ '[' :: (text i ++ [']'])
  | .binary left op right =>
    wrap left.isOperation (text left) ++ ' ' :: ((s.between op).toList ++
      ' ' :: wrap right.isOperation (text right))
  | .unary op operand _ => (s.front op).toList ++ wrap operand.isOperation (text operand)
  | .assign target op value => text target ++ ' ' :: ((s.between op).toList ++ ' ' :: text value)
  | .call callee args =>
    wrap (s.wrapsCallee callee) (text callee) ++ '(' :: (argumentText args ++ [')'])
  | _ => []

/-- The texts of arguments with commas between them. -/
def argumentText : List Expr → List Char
  | [] => []
  | [e] => text e
  | e :: es => text e ++ ',' :: ' ' :: argumentText es

end

/-! ### Reading a text -/

attribute [local simp] tree trees text argumentText

/-- No waiting operator takes an operand in front of another operator. -/
def Open (frames : List Frame) : Prop :=
  ∀ op ∈ Token.operators ++ Token.assignments, ∀ tree,
    g.settle (s.between op) frames tree = some (frames, tree)

/-- The text of the formula is one operand, whatever waits for it. -/
def ReadsClosed (e : Expr) : Prop :=
  ∀ frames rest, Apart rest →
    g.read (.wanted frames) (s.text e ++ rest) = g.read (.held frames (s.tree e)) rest

/-- The text of the formula ends with an operand that, with the operators that the formula leaves
waiting, makes up its tree. -/
def ReadsOpen (e : Expr) : Prop :=
  ∀ frames rest, Apart rest → s.Open frames → ∃ inner last,
    g.read (.wanted frames) (s.text e ++ rest) = g.read (.held inner last) rest ∧
    settleAll inner last = settleAll frames (s.tree e)

variable {s}

theorem ReadsClosed.readsOpen {e : Expr} (h : s.ReadsClosed e) : s.ReadsOpen e := by
  intro frames rest hr _
  exact ⟨frames, s.tree e, h frames rest hr, rfl⟩

/-- Between parentheses every formula is one operand. -/
theorem read_wrap {e : Expr} {wrapped : Bool} (ho : s.ReadsOpen e)
    (hc : wrapped = false → s.ReadsClosed e) {frames : List Frame} {rest : List Char}
    (hr : Apart rest) :
    g.read (.wanted frames) (wrap wrapped (s.text e) ++ rest) =
      g.read (.held frames (s.tree e)) rest := by
  cases wrapped with
  | false => exact hc rfl frames rest hr
  | true =>
    -- The parenthesis shields the operators that wait outside.
    have isOpen : s.Open (.group :: frames) := fun op _ tree => rfl
    obtain ⟨inner, last, hread, hsettle⟩ :=
      ho (.group :: frames) (')' :: rest) (apart_cons (by decide)) isOpen
    have hclose : close ")" (settleAll inner last) = some (.held frames (s.tree e)) := by
      rw [hsettle]
      rfl
    simp only [wrap, if_true, List.cons_append, List.append_assoc, List.nil_append]
    rw [read_group, hread, read_close (.inl rfl) hclose]

theorem read_index {e : Expr} (h : s.ReadsOpen e) (frames : List Frame) (object : OperatorTree)
    (rest : List Char) :
    g.read (.held frames object) ('[' :: (s.text e ++ ']' :: rest)) =
      g.read (.held frames (.index object (s.tree e))) rest := by
  have isOpen : s.Open (.subscript object :: frames) := fun op _ tree => rfl
  obtain ⟨inner, last, hread, hsettle⟩ :=
    h (.subscript object :: frames) (']' :: rest) (apart_cons (by decide)) isOpen
  have hclose : close "]" (settleAll inner last) =
      some (.held frames (.index object (s.tree e))) := by
    rw [hsettle]
    rfl
  rw [read_subscript, hread, read_close (.inr (.inl rfl)) hclose]

/-- The arguments of a call behind those that were read before. -/
theorem read_argumentText {e : Expr} {es : List Expr} (h : ∀ a ∈ e :: es, s.ReadsOpen a)
    (frames : List Frame) (callee : OperatorTree) (done : List OperatorTree) (rest : List Char) :
    g.read (.wanted (.arguments callee done :: frames)) (s.argumentText (e :: es) ++ ')' :: rest) =
      g.read (.held frames (.call callee (done ++ s.trees (e :: es)))) rest := by
  have isOpen : ∀ done, s.Open (.arguments callee done :: frames) := fun _ op _ tree => rfl
  -- On the arguments that are left: a comma moves the one in front of it to `done`.
  induction es generalizing e done with
  | nil =>
    obtain ⟨inner, last, hread, hsettle⟩ :=
      h e (by simp) (.arguments callee done :: frames) (')' :: rest) (apart_cons (by decide))
        (isOpen done)
    have hclose : close ")" (settleAll inner last) =
        some (.held frames (.call callee (done ++ [s.tree e]))) := by
      rw [hsettle]
      rfl
    rw [argumentText, hread, read_close (.inl rfl) hclose, trees, trees]
  | cons e' es ih =>
    obtain ⟨inner, last, hread, hsettle⟩ :=
      h e (by simp) (.arguments callee done :: frames)
        (',' :: ' ' :: (s.argumentText (e' :: es) ++ ')' :: rest)) (apart_cons (by decide))
        (isOpen done)
    have hclose : close "," (settleAll inner last) =
        some (.wanted (.arguments callee (done ++ [s.tree e]) :: frames)) := by
      rw [hsettle]
      rfl
    have split : s.argumentText (e :: e' :: es) ++ ')' :: rest =
        s.text e ++ ',' :: ' ' :: (s.argumentText (e' :: es) ++ ')' :: rest) := by
      simp [argumentText]
    rw [split, hread, read_close (.inr (.inr rfl)) hclose, read_blank,
      ih (fun a ha => h a (by simp [ha])) (done ++ [s.tree e])]
    simp [trees]

theorem read_call {args : List Expr} (h : ∀ a ∈ args, s.ReadsOpen a) (frames : List Frame)
    (callee : OperatorTree) (rest : List Char) :
    g.read (.held frames callee) ('(' :: (s.argumentText args ++ ')' :: rest)) =
      g.read (.held frames (.call callee (s.trees args))) rest := by
  rw [read_arguments]
  cases args with
  | nil => rw [argumentText, List.nil_append, read_noArguments, trees]
  | cons e es => rw [read_argumentText h, List.nil_append]

/-! ### Reading a formula -/

theorem isWordChar_of_isDigit {c : Char} (h : c.isDigit) : isWordChar c := by
  simp only [Char.isDigit, Bool.and_eq_true, decide_eq_true_eq, UInt32.le_iff_toNat_le] at h
  have low : ¬ c.toNat < 0x30 := Nat.not_lt.mpr h.1
  have high : c.toNat ≤ 0x39 := h.2
  have first : Text.alphanumericRanges = (0x30, 0x39) :: Text.alphanumericRanges.tail := rfl
  rw [isWordChar, Text.isAlphanumeric, first, Text.inRanges, if_neg low]
  simp [high]

theorem isWord_of_isNumeral {digits : String} (h : Expr.isNumeral digits) : isWord digits := by
  simp only [Expr.isNumeral, isWord, Bool.and_eq_true, List.all_eq_true] at h ⊢
  exact ⟨h.1, fun c hc => isWordChar_of_isDigit (h.2 c hc)⟩

theorem notMem_symbols_of_isNumeral {digits : String} (h : Expr.isNumeral digits) :
    digits ∉ g.symbols := by
  intro mem
  have symbol := isSymbol_of_mem mem
  simp only [Expr.isNumeral, isSymbol, Bool.and_eq_true, List.all_eq_true, Bool.not_eq_true',
    List.isEmpty_eq_false_iff] at h symbol
  obtain ⟨c, cs, hcs⟩ := List.exists_cons_of_ne_nil h.1
  have hc : c ∈ digits.toList := by simp [hcs]
  have digit := h.2 c hc
  rw [symbol.1.2 c hc] at digit
  cases digit

theorem readsClosed_member {object : Expr} {name : String} (ho : s.ReadsOpen object)
    (hc : object.isOperation = false → s.ReadsClosed object) (hn : s.isName name) :
    s.ReadsClosed (.member object name) := by
  intro frames rest hr
  simp only [text, tree, List.append_assoc, List.cons_append]
  rw [read_wrap ho hc (apart_cons (by decide)), read_member (s.isWord_of_isName name hn) hr]

theorem readsClosed_index {object i : Expr} (ho : s.ReadsOpen object)
    (hc : object.isOperation = false → s.ReadsClosed object) (hi : s.ReadsOpen i) :
    s.ReadsClosed (.index object i) := by
  intro frames rest hr
  simp only [text, tree, List.append_assoc, List.cons_append, List.nil_append]
  rw [read_wrap ho hc (apart_cons (by decide)), read_index hi]

theorem readsClosed_call {callee : Expr} {args : List Expr} (ho : s.ReadsOpen callee)
    (hc : callee.isOperation = false → s.ReadsClosed callee) (ha : ∀ a ∈ args, s.ReadsOpen a) :
    s.ReadsClosed (.call callee args) := by
  intro frames rest hr
  have unwrapped : s.wrapsCallee callee = false → s.ReadsClosed callee := by
    intro notWrapped
    refine hc (Bool.eq_false_iff.mpr fun operation => ?_)
    rw [s.wrapsCallee_of_isOperation callee operation] at notWrapped
    cases notWrapped
  simp only [text, tree, List.append_assoc, List.cons_append, List.nil_append]
  rw [read_wrap ho unwrapped (apart_cons (by decide)), read_call ha]

theorem readsOpen_binary {left right : Expr} {op : Token} (hop : op ∈ Token.operators)
    (lo : s.ReadsOpen left) (lc : left.isOperation = false → s.ReadsClosed left)
    (ro : s.ReadsOpen right) (rc : right.isOperation = false → s.ReadsClosed right) :
    s.ReadsOpen (.binary left op right) := by
  intro frames rest hr isOpen
  have mem : op ∈ Token.operators ++ Token.assignments := List.mem_append_left _ hop
  refine ⟨.operand (s.tree left) (s.between op) :: frames, s.tree right, ?_,
    by simp [tree, settleAll]⟩
  simp only [text, List.append_assoc, List.cons_append]
  rw [read_wrap lo lc (apart_cons (by decide)),
    read_operator (s.between_mem op mem) (s.between_isLexeme op mem) (isOpen op mem _),
    read_wrap ro rc hr]

/-- The right side of an assignment is read like the whole: nothing in it leaves its operand to the
assignment. -/
theorem readsOpen_assign {target value : Expr} {op : Token} (hop : op ∈ Token.assignments)
    (tc : s.ReadsClosed target) (vo : s.ReadsOpen value) :
    s.ReadsOpen (.assign target op value) := by
  intro frames rest hr isOpen
  have mem : op ∈ Token.operators ++ Token.assignments := List.mem_append_right _ hop
  have isOpen' : s.Open (.operand (s.tree target) (s.between op) :: frames) := by
    intro next hnext tree
    rw [settle, s.assignment_takesLeft op hop next hnext]
  obtain ⟨inner, last, hread, hsettle⟩ := vo _ rest hr isOpen'
  refine ⟨inner, last, ?_, by rw [hsettle]; simp [tree, settleAll]⟩
  simp only [text, List.append_assoc, List.cons_append]
  rw [tc frames _ (apart_cons (by decide)),
    read_operator (s.between_mem op mem) (s.between_isLexeme op mem) (isOpen op mem _), hread]

/-- The text starts with a word or a parenthesis. -/
def Starts (cs : List Char) : Prop :=
  ∃ c rest, cs = c :: rest ∧ (isWordChar c ∨ isBracket c)

theorem Starts.append {cs : List Char} (h : Starts cs) (more : List Char) :
    Starts (cs ++ more) := by
  obtain ⟨c, rest, rfl, hc⟩ := h
  exact ⟨c, rest ++ more, rfl, hc⟩

theorem starts_wrap {wrapped : Bool} {cs : List Char} (h : wrapped = false → Starts cs) :
    Starts (wrap wrapped cs) := by
  cases wrapped with
  | false => exact h rfl
  | true => exact ⟨'(', _, rfl, .inr (by decide)⟩

theorem starts_word {word : String} (h : isWord word) : Starts word.toList := by
  obtain ⟨c, cs, hcs, hc⟩ := exists_wordChar h
  exact ⟨c, cs, hcs, .inl hc⟩

theorem starts_text {e : Expr} (h : e.Formula s.isName) (he : e.isOperation = false) :
    Starts (s.text e) := by
  induction h with
  | number hd => exact starts_word (isWord_of_isNumeral hd)
  | ident hn => exact starts_word (s.isWord_of_isName _ hn)
  | member _ _ ih =>
    rw [text]
    exact (starts_wrap ih).append _
  | index _ _ ih _ =>
    rw [text]
    exact (starts_wrap ih).append _
  | call _ _ _ ih _ =>
    rw [text]
    refine (starts_wrap fun notWrapped => ih (Bool.eq_false_iff.mpr fun operation => ?_)).append _
    rw [s.wrapsCallee_of_isOperation _ operation] at notWrapped
    cases notWrapped
  | binary | unary | assign => cases he

theorem readsOpen_unary {op : Token} {operand : Expr} (hop : op ∈ Token.negations)
    (start : operand.isOperation = false → Starts (s.text operand)) (oo : s.ReadsOpen operand)
    (oc : operand.isOperation = false → s.ReadsClosed operand) :
    s.ReadsOpen (.unary op operand false) := by
  intro frames rest hr _
  refine ⟨.leading (s.front op) :: frames, s.tree operand, ?_, by simp [tree, settleAll]⟩
  obtain ⟨c, cs, hcs, hc⟩ := starts_wrap start
  simp only [text, List.append_assoc]
  rw [← read_wrap oo oc hr, hcs]
  exact read_leading (s.front_mem op hop) (s.front_isLexeme op hop) (s.front_isWordChar op hop) hc _

/-- The machine reads the text of a formula as its tree. -/
theorem readsOpen_of_formula {e : Expr} (h : e.Formula s.isName) :
    s.ReadsOpen e ∧ (e.isOperation = false → s.ReadsClosed e) := by
  have closed : ∀ {e : Expr}, s.ReadsClosed e →
      s.ReadsOpen e ∧ (e.isOperation = false → s.ReadsClosed e) :=
    fun h => ⟨h.readsOpen, fun _ => h⟩
  -- An operand that is an operation stands between parentheses, where it is enough to read it
  -- openly. Only the other operands have to hold whatever waits outside.
  induction h with
  | number hd =>
    apply closed
    intro frames rest hr
    rw [text, tree, read_word (isWord_of_isNumeral hd) (notMem_symbols_of_isNumeral hd) hr]
  | ident hn =>
    apply closed
    intro frames rest hr
    rw [text, tree, read_word (s.isWord_of_isName _ hn) (s.notMem_of_isName _ hn) hr]
  | member _ hn ih => exact closed (readsClosed_member ih.1 ih.2 hn)
  | index _ _ iho ihi => exact closed (readsClosed_index iho.1 iho.2 ihi.1)
  | call _ _ _ ihc iha => exact closed (readsClosed_call ihc.1 ihc.2 fun a ha => (iha a ha).1)
  | binary _ hop _ ihl ihr =>
    exact ⟨readsOpen_binary hop ihl.1 ihl.2 ihr.1 ihr.2, fun h => by cases h⟩
  | unary hop ho ih =>
    exact ⟨readsOpen_unary hop (starts_text ho) ih.1 ih.2, fun h => by cases h⟩
  | assign ht _ hop _ iht ihv =>
    have notOperation := Expr.isOperation_eq_false_of_isPlace ht
    exact ⟨readsOpen_assign hop (iht.2 notOperation) ihv.1, fun h => by cases h⟩

/-- The text of a formula is parsed as the formula. -/
theorem parse_text {e : Expr} (h : e.Formula s.isName) :
    g.parse (String.ofList (s.text e)) = some (s.tree e) := by
  -- Nothing waits in front of the text, and nothing follows it.
  have isOpen : s.Open [] := fun op _ tree => rfl
  have atEnd : Apart [] := by
    intro c hc
    cases hc
  obtain ⟨inner, last, hread, hsettle⟩ := (readsOpen_of_formula h).1 [] [] atEnd isOpen
  rw [List.append_nil] at hread
  rw [parse, String.toList_ofList, hread]
  simp only [OperatorGrammar.read, lex, lexFrom, run, State.result?, hsettle, settleAll]

end FormulaSpelling

end SourceGen
