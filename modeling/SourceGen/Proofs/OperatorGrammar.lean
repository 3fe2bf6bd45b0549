import SourceGen.Text.Alphanumeric

/-!
# Operator grammars

How a target language groups the operands of an expression: the operators stand in rows from the
weakest to the strongest, and the operators of a row share a side to which they associate. An
expression is cut into lexemes, always the longest ones, and a machine with a stack of open
constructs reads them from left to right. Only operators, accesses, calls and parentheses are part
of such a grammar; argument lists of types, casts and closures are not.

## Main definitions

* `OperatorTree`: what an expression is read as.
* `OperatorGrammar`: the operators of a language.
* `OperatorGrammar.lex`: the lexemes of a text.
* `OperatorGrammar.step`, `OperatorGrammar.run`: the machine.
* `OperatorGrammar.parse`: the tree of a text.

## Main results

* `OperatorGrammar.lex_append`: a lexeme in front of something that does not continue it.
* `OperatorGrammar.read_word`, `OperatorGrammar.read_operator`, …: what the machine does with a text
  that starts with one construct.
-/

namespace SourceGen

/-- An expression as its grammar sees it. Operators are told apart by their spelling, and
parentheses leave no trace. -/
inductive OperatorTree where
  | leaf (word : String)
  | member (object : OperatorTree) (name : String)
  | index (object i : OperatorTree)
  /-- Two operands with an operator between them, assignments included. -/
  | operation (left : OperatorTree) (op : String) (right : OperatorTree)
  | leading (op : String) (operand : OperatorTree)
  | call (callee : OperatorTree) (args : List OperatorTree)

/-- The operand that an operator shares with a neighbour of the same strength belongs to the
operator on this side. -/
inductive Side where
  | left | right
  /-- Neighbours of the same strength need parentheses. -/
  | neither
  deriving DecidableEq, Repr

/-- Operators of the same strength. -/
structure OperatorRow where
  operators : List String
  side : Side

/-- The character can stand in a name or a number. -/
def isWordChar (c : Char) : Bool :=
  Text.isAlphanumeric c || c == '_'

/-- The text is a name or a number. -/
def isWord (word : String) : Bool :=
  !word.toList.isEmpty && word.toList.all isWordChar

/-- The character is a lexeme of its own. -/
def isBracket (c : Char) : Bool :=
  ['(', ')', '[', ']', ','].contains c

/-- The text can be an operator: a word without digits, or a sequence of other characters without
brackets. A dot alone belongs to the access of a member. -/
def isSymbol (text : String) : Bool :=
  text != "." && text.toList.all (fun c => !c.isDigit) &&
    (isWord text || text.toList.all fun c => !isWordChar c && !isBracket c && c != ' ')

/-- The operators of a language. -/
structure OperatorGrammar where
  /-- From the weakest to the strongest. -/
  rows : List OperatorRow
  /-- The operators in front of an operand; they are stronger than all rows. -/
  leading : List String
  /-- The other symbols, which matter to where a lexeme ends. -/
  others : List String
  areSymbols : (rows.flatMap (·.operators) ++ leading ++ others).all isSymbol = true

namespace OperatorGrammar

variable (g : OperatorGrammar)

/-- The operators between two operands. -/
def operators : List String :=
  g.rows.flatMap (·.operators)

/-- The strength of an operator. -/
def level (op : String) : Nat :=
  g.rows.findIdx (·.operators.contains op)

/-- The side to which an operator associates. -/
def side (op : String) : Side :=
  ((g.rows.find? (·.operators.contains op)).map (·.side)).getD .neither

/-- The operand between `first` and `second` belongs to `first`; without an answer the two need
parentheses. -/
def takesLeft (first second : String) : Option Bool :=
  if g.level second < g.level first then some true
  else if g.level first < g.level second then some false
  else
    match g.side first with
    | .left => some true
    | .right => some false
    | .neither => none

/-! ### Lexemes -/

/-- All symbols of the language. -/
def symbols : List String :=
  g.operators ++ g.leading ++ g.others

/-- The character continues the lexeme that starts with `pending`. -/
def joins (pending : List Char) (c : Char) : Bool :=
  (pending.all isWordChar && isWordChar c) ||
    g.symbols.any fun symbol => (pending ++ [c]).isPrefixOf symbol.toList

/-- The lexemes of a text behind the start of a lexeme. -/
def lexFrom : List Char → List Char → List String
  | [], [] => []
  | pending, [] => [String.ofList pending]
  | [], c :: cs => if c = ' ' then lexFrom [] cs else lexFrom [c] cs
  | pending, c :: cs =>
    -- It ends at a blank, or where no longer lexeme starts like it.
    if c = ' ' then String.ofList pending :: lexFrom [] cs
    else if g.joins pending c then lexFrom (pending ++ [c]) cs
    else String.ofList pending :: lexFrom [c] cs

/-- The lexemes of a text. -/
def lex (cs : List Char) : List String :=
  g.lexFrom [] cs

/-! ### The machine -/

/-- A construct that is still open. -/
inductive Frame where
  /-- An operator that waits for its right operand. -/
  | operand (left : OperatorTree) (op : String)
  | leading (op : String)
  | group
  | subscript (object : OperatorTree)
  | arguments (callee : OperatorTree) (done : List OperatorTree)

/-- What the machine does next, with the open constructs, the innermost first. -/
inductive State where
  /-- An operand has to follow. -/
  | wanted (frames : List Frame)
  /-- An operand was read. -/
  | held (frames : List Frame) (tree : OperatorTree)
  /-- The name of a member has to follow. -/
  | dotted (frames : List Frame) (object : OperatorTree)

/-- Gives an operand to the waiting operators that are strong enough, in front of another
operator. -/
def settle (op : String) : List Frame → OperatorTree → Option (List Frame × OperatorTree)
  | .operand left first :: frames, tree =>
    match g.takesLeft first op with
    | some true => settle op frames (.operation left first tree)
    | some false => some (.operand left first :: frames, tree)
    | none => none
  -- An operator in front is stronger than any between two operands.
  | .leading first :: frames, tree => settle op frames (.leading first tree)
  | frames, tree => some (frames, tree)

/-- Gives an operand to all waiting operators, in front of the end of a construct. -/
def settleAll : List Frame → OperatorTree → List Frame × OperatorTree
  | .operand left op :: frames, tree => settleAll frames (.operation left op tree)
  | .leading op :: frames, tree => settleAll frames (.leading op tree)
  | frames, tree => (frames, tree)

/-- Ends a construct with a bracket or a comma. -/
def close (lexeme : String) : List Frame × OperatorTree → Option State
  | (.group :: frames, tree) => if lexeme = ")" then some (.held frames tree) else none
  | (.subscript object :: frames, tree) =>
    if lexeme = "]" then some (.held frames (.index object tree)) else none
  | (.arguments callee done :: frames, tree) =>
    if lexeme = ")" then some (.held frames (.call callee (done ++ [tree])))
    else if lexeme = "," then some (.wanted (.arguments callee (done ++ [tree]) :: frames))
    else none
  | _ => none

/-- Ends a call without arguments. -/
def closeEmpty (lexeme : String) : List Frame → Option State
  | .arguments callee [] :: frames =>
    if lexeme = ")" then some (.held frames (.call callee [])) else none
  | _ => none

/-- Reads one lexeme. What stands left of an assignment is not restricted. -/
def step : State → String → Option State
  | .wanted frames, lexeme =>
    -- Where an operand has to follow, a sign is never an operator between two.
    if lexeme = "(" then some (.wanted (.group :: frames))
    else if lexeme ∈ g.leading then some (.wanted (.leading lexeme :: frames))
    else if isWord lexeme ∧ lexeme ∉ g.operators then some (.held frames (.leaf lexeme))
    else closeEmpty lexeme frames
  | .held frames tree, lexeme =>
    if lexeme = "." then some (.dotted frames tree)
    else if lexeme = "[" then some (.wanted (.subscript tree :: frames))
    else if lexeme = "(" then some (.wanted (.arguments tree [] :: frames))
    else if lexeme ∈ g.operators then
      (g.settle lexeme frames tree).map fun (outer, left) => .wanted (.operand left lexeme :: outer)
    else close lexeme (settleAll frames tree)
  | .dotted frames object, lexeme =>
    if isWord lexeme then some (.held frames (.member object lexeme)) else none

/-- The tree of a text that ends in this state. -/
def State.result? : State → Option OperatorTree
  | .held frames tree =>
    match settleAll frames tree with
    | ([], whole) => some whole
    | _ => none
  | _ => none

/-- Reads lexemes from a state on. -/
def run (state : State) : List String → Option OperatorTree
  | [] => state.result?
  | lexeme :: lexemes => (g.step state lexeme).bind fun next => run next lexemes

/-- Reads a text from a state on. -/
def read (state : State) (cs : List Char) : Option OperatorTree :=
  g.run state (g.lex cs)

/-- The tree of an expression. -/
def parse (text : String) : Option OperatorTree :=
  g.read (.wanted []) text.toList

/-! ### Where a lexeme ends -/

attribute [local simp] lexFrom settle settleAll close closeEmpty step run

variable {g}

theorem isWordChar_eq_false_of_isBracket {c : Char} (h : isBracket c) : isWordChar c = false := by
  simp only [isBracket, List.contains_iff_mem, List.mem_cons, List.not_mem_nil, or_false] at h
  rcases h with rfl | rfl | rfl | rfl | rfl <;> decide

theorem isBracket_eq_false_of_isWordChar {c : Char} (h : isWordChar c) : isBracket c = false := by
  rw [Bool.eq_false_iff]
  intro bracket
  rw [isWordChar_eq_false_of_isBracket bracket] at h
  cases h

theorem isSymbol_of_mem {symbol : String} (h : symbol ∈ g.symbols) : isSymbol symbol :=
  List.all_eq_true.mp g.areSymbols symbol h

/-- The characters of a symbol are all of one class, and none is a bracket. -/
theorem symbol_chars {symbol : String} (h : symbol ∈ g.symbols) {a c : Char}
    (ha : a ∈ symbol.toList) (hc : c ∈ symbol.toList) :
    isWordChar a = isWordChar c ∧ isBracket c = false := by
  have hs := isSymbol_of_mem h
  simp only [isSymbol, isWord, Bool.or_eq_true, Bool.and_eq_true, List.all_eq_true,
    Bool.not_eq_true'] at hs
  rcases hs.2 with ⟨-, word⟩ | other
  · exact ⟨by rw [word a ha, word c hc], isBracket_eq_false_of_isWordChar (word c hc)⟩
  · exact ⟨by rw [(other a ha).1.1, (other c hc).1.1], (other c hc).1.2⟩

/-- A character only continues characters of its own class, and a bracket continues nothing. -/
theorem class_of_joins {pending : List Char} {c : Char} (h : g.joins pending c) {a : Char}
    (ha : a ∈ pending) :
    isWordChar a = isWordChar c ∧ isBracket a = false ∧ isBracket c = false := by
  simp only [joins, Bool.or_eq_true, Bool.and_eq_true, List.all_eq_true, List.any_eq_true,
    List.isPrefixOf_iff_prefix] at h
  rcases h with ⟨all, hc⟩ | ⟨symbol, hs, start⟩
  · exact ⟨by rw [all a ha, hc], isBracket_eq_false_of_isWordChar (all a ha),
      isBracket_eq_false_of_isWordChar hc⟩
  · have ha' : a ∈ symbol.toList := start.subset (List.mem_append_left _ ha)
    have hc' : c ∈ symbol.toList := start.subset (by simp)
    exact ⟨(symbol_chars hs ha' hc').1, (symbol_chars hs ha' ha').2, (symbol_chars hs ha' hc').2⟩

variable (g) in
/-- The text continues the lexeme that starts with `pending`, to its own end. -/
def continues : List Char → List Char → Bool
  | _, [] => true
  | pending, c :: cs => c != ' ' && g.joins pending c && continues (pending ++ [c]) cs

variable (g) in
/-- The text is one lexeme, unless something continues it. -/
def isLexeme : List Char → Bool
  | [] => false
  | c :: cs => c != ' ' && g.continues [c] cs

variable (g) in
/-- The lexeme ends in front of the text. -/
def Ends (lexeme rest : List Char) : Prop :=
  ∀ c ∈ rest.head?, c = ' ' ∨ g.joins lexeme c = false

theorem lexFrom_append {pending s rest : List Char} (hp : pending ≠ [])
    (h : g.continues pending s) :
    g.lexFrom pending (s ++ rest) = g.lexFrom (pending ++ s) rest := by
  induction s generalizing pending with
  | nil => simp
  | cons c cs ih =>
    simp only [continues, Bool.and_eq_true, bne_iff_ne, ne_eq] at h
    obtain ⟨⟨notBlank, joined⟩, more⟩ := h
    obtain ⟨p, ps, rfl⟩ := List.exists_cons_of_ne_nil hp
    rw [List.cons_append, lexFrom, if_neg notBlank, if_pos joined, ih (by simp) more]
    · simp
    · simp

theorem lexFrom_of_ends {pending rest : List Char} (hp : pending ≠ []) (h : g.Ends pending rest) :
    g.lexFrom pending rest = String.ofList pending :: g.lexFrom [] rest := by
  obtain ⟨p, ps, rfl⟩ := List.exists_cons_of_ne_nil hp
  cases rest with
  | nil => simp [lexFrom]
  | cons c cs =>
    by_cases blank : c = ' '
    · simp [lexFrom, blank]
    · have apart : g.joins (p :: ps) c = false := (h c (by simp)).resolve_left blank
      simp [lexFrom, blank, apart]

/-- A lexeme in front of something that does not continue it. -/
theorem lex_append {s rest : List Char} (hs : g.isLexeme s) (h : g.Ends s rest) :
    g.lex (s ++ rest) = String.ofList s :: g.lex rest := by
  cases s with
  | nil => cases hs
  | cons c cs =>
    simp only [isLexeme, Bool.and_eq_true, bne_iff_ne, ne_eq] at hs
    rw [lex, List.cons_append, lexFrom, if_neg hs.1, lexFrom_append (by simp) hs.2]
    exact lexFrom_of_ends (by simp) h

theorem lex_blank (rest : List Char) : g.lex (' ' :: rest) = g.lex rest := by
  simp [lex, lexFrom]

theorem exists_wordChar {word : String} (h : isWord word) :
    ∃ c cs, word.toList = c :: cs ∧ isWordChar c := by
  simp only [isWord, Bool.and_eq_true, List.all_eq_true, Bool.not_eq_true',
    List.isEmpty_eq_false_iff] at h
  obtain ⟨c, cs, hcs⟩ := List.exists_cons_of_ne_nil h.1
  exact ⟨c, cs, hcs, h.2 c (by simp [hcs])⟩

/-- A text whose first character, if any, cannot stand in a word. -/
def Apart (rest : List Char) : Prop :=
  ∀ c ∈ rest.head?, isWordChar c = false

theorem apart_cons {c : Char} {cs : List Char} (h : isWordChar c = false) : Apart (c :: cs) := by
  intro d hd
  cases hd
  exact h

theorem continues_word {pending s : List Char} (hp : ∀ c ∈ pending, isWordChar c = true)
    (hs : ∀ c ∈ s, isWordChar c = true) : g.continues pending s := by
  induction s generalizing pending with
  | nil => rfl
  | cons c cs ih =>
    have hc : isWordChar c = true := hs c (by simp)
    have notBlank : c ≠ ' ' := by
      rintro rfl
      revert hc
      decide
    have joined : g.joins pending c = true := by
      simp only [joins, Bool.or_eq_true, Bool.and_eq_true, List.all_eq_true]
      exact .inl ⟨hp, hc⟩
    simp only [continues, Bool.and_eq_true, bne_iff_ne, ne_eq]
    refine ⟨⟨notBlank, joined⟩, ih ?_ fun d hd => hs d (by simp [hd])⟩
    intro d hd
    rcases List.mem_append.mp hd with hd | hd
    · exact hp d hd
    · rw [List.mem_singleton.mp hd]
      exact hc

theorem isLexeme_word {word : String} (h : isWord word) : g.isLexeme word.toList := by
  simp only [isWord, Bool.and_eq_true, List.all_eq_true, Bool.not_eq_true',
    List.isEmpty_eq_false_iff] at h
  obtain ⟨c, cs, hcs⟩ := List.exists_cons_of_ne_nil h.1
  rw [hcs]
  have all : ∀ d ∈ c :: cs, isWordChar d = true := hcs ▸ h.2
  have notBlank : c ≠ ' ' := by
    intro blank
    have := all c (by simp)
    rw [blank] at this
    revert this
    decide
  simp only [isLexeme, Bool.and_eq_true, bne_iff_ne, ne_eq]
  refine ⟨notBlank, continues_word ?_ fun d hd => all d (by simp [hd])⟩
  intro d hd
  exact all d (by simp_all)

/-- A word ends where no character of a word follows. -/
theorem ends_word {word : String} (h : isWord word) {rest : List Char} (hr : Apart rest) :
    g.Ends word.toList rest := by
  intro c hc
  refine .inr (Bool.eq_false_iff.mpr fun joined => ?_)
  simp only [isWord, Bool.and_eq_true, List.all_eq_true, Bool.not_eq_true',
    List.isEmpty_eq_false_iff] at h
  -- What joins a word is of its class, and what follows here is not.
  obtain ⟨a, as, has⟩ := List.exists_cons_of_ne_nil h.1
  have ha : a ∈ word.toList := by simp [has]
  have same := (class_of_joins joined ha).1
  rw [h.2 a ha, hr c hc] at same
  cases same

theorem lex_word {word : String} (h : isWord word) {rest : List Char} (hr : Apart rest) :
    g.lex (word.toList ++ rest) = word :: g.lex rest := by
  rw [lex_append (isLexeme_word h) (ends_word h hr), String.ofList_toList]

theorem lex_bracket {c : Char} (h : isBracket c) (rest : List Char) :
    g.lex (c :: rest) = String.ofList [c] :: g.lex rest := by
  have notBlank : c ≠ ' ' := by
    rintro rfl
    revert h
    decide
  refine lex_append (s := [c]) (by simp [isLexeme, continues, notBlank]) fun d _ =>
    .inr (Bool.eq_false_iff.mpr fun joined => ?_)
  have := (class_of_joins joined (List.mem_singleton_self c)).2.1
  rw [h] at this
  cases this

/-- An operator in front of a word or an opening parenthesis. -/
theorem lex_leading {op : String} (hop : g.isLexeme op.toList)
    (hs : ∀ c ∈ op.toList, isWordChar c = false) {c : Char} (hc : isWordChar c ∨ isBracket c)
    (rest : List Char) : g.lex (op.toList ++ c :: rest) = op :: g.lex (c :: rest) := by
  rw [lex_append hop, String.ofList_toList]
  intro d hd
  cases hd
  refine .inr (Bool.eq_false_iff.mpr fun joined => ?_)
  cases hlist : op.toList with
  | nil =>
    rw [hlist] at hop
    cases hop
  | cons a as =>
    have ha : a ∈ op.toList := by simp [hlist]
    obtain ⟨same, -, noBracket⟩ := class_of_joins joined ha
    -- A word is of another class than the operator, and a bracket joins nothing.
    rcases hc with word | bracket
    · rw [hs a ha, word] at same
      cases same
    · rw [bracket] at noBracket
      cases noBracket

theorem bracket_notMem_symbols {c : Char} (h : isBracket c) : String.ofList [c] ∉ g.symbols := by
  intro mem
  have := (symbol_chars mem (a := c) (c := c) (by simp) (by simp)).2
  rw [h] at this
  cases this

/-! ### What the machine does with a construct -/

theorem read_blank (state : State) (rest : List Char) :
    g.read state (' ' :: rest) = g.read state rest := by
  rw [read, lex_blank, read]

/-- A word that is no operator is an operand. -/
theorem read_word {frames : List Frame} {word : String} (h : isWord word) (hs : word ∉ g.symbols)
    {rest : List Char} (hr : Apart rest) :
    g.read (.wanted frames) (word.toList ++ rest) = g.read (.held frames (.leaf word)) rest := by
  simp only [symbols, List.mem_append, not_or] at hs
  have notOpening : word ≠ "(" := by
    rintro rfl
    revert h
    decide
  rw [read, lex_word h hr, run, step, if_neg notOpening, if_neg hs.1.2, if_pos ⟨h, hs.1.1⟩]
  rfl

theorem read_member {frames : List Frame} {object : OperatorTree} {name : String} (h : isWord name)
    {rest : List Char} (hr : Apart rest) :
    g.read (.held frames object) ('.' :: (name.toList ++ rest)) =
      g.read (.held frames (.member object name)) rest := by
  have dot : g.lex ('.' :: (name.toList ++ rest)) = "." :: g.lex (name.toList ++ rest) := by
    obtain ⟨c, cs, hcs, hc⟩ := exists_wordChar h
    have noWord : ∀ d ∈ ".".toList, isWordChar d = false := by
      intro d hd
      obtain rfl : d = '.' := by simpa using hd
      decide
    rw [hcs]
    exact @lex_leading g "." (by simp [isLexeme, continues]) noWord c (.inl hc) _
  rw [read, dot, lex_word h hr, run, step, if_pos rfl, Option.bind_some, run, step, if_pos h]
  rfl

theorem read_group (frames : List Frame) (rest : List Char) :
    g.read (.wanted frames) ('(' :: rest) = g.read (.wanted (.group :: frames)) rest := by
  rw [read, lex_bracket (by decide), run, step, if_pos (by decide)]
  rfl

theorem read_subscript (frames : List Frame) (object : OperatorTree) (rest : List Char) :
    g.read (.held frames object) ('[' :: rest) =
      g.read (.wanted (.subscript object :: frames)) rest := by
  rw [read, lex_bracket (by decide), run, step, if_neg (by decide), if_pos (by decide)]
  rfl

theorem read_arguments (frames : List Frame) (callee : OperatorTree) (rest : List Char) :
    g.read (.held frames callee) ('(' :: rest) =
      g.read (.wanted (.arguments callee [] :: frames)) rest := by
  rw [read, lex_bracket (by decide), run, step, if_neg (by decide), if_neg (by decide),
    if_pos (by decide)]
  rfl

theorem read_noArguments (frames : List Frame) (callee : OperatorTree) (rest : List Char) :
    g.read (.wanted (.arguments callee [] :: frames)) (')' :: rest) =
      g.read (.held frames (.call callee [])) rest := by
  have notSymbol : ")" ∉ g.symbols := bracket_notMem_symbols (c := ')') (by decide)
  simp only [symbols, List.mem_append, not_or] at notSymbol
  rw [read, lex_bracket (by decide), run, step, if_neg (by decide), if_neg notSymbol.1.2,
    if_neg (fun word => absurd word.1 (by decide)), closeEmpty, if_pos (by decide)]
  rfl

/-- A closing bracket or a comma ends the innermost construct that is not an operator. -/
theorem read_close {frames : List Frame} {tree : OperatorTree} {c : Char}
    (hc : c = ')' ∨ c = ']' ∨ c = ',') {next : State}
    (h : close (String.ofList [c]) (settleAll frames tree) = some next) (rest : List Char) :
    g.read (.held frames tree) (c :: rest) = g.read next rest := by
  have bracket : isBracket c := by
    rcases hc with rfl | rfl | rfl <;> decide
  have notSymbol := bracket_notMem_symbols (g := g) bracket
  simp only [symbols, List.mem_append, not_or] at notSymbol
  have others : String.ofList [c] ≠ "." ∧ String.ofList [c] ≠ "[" ∧ String.ofList [c] ≠ "(" := by
    rcases hc with rfl | rfl | rfl <;> decide
  rw [read, lex_bracket bracket, run, step, if_neg others.1, if_neg others.2.1, if_neg others.2.2,
    if_neg notSymbol.1.1, h]
  rfl

/-- An operator between blanks waits for its right operand. Its left operand is what the operators
that wait there make of the operand in front of it. -/
theorem read_operator {frames outer : List Frame} {tree left : OperatorTree} {op : String}
    (hop : op ∈ g.operators) (hl : g.isLexeme op.toList)
    (hs : g.settle op frames tree = some (outer, left)) (rest : List Char) :
    g.read (.held frames tree) (' ' :: (op.toList ++ ' ' :: rest)) =
      g.read (.wanted (.operand left op :: outer)) rest := by
  have notOpening : op ≠ "[" ∧ op ≠ "(" := by
    have mem : op ∈ g.symbols := by simp [symbols, hop]
    constructor
    · rintro rfl
      exact bracket_notMem_symbols (c := '[') (by decide) mem
    · rintro rfl
      exact bracket_notMem_symbols (c := '(') (by decide) mem
  have notDot : op ≠ "." := by
    rintro rfl
    have symbol : isSymbol "." := isSymbol_of_mem (g := g) (by simp [symbols, hop])
    revert symbol
    decide
  rw [read_blank, read, lex_append hl (by intro c hc; cases hc; exact .inl rfl),
    String.ofList_toList, lex_blank, run, step, if_neg notDot, if_neg notOpening.1,
    if_neg notOpening.2, if_pos hop, hs]
  rfl

theorem read_leading {frames : List Frame} {op : String} (hop : op ∈ g.leading)
    (hl : g.isLexeme op.toList) (hs : ∀ c ∈ op.toList, isWordChar c = false) {c : Char}
    (hc : isWordChar c ∨ isBracket c) (rest : List Char) :
    g.read (.wanted frames) (op.toList ++ c :: rest) =
      g.read (.wanted (.leading op :: frames)) (c :: rest) := by
  have notOpening : op ≠ "(" := by
    rintro rfl
    exact bracket_notMem_symbols (g := g) (c := '(') (by decide) (by simp [symbols, hop])
  rw [read, lex_leading hl hs hc, run, step, if_neg notOpening, if_pos hop]
  rfl

end OperatorGrammar

end SourceGen
