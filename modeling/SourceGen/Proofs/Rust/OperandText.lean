import Mathlib.Data.List.Forall2
import SourceGen.Proofs.OperatorGrouping

/-!
# Operands in Rust

The operator grammar of Rust reads words, operators, accesses and calls. A path, a raw identifier,
the name of a macro, a string and a block are made of more than that, but no operator in them has
an operand outside, so each of them counts as one word. Texts are read with such words in the place
of what they stand for.

## Main definitions

* `Rust.Context`, `Rust.asWords`: the text with words for everything that counts as one.
* `Rust.parse`: the tree of an expression.
* `Rust.CountsAs`: the text counts as a word.
* `Rust.Operand`, `Rust.Ending`: what the machine makes of the text of an expression.

## Main results

* `Rust.operand_group`, `Rust.operand_call`, …, `Rust.Ending.operation`: texts that are put together
  from the texts of operands.
* `Rust.Reads.parse`: such a text is parsed as its tree.
-/

namespace SourceGen

namespace Rust

open OperatorGrammar (Frame State settleAll isLexeme Apart)
open FormulaSpelling (Starts)

/-! ### Words for compounds -/

/-- What a character stands in. -/
inductive Context
  /-- Code, and whether a word ends in front of the character. -/
  | code (afterWord : Bool)
  | quote
  /-- A block, with `depth` further blocks around the character, and whether a string as well. -/
  | block (depth : Nat) (quoted : Bool)
  deriving DecidableEq

namespace Context

/-- The character belongs to something that counts as a word. -/
def isCompound : Context → Char → Bool
  -- Behind a word, an exclamation mark makes it the name of a macro.
  | code afterWord, c => ['"', '\x7b', ':', '#'].contains c || (c == '!' && afterWord)
  | _, _ => true

/-- The character that is read in place of this one. -/
def shown (context : Context) (c : Char) : Char :=
  if context.isCompound c then '_' else c

/-- What the next character stands in. -/
def next : Context → Char → Context
  | code afterWord, c =>
    if c = '"' then quote
    else if c = '\x7b' then block 0 false
    else code (isWordChar ((code afterWord).shown c))
  | quote, c => if c = '"' then code true else quote
  | block depth true, c => block depth (c ≠ '"')
  | block depth false, c =>
    if c = '"' then block depth true
    else if c = '\x7b' then block (depth + 1) false
    else if c = '\x7d' then
      match depth with
      | 0 => code true
      | outer + 1 => block outer false
    else block depth false

end Context

/-- The text with words for everything that counts as one. Strings have no escapes here. -/
def asWords : Context → List Char → List Char
  | _, [] => []
  | context, c :: cs => context.shown c :: asWords (context.next c) cs

/-- The tree of an expression. -/
def parse (text : String) : Option OperatorTree :=
  operatorGrammar.read (.wanted []) (asWords (.code false) text.toList)

example : parse "a::b(r#as[1], \x7b x + 1 \x7d) - !m!(\"()\")" =
    some (.operation
      (.call (.leaf "a__b") [.index (.leaf "r_as") (.leaf "1"), .leaf "_________"]) "-"
      (.leading "!" (.call (.leaf "m_") [.leaf "____"]))) := by
  rfl

/-- From one context on, the text is read as another one, and ends in front of the other context. -/
structure Spans (first : Context) (cs read : List Char) (last : Context) : Prop where
  asWords_eq : asWords first cs = read
  foldl_eq : cs.foldl Context.next first = last

/-- Reading a text is reading its parts, each in the context the one before it ends in. -/
theorem asWords_append (context : Context) (cs rest : List Char) :
    asWords context (cs ++ rest) =
      asWords context cs ++ asWords (cs.foldl Context.next context) rest := by
  induction cs generalizing context with
  | nil => rfl
  | cons c cs ih => simp [asWords, ih]

/-- Two stretches of text in a row span from the first context to the last. -/
theorem Spans.append {first middle last : Context} {cs ds read read' : List Char}
    (h : Spans first cs read middle) (h' : Spans middle ds read' last) :
    Spans first (cs ++ ds) (read ++ read') last where
  asWords_eq := by rw [asWords_append, h.asWords_eq, h.foldl_eq, h'.asWords_eq]
  foldl_eq := by rw [List.foldl_append, h.foldl_eq, h'.foldl_eq]

theorem Spans.of_eq {first last : Context} {cs read read' : List Char}
    (h : Spans first cs read last) (same : read = read') : Spans first cs read' last :=
  same ▸ h

theorem Spans.asWords_append {first last : Context} {cs read : List Char}
    (h : Spans first cs read last) (rest : List Char) :
    asWords first (cs ++ rest) = read ++ asWords last rest := by
  rw [Rust.asWords_append, h.asWords_eq, h.foldl_eq]

/-- Every block and string that the text opens ends in it, so a block around it goes on. -/
def Balanced (cs : List Char) : Prop :=
  ∀ depth, Spans (.block depth false) cs (List.replicate cs.length '_') (.block depth false)

/-- Balanced texts in a row are balanced. -/
theorem Balanced.append {cs ds : List Char} (h : Balanced cs) (h' : Balanced ds) :
    Balanced (cs ++ ds) := by
  intro depth
  have both := (h depth).append (h' depth)
  rwa [List.replicate_append_replicate, ← List.length_append] at both

/-- The character neither starts nor ends a string or a block. -/
def isNeutral (c : Char) : Bool :=
  c != '"' && c != '\x7b' && c != '\x7d'

theorem Balanced.cons {c : Char} {cs : List Char} (h : Balanced cs) (hc : isNeutral c) :
    Balanced (c :: cs) := by
  intro depth
  simp only [isNeutral, Bool.and_eq_true, bne_iff_ne] at hc
  have same : (Context.block depth false).next c = .block depth false := by
    simp [Context.next, hc]
  exact ⟨by rw [asWords, same, (h depth).asWords_eq]; rfl, by
    rw [List.foldl_cons, same, (h depth).foldl_eq]⟩

/-- A text of neutral characters is balanced. -/
theorem balanced_of_all {cs : List Char} (h : cs.all isNeutral) : Balanced cs := by
  induction cs with
  | nil => exact fun _ => ⟨rfl, rfl⟩
  | cons c cs ih =>
    simp only [List.all_cons, Bool.and_eq_true] at h
    exact (ih h.2).cons h.1

/-- A balanced text may be put between neutral characters. -/
theorem Balanced.enclosed {c d : Char} {cs : List Char} (h : Balanced cs) (hc : isNeutral c)
    (hd : isNeutral d) : Balanced (c :: (cs ++ [d])) := by
  have last : Balanced [d] := balanced_of_all (by simp [hd])
  exact (h.append last).cons hc

/-- The inside of a string, up to its closing quote. -/
theorem spans_quoted {cs : List Char} (h : '"' ∉ cs) :
    Spans .quote (cs ++ ['"']) (List.replicate (cs.length + 1) '_') (.code true) ∧
    ∀ depth, Spans (.block depth true) (cs ++ ['"']) (List.replicate (cs.length + 1) '_')
      (.block depth false) := by
  induction cs with
  | nil => exact ⟨⟨rfl, rfl⟩, fun _ => ⟨rfl, rfl⟩⟩
  | cons c cs ih =>
    have notQuote : c ≠ '"' := fun same => h (by simp [same])
    obtain ⟨code, block⟩ := ih fun mem => h (by simp [mem])
    have inCode : Context.quote.next c = .quote := by simp [Context.next, notQuote]
    have inBlock : ∀ depth, (Context.block depth true).next c = .block depth true := by
      simp [Context.next, notQuote]
    refine ⟨⟨?_, ?_⟩, fun depth => ⟨?_, ?_⟩⟩
    · rw [List.cons_append, asWords, inCode, code.asWords_eq]
      rfl
    · rw [List.cons_append, List.foldl_cons, inCode, code.foldl_eq]
    · rw [List.cons_append, asWords, inBlock, (block depth).asWords_eq]
      rfl
    · rw [List.cons_append, List.foldl_cons, inBlock, (block depth).foldl_eq]

/-! ### What counts as a word -/

/-- The text spells the word, wherever it stands. -/
structure Spells (cs : List Char) (word : String) : Prop where
  spans : ∀ afterWord, Spans (.code afterWord) cs word.toList (.code true)
  balanced : Balanced cs
  isWord : isWord word

/-- The text counts as a word that is no symbol. The only word among the symbols is `as`. -/
structure CountsAs (cs : List Char) (word : String) : Prop extends Spells cs word where
  ne_as : word ≠ "as"

theorem ne_as_of_mem {word : String} (h : '_' ∈ word.toList) : word ≠ "as" := by
  rintro rfl
  revert h
  decide

/-- What counts as a word is no symbol of the grammar. -/
theorem CountsAs.notMem_symbols {cs : List Char} {word : String} (h : CountsAs cs word) :
    word ∉ operatorGrammar.symbols := by
  have only : ∀ symbol ∈ operatorGrammar.symbols, SourceGen.isWord symbol → symbol = "as" := by
    decide
  exact fun mem => h.ne_as (only word mem h.isWord)

/-- A word stays one when word characters follow. -/
theorem isWord_append {word word' : String} (h : isWord word)
    (h' : word'.toList.all isWordChar) : isWord (word ++ word') := by
  simp only [isWord, Bool.and_eq_true, Bool.not_eq_true', List.isEmpty_eq_false_iff] at h ⊢
  simp [h.1, h.2, h']

theorem ne_of_isWordChar {c d : Char} (h : isWordChar c) (hd : isWordChar d = false) : c ≠ d := by
  rintro rfl
  rw [h] at hd
  cases hd

/-- A character of a word is read as it is, and goes on with the word. -/
theorem context_of_isWordChar {c : Char} (h : isWordChar c) (afterWord : Bool) :
    (Context.code afterWord).shown c = c ∧ (Context.code afterWord).next c = .code true := by
  have others := fun d hd => ne_of_isWordChar (d := d) h hd
  have shown : (Context.code afterWord).shown c = c := by
    simp [Context.shown, Context.isCompound, others '"' (by decide), others '\x7b' (by decide),
      others ':' (by decide), others '#' (by decide), others '!' (by decide)]
  refine ⟨shown, ?_⟩
  simp [Context.next, shown, h, others '"' (by decide), others '\x7b' (by decide)]

/-- Word characters are read as they stand. -/
theorem spans_word {cs : List Char} (h : ∀ c ∈ cs, isWordChar c = true) (hne : cs ≠ [])
    (afterWord : Bool) : Spans (.code afterWord) cs cs (.code true) := by
  induction cs generalizing afterWord with
  | nil => exact absurd rfl hne
  | cons c cs ih =>
    obtain ⟨shown, next⟩ := context_of_isWordChar (h c (by simp)) afterWord
    cases cs with
    | nil => exact ⟨by rw [asWords, shown]; rfl, next⟩
    | cons d ds =>
      have rest := ih (fun e he => h e (by simp [he])) (by simp) true
      exact ⟨by rw [asWords, shown, next, rest.asWords_eq], by
        rw [List.foldl_cons, next, rest.foldl_eq]⟩

/-- A word spells itself. -/
theorem spells_word {word : String} (h : isWord word) : Spells word.toList word := by
  have chars := h
  simp only [isWord, Bool.and_eq_true, List.all_eq_true, Bool.not_eq_true',
    List.isEmpty_eq_false_iff] at chars
  refine ⟨spans_word chars.2 chars.1, balanced_of_all (List.all_eq_true.mpr fun c hc => ?_), h⟩
  have others := fun d hd => ne_of_isWordChar (d := d) (chars.2 c hc) hd
  simp [isNeutral, others '"' (by decide), others '\x7b' (by decide), others '\x7d' (by decide)]

/-- Two words with something between them that is read as a part of a word. -/
theorem Spells.joined {cs ds : List Char} {word word' sep read : String} (h : Spells cs word)
    (h' : Spells ds word') (hsep : Spans (.code true) sep.toList read.toList (.code true))
    (balanced : Balanced sep.toList) (hread : read.toList.all isWordChar)
    (mem : '_' ∈ read.toList) : CountsAs (cs ++ (sep.toList ++ ds)) (word ++ (read ++ word')) where
  spans afterWord := by
    simpa using (h.spans afterWord).append (hsep.append (h'.spans true))
  balanced := h.balanced.append (balanced.append h'.balanced)
  isWord := by
    have chars := h'.isWord
    simp only [SourceGen.isWord, Bool.and_eq_true] at chars
    exact isWord_append h.isWord (by simp [hread, chars.2])
  ne_as := ne_as_of_mem (by simp [mem])

/-- A path counts as a word if its parts do. -/
theorem Spells.scoped {cs ds : List Char} {word word' : String} (h : Spells cs word)
    (h' : Spells ds word') : CountsAs (cs ++ ("::".toList ++ ds)) (word ++ ("__" ++ word')) :=
  h.joined h' ⟨by decide, by decide⟩ (balanced_of_all (by decide)) (by decide) (by decide)

/-- An identifier counts as a word, also where it is a raw one. -/
theorem countsAs_ident {name : String} (h : isWord name) :
    ∃ word, CountsAs (ident name).toList word := by
  rw [ident]
  split_ifs with nonRaw keyword
  · exact ⟨name ++ "_", spells_word (isWord_append h (by decide)), ne_as_of_mem (by simp)⟩
  · have raw : CountsAs ("r".toList ++ ("#".toList ++ name.toList)) ("r" ++ ("_" ++ name)) :=
      (spells_word (by decide)).joined (spells_word h) ⟨by decide, by decide⟩
        (balanced_of_all (by decide)) (by decide) (by decide)
    exact ⟨_, by simpa using raw⟩
  · refine ⟨name, spells_word h, ?_⟩
    rintro rfl
    exact keyword (by decide)

/-- A path of words counts as one word. -/
theorem countsAs_path {parts : List String} (hne : parts ≠ []) (h : ∀ p ∈ parts, isWord p) :
    ∃ word, CountsAs (path parts).toList word := by
  rw [path]
  induction parts with
  | nil => exact absurd rfl hne
  | cons part parts ih =>
    obtain ⟨first, hfirst⟩ := countsAs_ident (h part (by simp))
    cases parts with
    | nil => exact ⟨first, hfirst⟩
    | cons part' parts =>
      obtain ⟨rest, hrest⟩ := ih (by simp) fun p hp => h p (by simp [hp])
      exact ⟨_, by simpa [Text.join] using hfirst.scoped hrest.toSpells⟩

/-- A block counts as a word. -/
theorem countsAs_block {cs : List Char} (h : Balanced cs) :
    CountsAs ('\x7b' :: (cs ++ ['\x7d'])) (String.ofList (List.replicate (cs.length + 2) '_')) where
  spans afterWord := by
    have opening : Spans (.code afterWord) ['\x7b'] ['_'] (.block 0 false) := ⟨rfl, rfl⟩
    have closing : Spans (.block 0 false) ['\x7d'] ['_'] (.code true) := ⟨rfl, rfl⟩
    exact (opening.append ((h 0).append closing)).of_eq (by
      rw [← List.replicate_succ']
      simp [List.replicate_succ])
  balanced depth := by
    have opening : Spans (.block depth false) ['\x7b'] ['_'] (.block (depth + 1) false) :=
      ⟨rfl, rfl⟩
    have closing : Spans (.block (depth + 1) false) ['\x7d'] ['_'] (.block depth false) :=
      ⟨rfl, rfl⟩
    exact (opening.append ((h (depth + 1)).append closing)).of_eq (by
      rw [← List.replicate_succ']
      simp [List.replicate_succ])
  isWord := by simp [SourceGen.isWord, isWordChar]
  ne_as := ne_as_of_mem (by simp)

/-- A string counts as a word. -/
theorem countsAs_string {cs : List Char} (h : '"' ∉ cs) :
    CountsAs ('"' :: (cs ++ ['"'])) (String.ofList (List.replicate (cs.length + 2) '_')) where
  spans afterWord := by
    have opening : Spans (.code afterWord) ['"'] ['_'] .quote := ⟨rfl, rfl⟩
    exact (opening.append (spans_quoted h).1).of_eq (by simp [List.replicate_succ])
  balanced depth := by
    have opening : Spans (.block depth false) ['"'] ['_'] (.block depth true) := ⟨rfl, rfl⟩
    exact (opening.append ((spans_quoted h).2 depth)).of_eq (by simp [List.replicate_succ])
  isWord := by simp [SourceGen.isWord, isWordChar]
  ne_as := ne_as_of_mem (by simp)

/-! ### Reading operands -/

/-- Reads a text from a state on. -/
def look (state : State) (cs : List Char) : Option OperatorTree :=
  operatorGrammar.read state (asWords (.code false) cs)

/-- The characters that end a word and are read as they are. -/
def stops : List Char :=
  [' ', '(', ')', '[', ']', ',', '.']

/-- The text is empty or starts with a character that ends a word. -/
def Stops (rest : List Char) : Prop :=
  ∀ c ∈ rest.head?, c ∈ stops

theorem stops_cons {c : Char} (h : c ∈ stops) (cs : List Char) : Stops (c :: cs) := by
  intro d hd
  cases hd
  exact h

/-- A stop is read as it stands, and the word before it is over. -/
theorem asWords_stop {c : Char} (h : c ∈ stops) (afterWord : Bool) (cs : List Char) :
    asWords (.code afterWord) (c :: cs) = c :: asWords (.code false) cs := by
  simp only [stops, List.mem_cons, List.not_mem_nil, or_false] at h
  rcases h with rfl | rfl | rfl | rfl | rfl | rfl | rfl <;> rfl

/-- Behind a word, the text is read as behind anything else. -/
theorem asWords_of_stops {rest : List Char} (h : Stops rest) (afterWord : Bool) :
    asWords (.code afterWord) rest = asWords (.code false) rest := by
  cases rest with
  | nil => rfl
  | cons c cs => rw [asWords_stop (h c rfl), asWords_stop (h c rfl)]

/-- A text that stops at once is apart from the word before it. -/
theorem apart_of_stops {rest : List Char} (h : Stops rest) :
    Apart (asWords (.code false) rest) := by
  cases rest with
  | nil => exact fun c hc => by cases hc
  | cons c cs =>
    rw [asWords_stop (h c rfl)]
    have noWord : stops.all (!isWordChar ·) := by decide
    exact OperatorGrammar.apart_cons (by simpa using List.all_eq_true.mp noWord c (h c rfl))

variable {frames : List Frame} {rest : List Char}

/-- A word is taken as an operand where one is wanted. -/
theorem look_word {cs : List Char} {word : String} (h : CountsAs cs word) (hr : Stops rest) :
    look (.wanted frames) (cs ++ rest) = look (.held frames (.leaf word)) rest := by
  rw [look, (h.spans false).asWords_append, asWords_of_stops hr,
    OperatorGrammar.read_word h.isWord h.notMem_symbols (apart_of_stops hr), look]

/-- A member is read off the operand in hand. -/
theorem look_member {object : OperatorTree} {cs : List Char} {name : String} (h : Spells cs name)
    (hr : Stops rest) :
    look (.held frames object) ('.' :: (cs ++ rest)) =
      look (.held frames (.member object name)) rest := by
  rw [look, asWords_stop (by decide), (h.spans false).asWords_append, asWords_of_stops hr,
    OperatorGrammar.read_member h.isWord (apart_of_stops hr), look]

/-- A parenthesis where an operand is wanted opens a group. -/
theorem look_group (frames : List Frame) (rest : List Char) :
    look (.wanted frames) ('(' :: rest) = look (.wanted (.group :: frames)) rest := by
  rw [look, asWords_stop (by decide), OperatorGrammar.read_group, look]

/-- A bracket behind an operand opens a subscript. -/
theorem look_subscript (frames : List Frame) (object : OperatorTree) (rest : List Char) :
    look (.held frames object) ('[' :: rest) =
      look (.wanted (.subscript object :: frames)) rest := by
  rw [look, asWords_stop (by decide), OperatorGrammar.read_subscript, look]

/-- A parenthesis behind an operand opens its arguments. -/
theorem look_arguments (frames : List Frame) (callee : OperatorTree) (rest : List Char) :
    look (.held frames callee) ('(' :: rest) =
      look (.wanted (.arguments callee [] :: frames)) rest := by
  rw [look, asWords_stop (by decide), OperatorGrammar.read_arguments, look]

theorem look_noArguments (frames : List Frame) (callee : OperatorTree) (rest : List Char) :
    look (.wanted (.arguments callee [] :: frames)) (')' :: rest) =
      look (.held frames (.call callee [])) rest := by
  rw [look, asWords_stop (by decide), OperatorGrammar.read_noArguments, look]

/-- A closing sign settles everything waiting inside it. -/
theorem look_close {tree : OperatorTree} {c : Char} (hc : c = ')' ∨ c = ']' ∨ c = ',')
    {next : State}
    (h : OperatorGrammar.close (String.ofList [c]) (settleAll frames tree) = some next)
    (rest : List Char) : look (.held frames tree) (c :: rest) = look next rest := by
  have mem : c ∈ stops := by
    rcases hc with rfl | rfl | rfl <;> decide
  rw [look, asWords_stop mem, OperatorGrammar.read_close hc h, look]

theorem look_blank (state : State) (rest : List Char) :
    look state (' ' :: rest) = look state rest := by
  rw [look, asWords_stop (by decide), OperatorGrammar.read_blank, look]

/-- Between blanks, every operator is read as it is. -/
theorem spans_operator {op : String} (h : op ∈ operatorGrammar.operators) :
    ∃ afterWord, Spans (.code false) op.toList op.toList (.code afterWord) := by
  have each : ∀ op ∈ operatorGrammar.operators, asWords (.code false) op.toList = op.toList ∧
      (op.toList.foldl Context.next (.code false) = .code false ∨
        op.toList.foldl Context.next (.code false) = .code true) := by decide
  obtain ⟨read, last | last⟩ := each op h
  · exact ⟨false, read, last⟩
  · exact ⟨true, read, last⟩

/-- An operator settles what binds tighter and waits for its right operand. -/
theorem look_operator {outer : List Frame} {tree left : OperatorTree} {op : String}
    (hop : op ∈ operatorGrammar.operators)
    (hs : operatorGrammar.settle op frames tree = some (outer, left)) (rest : List Char) :
    look (.held frames tree) (' ' :: (op.toList ++ ' ' :: rest)) =
      look (.wanted (.operand left op :: outer)) rest := by
  have lexemes : ∀ op ∈ operatorGrammar.operators, operatorGrammar.isLexeme op.toList := by decide
  obtain ⟨_, spans⟩ := spans_operator hop
  rw [look, asWords_stop (by decide), spans.asWords_append, asWords_stop (by decide),
    OperatorGrammar.read_operator hop (lexemes op hop) hs, look]

/-- The signs that are written in front of an operand. -/
def signs : List String :=
  ["-", "*", "!", "&"]

/-- A sign where an operand is wanted waits for its operand. -/
theorem look_leading {sign : String} (h : sign ∈ signs) {cs : List Char}
    (hcs : Starts (asWords (.code false) cs)) :
    look (.wanted frames) (sign.toList ++ cs) = look (.wanted (.leading sign :: frames)) cs := by
  have each : ∀ sign ∈ signs, sign ∈ operatorGrammar.leading ∧
      operatorGrammar.isLexeme sign.toList ∧ sign.toList.all (!isWordChar ·) ∧
      asWords (.code false) sign.toList = sign.toList ∧
      sign.toList.foldl Context.next (.code false) = .code false := by decide
  obtain ⟨mem, lexeme, noWord, read, last⟩ := each sign h
  obtain ⟨c, more, hmore, hc⟩ := hcs
  have spans : Spans (.code false) sign.toList sign.toList (.code false) := ⟨read, last⟩
  rw [look, spans.asWords_append, hmore,
    OperatorGrammar.read_leading mem lexeme (by simpa using noWord) hc, look, hmore]

/-! ### Texts of operands -/

/-- The frame is an operator that waits for its operand. -/
def isWaiting : Frame → Bool
  | .operand _ _ | .leading _ => true
  | _ => false

/-- No operator waits for the next operand. -/
def Fresh (frames : List Frame) : Prop :=
  ∀ frame ∈ frames.head?, isWaiting frame = false

theorem fresh_cons {frame : Frame} (h : isWaiting frame = false) (frames : List Frame) :
    Fresh (frame :: frames) := by
  intro other hother
  cases hother
  exact h

/-- Where nothing waits, an operator settles nothing. -/
theorem Fresh.settle_eq (h : Fresh frames) (op : String) (tree : OperatorTree) :
    operatorGrammar.settle op frames tree = some (frames, tree) := by
  match frames with
  | [] | .group :: _ | .subscript _ :: _ | .arguments _ _ :: _ => rfl
  | .operand _ _ :: _ | .leading _ :: _ => cases h _ rfl

theorem Fresh.settleAll_eq (h : Fresh frames) (tree : OperatorTree) :
    settleAll frames tree = (frames, tree) := by
  match frames with
  | [] | .group :: _ | .subscript _ :: _ | .arguments _ _ :: _ => rfl
  | .operand _ _ :: _ | .leading _ :: _ => cases h _ rfl

/-- The operators of a text take their operands before anything around the text does. -/
theorem Fresh.settleAll_append (h : Fresh frames) {pending : List Frame} {last tree : OperatorTree}
    (hp : settleAll pending last = ([], tree)) :
    settleAll (pending ++ frames) last = (frames, tree) := by
  induction pending generalizing last with
  | nil =>
    cases hp
    exact h.settleAll_eq _
  | cons frame pending ih =>
    cases frame with
    | operand | leading => exact ih hp
    | group | subscript | arguments => cases hp

/-- The text is one operand, whatever waits for it. -/
structure Operand (cs : List Char) (tree : OperatorTree) : Prop where
  balanced : Balanced cs
  starts : Starts (asWords (.code false) cs)
  look_eq : ∀ frames rest, Stops rest →
    look (.wanted frames) (cs ++ rest) = look (.held frames tree) rest

/-- Where no operator waits for it, the text leaves the operators `pending` waiting and ends with
the operand `last`. -/
structure Ending (cs : List Char) (pending : List Frame) (last : OperatorTree) : Prop where
  balanced : Balanced cs
  look_eq : ∀ frames rest, Stops rest → Fresh frames →
    look (.wanted frames) (cs ++ rest) = look (.held (pending ++ frames) last) rest

/-- Where no operator waits for it, the text is read as the tree. -/
def Reads (cs : List Char) (tree : OperatorTree) : Prop :=
  ∃ pending last, Ending cs pending last ∧ settleAll pending last = ([], tree)

/-- An operand ends with no frame open. -/
theorem Operand.ending {cs : List Char} {tree : OperatorTree} (h : Operand cs tree) :
    Ending cs [] tree :=
  ⟨h.balanced, fun frames rest hr _ => h.look_eq frames rest hr⟩

/-- An operand is read as its tree. -/
theorem Operand.reads {cs : List Char} {tree : OperatorTree} (h : Operand cs tree) :
    Reads cs tree :=
  ⟨[], tree, h.ending, rfl⟩

/-- The text of an expression is parsed as its tree. -/
theorem Reads.parse {text : String} {tree : OperatorTree} (h : Reads text.toList tree) :
    parse text = some tree := by
  obtain ⟨pending, last, ending, settled⟩ := h
  have read := ending.look_eq [] [] (fun c hc => by cases hc) (fun frame hframe => by cases hframe)
  rw [List.append_nil, List.append_nil, look] at read
  rw [Rust.parse, read, look]
  simp only [asWords, OperatorGrammar.read, OperatorGrammar.lex, OperatorGrammar.lexFrom,
    OperatorGrammar.run, State.result?, settled]

/-- A bracket or a comma ends the construct around a text. -/
theorem look_reads {cs : List Char} {tree : OperatorTree} (h : Reads cs tree) {frame : Frame}
    (hf : isWaiting frame = false) {c : Char} (hc : c = ')' ∨ c = ']' ∨ c = ',') {next : State}
    (hclose : OperatorGrammar.close (String.ofList [c]) (frame :: frames, tree) = some next)
    (rest : List Char) : look (.wanted (frame :: frames)) (cs ++ c :: rest) = look next rest := by
  obtain ⟨pending, last, ending, settled⟩ := h
  have fresh : Fresh (frame :: frames) := fresh_cons hf frames
  have stop : Stops (c :: rest) := by
    refine stops_cons ?_ rest
    rcases hc with rfl | rfl | rfl <;> decide
  rw [ending.look_eq _ _ stop fresh, look_close hc (by rw [fresh.settleAll_append settled, hclose])]

/-- A word is an operand. -/
theorem CountsAs.operand {cs : List Char} {word : String} (h : CountsAs cs word) :
    Operand cs (.leaf word) where
  balanced := h.balanced
  starts := by
    rw [(h.spans false).asWords_eq]
    exact FormulaSpelling.starts_word h.isWord
  look_eq _ _ hr := look_word h hr

/-- Between parentheses, every text is an operand. -/
theorem Reads.group {cs : List Char} {tree : OperatorTree} (h : Reads cs tree) :
    Operand ('(' :: (cs ++ [')'])) tree where
  balanced := by
    obtain ⟨_, _, ending, _⟩ := h
    exact ending.balanced.enclosed (by decide) (by decide)
  starts := ⟨'(', _, rfl, .inr (by decide)⟩
  look_eq frames rest _ := by
    rw [List.cons_append, List.append_assoc, look_group]
    exact look_reads h rfl (.inl rfl) rfl rest

theorem starts_append {cs : List Char} (h : Starts (asWords (.code false) cs)) (ds : List Char) :
    Starts (asWords (.code false) (cs ++ ds)) := by
  rw [asWords_append]
  exact h.append _

/-- A member of an operand is an operand. -/
theorem Operand.member {cs ds : List Char} {object : OperatorTree} {name : String}
    (h : Operand cs object) (hn : Spells ds name) :
    Operand (cs ++ '.' :: ds) (.member object name) where
  balanced := h.balanced.append (hn.balanced.cons (by decide))
  starts := starts_append h.starts _
  look_eq frames rest hr := by
    rw [List.append_assoc, List.cons_append, h.look_eq _ _ (stops_cons (by decide) _),
      look_member hn hr]

/-- An element of an operand is an operand. -/
theorem Operand.index {cs ds : List Char} {object i : OperatorTree} (h : Operand cs object)
    (hi : Reads ds i) : Operand (cs ++ '[' :: (ds ++ [']'])) (.index object i) where
  balanced := by
    obtain ⟨_, _, ending, _⟩ := hi
    exact h.balanced.append (ending.balanced.enclosed (by decide) (by decide))
  starts := starts_append h.starts _
  look_eq frames rest _ := by
    rw [List.append_assoc, List.cons_append, List.append_assoc,
      h.look_eq _ _ (stops_cons (by decide) _), look_subscript]
    exact look_reads hi rfl (.inr (.inl rfl)) rfl rest

/-- The texts of arguments with commas between them. -/
def commas : List (List Char) → List Char
  | [] => []
  | [cs] => cs
  | cs :: css => cs ++ ',' :: ' ' :: commas css

theorem balanced_commas {css : List (List Char)} {trees : List OperatorTree}
    (h : List.Forall₂ Reads css trees) : Balanced (commas css) := by
  induction h with
  | nil => exact balanced_of_all rfl
  | cons first more ih =>
    obtain ⟨_, _, ending, _⟩ := first
    cases more with
    | nil => exact ending.balanced
    | cons => exact ending.balanced.append ((ih.cons (by decide)).cons (by decide))

/-- The arguments of a call behind those that were read before. -/
theorem look_commas {cs : List Char} {css : List (List Char)} {tree : OperatorTree}
    {trees : List OperatorTree} (first : Reads cs tree) (h : List.Forall₂ Reads css trees)
    (callee : OperatorTree) (done : List OperatorTree) :
    look (.wanted (.arguments callee done :: frames)) (commas (cs :: css) ++ ')' :: rest) =
      look (.held frames (.call callee (done ++ tree :: trees))) rest := by
  induction h generalizing cs tree done with
  | nil => exact look_reads first rfl (.inl rfl) rfl rest
  | @cons cs' tree' css trees next _ ih =>
    have split : commas (cs :: cs' :: css) ++ ')' :: rest =
        cs ++ ',' :: ' ' :: (commas (cs' :: css) ++ ')' :: rest) := by
      simp [commas]
    have comma : ∀ more, look (.wanted (.arguments callee done :: frames)) (cs ++ ',' :: more) =
        look (.wanted (.arguments callee (done ++ [tree]) :: frames)) more :=
      look_reads first rfl (.inr (.inr rfl)) rfl
    rw [split, comma, look_blank, ih next (done ++ [tree]), List.append_assoc]
    rfl

/-- A call of an operand is an operand. -/
theorem Operand.call {cs : List Char} {css : List (List Char)} {callee : OperatorTree}
    {trees : List OperatorTree} (h : Operand cs callee) (hargs : List.Forall₂ Reads css trees) :
    Operand (cs ++ '(' :: (commas css ++ [')'])) (.call callee trees) where
  balanced := h.balanced.append ((balanced_commas hargs).enclosed (by decide) (by decide))
  starts := starts_append h.starts _
  look_eq frames rest _ := by
    rw [List.append_assoc, List.cons_append, List.append_assoc,
      h.look_eq _ _ (stops_cons (by decide) _), look_arguments]
    cases hargs with
    | nil => exact look_noArguments frames callee rest
    | cons first more => exact look_commas first more callee []

/-- An operator between a text and an operand takes what the operators that wait in the text leave
it. -/
theorem Ending.operation {cs ds : List Char} {pending outer : List Frame}
    {last left right : OperatorTree} {op : String} (h : Ending cs pending last)
    (hop : op ∈ operatorGrammar.operators)
    (hs : ∀ frames, Fresh frames →
      operatorGrammar.settle op (pending ++ frames) last = some (outer ++ frames, left))
    (hr : Operand ds right) :
    Ending (cs ++ ' ' :: (op.toList ++ ' ' :: ds)) (.operand left op :: outer) right where
  balanced := by
    have neutral : ∀ op ∈ operatorGrammar.operators, op.toList.all isNeutral := by decide
    have blank : Balanced (' ' :: ds) := hr.balanced.cons (by decide)
    exact h.balanced.append (((balanced_of_all (neutral op hop)).append blank).cons (by decide))
  look_eq frames rest stop fresh := by
    rw [List.append_assoc, List.cons_append, List.append_assoc, List.cons_append,
      h.look_eq _ _ (stops_cons (by decide) _) fresh, look_operator hop (hs frames fresh),
      hr.look_eq _ _ stop]
    rfl

/-- An operator between two operands. -/
theorem Operand.operation {cs ds : List Char} {left right : OperatorTree} {op : String}
    (h : Operand cs left) (hop : op ∈ operatorGrammar.operators) (hr : Operand ds right) :
    Ending (cs ++ ' ' :: (op.toList ++ ' ' :: ds)) [.operand left op] right :=
  h.ending.operation hop (fun _ fresh => fresh.settle_eq op left) hr

/-- A sign in front of an operand. -/
theorem Operand.leading {cs : List Char} {tree : OperatorTree} {sign : String}
    (h : Operand cs tree) (hsign : sign ∈ signs) :
    Ending (sign.toList ++ cs) [.leading sign] tree where
  balanced := by
    have neutral : ∀ sign ∈ signs, sign.toList.all isNeutral := by decide
    exact (balanced_of_all (neutral sign hsign)).append h.balanced
  look_eq frames rest stop _ := by
    rw [List.append_assoc, look_leading hsign (starts_append h.starts rest),
      h.look_eq _ _ stop]
    rfl

end Rust

end SourceGen
