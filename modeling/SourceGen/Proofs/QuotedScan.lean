import Mathlib.Tactic.SplitIfs
import SourceGen.CSharp.Spelling
import SourceGen.Rust.Spelling

/-!
# Scanning quoted literals

A scan of a string or character literal moves from its opening quote, character by character, to the
first quote that no backslash stands in front of. What a backslash may be followed by, and which
characters end a line and may not stand inside, is the target's own. Both targets are given one
escaped text, so they differ in the line ends that it leaves as they are.

## Main definitions

* `QuotedGrammar`: the quotes, escapes and line ends of one kind of literal.
* `QuotedGrammar.run`: the scan as a state machine.
* `QuotedGrammar.read?`: what a whole text stands for.

## Main results

* `QuotedGrammar.run_escape`: where a scan of escaped text gets to.
* `Rust.quoted_literals_decode`: a literal is scanned to its last character, and to its value.
* `CSharp.quoted_literals_legal_iff`: the same but for three line ends, which are written raw.
-/

namespace SourceGen

/-- How text between quotes is read. -/
structure QuotedGrammar where
  quote : Char
  /-- The letters that may follow a backslash, each with what it stands for. -/
  escapes : List (Char × Char)
  /-- The characters that end a line. None of them stands between the quotes. -/
  lineEnds : List Char

namespace QuotedGrammar

/-- Where a scan stands, with the characters read so far. -/
inductive State
  | opening
  | inside (value : List Char)
  | escape (value : List Char)
  | closed (value : List Char)
  deriving DecidableEq, Repr

/-- The scan is behind the closing quote. -/
def State.isClosed : State → Bool
  | .closed _ => true
  | _ => false

variable (g : QuotedGrammar)

/-- Scans one character. -/
def step : State → Char → Option State
  | .opening, c => if c = g.quote then some (.inside []) else none
  | .inside value, c =>
    if c = g.quote then some (.closed value)
    else if c = '\\' then some (.escape value)
    else if c ∈ g.lineEnds then none
    else some (.inside (value ++ [c]))
  | .escape value, letter => (g.escapes.lookup letter).map fun c => .inside (value ++ [c])
  | .closed _, _ => none

/-- Scans a text. -/
def run (state : State) (cs : List Char) : Option State :=
  cs.foldlM g.step state

/-- What a text stands for that is one literal from its first character to its last. -/
def read? (text : String) : Option (List Char) :=
  match g.run .opening text.toList with
  | some (.closed value) => some value
  | _ => none

@[simp]
theorem run_nil (state : State) : g.run state [] = some state := rfl

theorem run_cons (state : State) (c : Char) (cs : List Char) :
    g.run state (c :: cs) = (g.step state c).bind fun next => g.run next cs := rfl

/-- Scanning a literal is scanning its parts. -/
theorem run_append (state : State) (cs ds : List Char) :
    g.run state (cs ++ ds) = (g.run state cs).bind fun next => g.run next ds :=
  List.foldlM_append

variable {g}

/-- A text is a literal of a value when the scan ends behind the closing quote. -/
theorem read?_eq_some {text : String} {value : List Char} :
    g.read? text = some value ↔ g.run .opening text.toList = some (.closed value) := by
  unfold read?
  split <;> simp_all

/-- Nothing is scanned behind the closing quote. -/
theorem run_closed {value cs : List Char} {state : State}
    (h : g.run (.closed value) cs = some state) : cs = [] := by
  cases cs with
  | nil => rfl
  | cons c cs => simp [run_cons, step] at h

/-- A scan that closes with the last character of a text has not closed before it. -/
theorem closed_take_iff {text value : List Char} (h : g.run .opening text = some (.closed value))
    (n : Nat) : (g.run .opening (text.take n)).any State.isClosed ↔ text.length ≤ n := by
  constructor
  · intro hclosed
    rw [← List.take_append_drop n text, run_append] at h
    obtain ⟨state, hstate, hrest⟩ := Option.bind_eq_some_iff.mp h
    rw [hstate] at hclosed
    cases state with
    | closed value => exact List.drop_eq_nil_iff.mp (run_closed hrest)
    | opening | inside | escape => cases hclosed
  · intro hlength
    rw [List.take_of_length_le hlength, h]
    rfl

/-! ### Escaped text -/

/-- The escapes that are written between `quote`s: letters with the characters they stand for. -/
def writtenEscapes (quote : Char) : List (Char × Char) :=
  [(quote, quote), ('\\', '\\'), ('n', '\n'), ('r', '\r'), ('t', '\t'), ('0', '\x00')]

/-- An escape that is written is one of the list. -/
theorem mem_writtenEscapes {quote c letter : Char} (h : Text.escapeLetter? quote c = some letter) :
    (letter, c) ∈ writtenEscapes quote := by
  unfold Text.escapeLetter? at h
  split_ifs at h <;> cases h <;> subst_vars <;> simp [writtenEscapes]

/-- The grammar reads each escape as the character it is written for, and tells the two characters
of an escape from the end of a line. -/
structure ReadsEscapes (g : QuotedGrammar) : Prop where
  quote_ne : g.quote ≠ '\\'
  lookup_letter : ∀ e ∈ writtenEscapes g.quote, g.escapes.lookup e.1 = some e.2
  backslash_notMem : '\\' ∉ g.lineEnds
  lookup_lineEnd : ∀ c ∈ g.lineEnds, g.escapes.lookup c = none

/-- The same grammar in a language whose literals run over the ends of lines. -/
def multiline (g : QuotedGrammar) : QuotedGrammar :=
  { g with lineEnds := [] }

/-- Raw line ends do not change the escapes. -/
theorem ReadsEscapes.multiline (hg : g.ReadsEscapes) : g.multiline.ReadsEscapes where
  quote_ne := hg.quote_ne
  lookup_letter := hg.lookup_letter
  backslash_notMem := List.not_mem_nil
  lookup_lineEnd _ hc := absurd hc List.not_mem_nil

/-- The text between the quotes of a literal for `s`. -/
def body (g : QuotedGrammar) (s : List Char) : List Char :=
  s.flatMap (Text.escapeWith g.quote)

/-- The body of a literal is written character by character. -/
theorem body_cons (c : Char) (s : List Char) :
    g.body (c :: s) = Text.escapeWith g.quote c ++ g.body s :=
  List.flatMap_cons

/-- The literal for `s`. -/
def written (g : QuotedGrammar) (s : List Char) : List Char :=
  g.quote :: (g.body s ++ [g.quote])

/-- The line ends that escaped text keeps as they are. -/
def rawLineEnds (g : QuotedGrammar) : List Char :=
  g.lineEnds.filter fun c => (Text.escapeLetter? g.quote c).isNone

/-- A character that is written as it is neither closes a literal nor starts an escape. -/
theorem ne_of_escapeLetter?_eq_none {quote c : Char} (h : Text.escapeLetter? quote c = none) :
    c ≠ quote ∧ c ≠ '\\' := by
  unfold Text.escapeLetter? at h
  split_ifs at h with hquote hbackslash
  exact ⟨hquote, hbackslash⟩

/-- One written character takes a scan on by that character, unless it is a raw line end. -/
theorem run_escapeWith (hg : g.ReadsEscapes) (value : List Char) (c : Char) :
    g.run (.inside value) (Text.escapeWith g.quote c) =
      if c ∈ g.rawLineEnds then none else some (.inside (value ++ [c])) := by
  unfold Text.escapeWith
  cases h : Text.escapeLetter? g.quote c with
  | some letter =>
    have hraw : c ∉ g.rawLineEnds := by simp [rawLineEnds, h]
    simp [run_cons, step, hraw, hg.quote_ne.symm, hg.lookup_letter _ (mem_writtenEscapes h)]
  | none =>
    obtain ⟨hquote, hbackslash⟩ := ne_of_escapeLetter?_eq_none h
    have hraw : c ∈ g.rawLineEnds ↔ c ∈ g.lineEnds := by simp [rawLineEnds, h]
    simp only [run_cons, step, hquote, hbackslash, if_false, hraw]
    split <;> rfl

/-- Whether a text has a character of some kind is asked of its characters, not of every one. -/
instance (p : Char → Prop) [DecidablePred p] (s : List Char) : Decidable (∃ c ∈ s, p c) :=
  s.decidableBEx p

/-- A scan of escaped text gets to its end with the text itself read, unless a raw line end stops
it. -/
theorem run_escape (hg : g.ReadsEscapes) (value s : List Char) :
    g.run (.inside value) (g.body s) =
      if ∃ c ∈ s, c ∈ g.rawLineEnds then none else some (.inside (value ++ s)) := by
  induction s generalizing value with
  | nil => simp [body]
  | cons c s ih =>
    rw [body_cons, run_append, run_escapeWith hg]
    by_cases hc : c ∈ g.rawLineEnds
    · simp [hc]
    · simp [hc, ih]

/-- A scan of the whole literal reads its value, or is stopped by a raw line end. -/
theorem run_written (hg : g.ReadsEscapes) (s : List Char) :
    g.run .opening (g.written s) =
      if ∃ c ∈ s, c ∈ g.rawLineEnds then none else some (.closed s) := by
  rw [written, run_cons, step, if_pos rfl, Option.bind_some, run_append, run_escape hg]
  split
  · rfl
  · simp [run_cons, step]

/-- A written literal is read back unless a raw line end is in it. -/
theorem read?_of_toList {text : String} {s : List Char} (hg : g.ReadsEscapes)
    (htext : text.toList = g.written s) :
    g.read? text = if ∃ c ∈ s, c ∈ g.rawLineEnds then none else some s := by
  rw [read?, htext, run_written hg]
  split <;> simp_all

/-- Where lines may end inside a literal, nothing stops the scan: no quote ends the text early. -/
theorem run_multiline_body (hg : g.ReadsEscapes) (s : List Char) :
    g.multiline.run (.inside []) (g.body s) = some (.inside s) := by
  have hraw : ¬ ∃ c ∈ s, c ∈ g.multiline.rawLineEnds := by simp [rawLineEnds, multiline]
  have hrun := run_escape hg.multiline [] s
  rwa [if_neg hraw] at hrun

/-- The line ends inside a literal are those of its value that have no escape. -/
theorem mem_body_iff (hg : g.ReadsEscapes) (s : List Char) (c : Char) :
    c ∈ g.body s ∧ c ∈ g.lineEnds ↔ c ∈ s ∧ c ∈ g.rawLineEnds := by
  have written_iff : ∀ d : Char, c ∈ g.lineEnds →
      (c ∈ Text.escapeWith g.quote d ↔ c = d ∧ Text.escapeLetter? g.quote d = none) := by
    intro d hc
    unfold Text.escapeWith
    cases h : Text.escapeLetter? g.quote d with
    | some letter =>
      have hbackslash : c ≠ '\\' := fun heq => hg.backslash_notMem (heq ▸ hc)
      have hletter : c ≠ letter := by
        rintro rfl
        have hlookup := hg.lookup_letter _ (mem_writtenEscapes h)
        rw [hg.lookup_lineEnd c hc] at hlookup
        cases hlookup
      simp [hbackslash, hletter]
    | none => simp
  simp only [body, rawLineEnds, List.mem_flatMap, List.mem_filter, Option.isNone_iff_eq_none]
  constructor
  · rintro ⟨⟨d, hd, hwritten⟩, hc⟩
    obtain ⟨rfl, hnone⟩ := (written_iff d hc).mp hwritten
    exact ⟨hd, hc, hnone⟩
  · rintro ⟨hmem, hc, hnone⟩
    exact ⟨⟨c, hmem, (written_iff c hc).mpr ⟨rfl, hnone⟩⟩, hc⟩

end QuotedGrammar

/-! ### Rust -/

namespace Rust

/-- Literals between `quote`s: no line feed and no carriage return stands inside. -/
def quoted (quote : Char) : QuotedGrammar where
  quote
  escapes :=
    [(quote, quote), ('\\', '\\'), ('n', '\n'), ('r', '\r'), ('t', '\t'), ('0', '\x00')]
  lineEnds := ['\n', '\r']

variable {quote : Char}

/-- The escapes that are written are read. -/
theorem readsEscapes_quoted (h : quote = '"' ∨ quote = '\'') : (quoted quote).ReadsEscapes where
  quote_ne := by obtain rfl | rfl := h <;> decide
  lookup_letter := by obtain rfl | rfl := h <;> decide
  backslash_notMem := by simp [quoted]
  lookup_lineEnd := by obtain rfl | rfl := h <;> simp [quoted, List.lookup_cons]

/-- No raw line end breaks a literal. -/
theorem rawLineEnds_quoted (h : quote = '"' ∨ quote = '\'') : (quoted quote).rawLineEnds = [] := by
  obtain rfl | rfl := h <;> decide

theorem toList_string (s : String) :
    (literal (.string s)).toList = (quoted '"').written s.toList := by
  simp [literal, Text.escapeString, QuotedGrammar.written, QuotedGrammar.body, quoted]

theorem toList_char (c : Char) : (literal (.char c)).toList = (quoted '\'').written [c] := by
  simp [literal, Text.escapeChar, QuotedGrammar.written, QuotedGrammar.body, quoted]

/-- The scan of a string literal ends at its closing quote with the string. -/
theorem run_string (s : String) :
    (quoted '"').run .opening (literal (.string s)).toList = some (.closed s.toList) := by
  rw [toList_string, QuotedGrammar.run_written (readsEscapes_quoted (.inl rfl)),
    rawLineEnds_quoted (.inl rfl)]
  simp

/-- The scan of a character literal ends at its closing quote with the character. -/
theorem run_char (c : Char) :
    (quoted '\'').run .opening (literal (.char c)).toList = some (.closed [c]) := by
  rw [toList_char, QuotedGrammar.run_written (readsEscapes_quoted (.inr rfl)),
    rawLineEnds_quoted (.inr rfl)]
  simp

/-- A string or character literal is scanned to its end, as its value and as no other, and closes
with its last character. -/
theorem quoted_literals_decode :
    (∀ s : String, (quoted '"').read? (literal (.string s)) = some s.toList) ∧
    (∀ c : Char, (quoted '\'').read? (literal (.char c)) = some [c]) ∧
    (∀ s t : String, literal (.string s) = literal (.string t) ↔ s = t) ∧
    (∀ c d : Char, literal (.char c) = literal (.char d) ↔ c = d) ∧
    (∀ (s : String) (n : Nat),
      ((quoted '"').run .opening ((literal (.string s)).toList.take n)).any
        QuotedGrammar.State.isClosed ↔ (literal (.string s)).toList.length ≤ n) ∧
    (∀ (c : Char) (n : Nat),
      ((quoted '\'').run .opening ((literal (.char c)).toList.take n)).any
        QuotedGrammar.State.isClosed ↔ (literal (.char c)).toList.length ≤ n) := by
  refine ⟨fun s => QuotedGrammar.read?_eq_some.mpr (run_string s),
    fun c => QuotedGrammar.read?_eq_some.mpr (run_char c),
    fun s t => ⟨fun h => ?_, fun h => h ▸ rfl⟩, fun c d => ⟨fun h => ?_, fun h => h ▸ rfl⟩,
    fun s => QuotedGrammar.closed_take_iff (run_string s),
    fun c => QuotedGrammar.closed_take_iff (run_char c)⟩
  · -- Equal literals are read to equal values.
    have hrun := run_string s
    rw [h, run_string t] at hrun
    exact String.toList_inj.mp (by simpa using hrun.symm)
  · have hrun := run_char c
    rw [h, run_char d] at hrun
    simpa using hrun.symm

end Rust

/-! ### C# -/

namespace CSharp

/-- Literals between `quote`s: either quote may be escaped, and there are five line ends. An escape
that gives the number of a character is not read: no literal here is written with one. -/
def quoted (quote : Char) : QuotedGrammar where
  quote
  escapes :=
    [('\'', '\''), ('"', '"'), ('\\', '\\'), ('0', '\x00'), ('a', '\x07'), ('b', '\x08'),
      ('f', '\x0c'), ('n', '\n'), ('r', '\r'), ('t', '\t'), ('v', '\x0b')]
  lineEnds := ['\n', '\r', '\u0085', '\u2028', '\u2029']

/-- The line ends without an escape: next line, line separator and paragraph separator. -/
def separators : List Char :=
  ['\u0085', '\u2028', '\u2029']

/-- How many UTF-16 code units a character takes. -/
def utf16Units (c : Char) : Nat :=
  if c.toNat < 0x10000 then 1 else 2

/-- The character that a text is the literal of. It is one UTF-16 code unit. -/
def readChar? (text : String) : Option Char :=
  match (quoted '\'').read? text with
  | some [c] => if utf16Units c = 1 then some c else none
  | _ => none

variable {quote : Char}

theorem readsEscapes_quoted (h : quote = '"' ∨ quote = '\'') : (quoted quote).ReadsEscapes where
  quote_ne := by obtain rfl | rfl := h <;> decide
  lookup_letter := by obtain rfl | rfl := h <;> decide
  backslash_notMem := by simp [quoted]
  lookup_lineEnd := by obtain rfl | rfl := h <;> simp [quoted, List.lookup_cons]

/-- Three line ends stay raw and break a literal. -/
theorem rawLineEnds_quoted (h : quote = '"' ∨ quote = '\'') :
    (quoted quote).rawLineEnds = separators := by
  obtain rfl | rfl := h <;> decide

theorem toList_string (s : String) :
    (literal (.string s)).toList = (quoted '"').written s.toList := by
  simp [literal, Text.escapeString, QuotedGrammar.written, QuotedGrammar.body, quoted]

theorem toList_char (c : Char) : (literal (.char c)).toList = (quoted '\'').written [c] := by
  simp [literal, Text.escapeChar, QuotedGrammar.written, QuotedGrammar.body, quoted]

/-- A string or character literal is one token, and its value is the one it is written for, exactly
when the value has no line end without an escape and a character is one code unit. The quotes are
never to blame: inside them stands escaped text without a bare quote, and its line ends are those
three of the value. -/
theorem quoted_literals_legal_iff (s : String) (c : Char) :
    (∃ inner,
      (literal (.string s)).toList = '"' :: (inner ++ ['"']) ∧
      (quoted '"').multiline.run (.inside []) inner = some (.inside s.toList) ∧
      (∀ d, d ∈ inner ∧ d ∈ (quoted '"').lineEnds ↔ d ∈ s.toList ∧ d ∈ separators) ∧
      (quoted '"').read? (literal (.string s)) =
        if ∃ d ∈ s.toList, d ∈ separators then none else some s.toList) ∧
    ∃ inner,
      (literal (.char c)).toList = '\'' :: (inner ++ ['\'']) ∧
      (quoted '\'').multiline.run (.inside []) inner = some (.inside [c]) ∧
      (∀ d, d ∈ inner ∧ d ∈ (quoted '\'').lineEnds ↔ d = c ∧ d ∈ separators) ∧
      readChar? (literal (.char c)) =
        if c ∉ separators ∧ utf16Units c = 1 then some c else none := by
  have hstring := readsEscapes_quoted (.inl rfl)
  have hchar := readsEscapes_quoted (.inr rfl)
  constructor
  · refine ⟨_, toList_string s, QuotedGrammar.run_multiline_body hstring s.toList, fun d => ?_, ?_⟩
    · rw [QuotedGrammar.mem_body_iff hstring, rawLineEnds_quoted (.inl rfl)]
    · rw [QuotedGrammar.read?_of_toList hstring (toList_string s), rawLineEnds_quoted (.inl rfl)]
  · refine ⟨_, toList_char c, QuotedGrammar.run_multiline_body hchar [c], fun d => ?_, ?_⟩
    · rw [QuotedGrammar.mem_body_iff hchar, rawLineEnds_quoted (.inr rfl), List.mem_singleton]
    · rw [readChar?, QuotedGrammar.read?_of_toList hchar (toList_char c),
        rawLineEnds_quoted (.inr rfl)]
      by_cases hc : c ∈ separators <;> simp [hc]

example : (quoted '"').read? (literal (.string "one\u2028two")) = none := by decide

end CSharp

end SourceGen
