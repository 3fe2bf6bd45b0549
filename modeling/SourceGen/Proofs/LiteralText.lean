import SourceGen.CSharp.Spelling
import SourceGen.Rust.Spelling
import Mathlib.Tactic.SplitIfs

/-!
# Reading literals back

Both targets read the text between quotes up to the closing quote, with the same escapes. A literal
is read back from the text that either target writes for it, so its text determines it.

## Main definitions

* `Text.readQuoted`: reads text up to its closing quote.
* `Literal.read?`: the literal that a token is.

## Main results

* `Text.readQuoted_escape`: escaped text reads as the text itself.
* `Rust.read?_literal`, `CSharp.read?_literal`: a written literal reads as itself.
-/

namespace SourceGen

namespace Text

/-- The character that a letter after a backslash stands for. -/
def unescape? : Char → Option Char
  | '"' => some '"'
  | '\'' => some '\''
  | '\\' => some '\\'
  | 'n' => some '\n'
  | 'r' => some '\r'
  | 't' => some '\t'
  | '0' => some '\x00'
  | _ => none

/-- Reads text up to the closing quote: what it stands for, and what is left behind the quote. Text
does not run over the end of a line. -/
def readQuoted (quote : Char) : List Char → Option (List Char × List Char)
  | [] => none
  | '\\' :: [] => none
  | '\\' :: letter :: cs => do
    let c ← unescape? letter
    let (value, rest) ← readQuoted quote cs
    return (c :: value, rest)
  | c :: cs =>
    if c = quote then some ([], cs)
    else if c = '\n' ∨ c = '\r' then none
    else (readQuoted quote cs).map fun (value, rest) => (c :: value, rest)

variable {quote c letter : Char}

theorem unescape?_of_escapeLetter? (hquote : quote = '"' ∨ quote = '\'')
    (h : escapeLetter? quote c = some letter) : unescape? letter = some c := by
  unfold escapeLetter? at h
  split_ifs at h with hc
  · cases h
    subst hc
    obtain rfl | rfl := hquote <;> rfl
  all_goals
    cases h
    subst_vars
    rfl

/-- What is written for one character reads as that character. -/
theorem readQuoted_escapeWith (hquote : quote = '"' ∨ quote = '\'') (c : Char) (cs : List Char) :
    readQuoted quote (escapeWith quote c ++ cs) =
      (readQuoted quote cs).map fun (value, rest) => (c :: value, rest) := by
  unfold escapeWith
  cases h : escapeLetter? quote c with
  | some letter =>
    simp only [List.cons_append, List.nil_append, readQuoted,
      unescape?_of_escapeLetter? hquote h]
    cases readQuoted quote cs <;> rfl
  | none =>
    -- A character without an escape is no quote, no backslash and no end of a line.
    unfold escapeLetter? at h
    split_ifs at h with hq hb hn hr
    rw [List.singleton_append, readQuoted]
    · simp [hq, hn, hr]
    · simp [hb]
    · simp [hb]

/-- Escaped text reads as the text itself. -/
theorem readQuoted_escape (hquote : quote = '"' ∨ quote = '\'') (s rest : List Char) :
    readQuoted quote (s.flatMap (escapeWith quote) ++ quote :: rest) = some (s, rest) := by
  induction s with
  | nil =>
    obtain rfl | rfl := hquote
    · simp [readQuoted]
    · simp [readQuoted]
  | cons c s ih =>
    rw [List.flatMap_cons, List.append_assoc, readQuoted_escapeWith hquote, ih]
    rfl

end Text

/-! ### Tokens -/

namespace Literal

/-- A number may start with this character. -/
def startsNumber (c : Char) : Bool :=
  c.isDigit || c == '+' || c == '-' || c == '.'

/-- The text of a number is a number. -/
def IsProper : Literal → Prop
  | .number text => ∃ c cs, text.toList = c :: cs ∧ startsNumber c
  | _ => True

/-- The literal that a token is, in a target where `null` is written for the absent value. -/
def read? (null token : String) : Option Literal :=
  match token.toList with
  | '"' :: cs =>
    match Text.readQuoted '"' cs with
    | some (value, []) => some (.string (String.ofList value))
    | _ => none
  | '\'' :: cs =>
    match Text.readQuoted '\'' cs with
    | some ([value], []) => some (.char value)
    | _ => none
  | c :: _ =>
    if startsNumber c then some (.number token)
    else if token = "true" then some (.bool true)
    else if token = "false" then some (.bool false)
    else if token = null then some .null
    else none
  | [] => none

theorem read?_number {null : String} {text : String} (h : (number text).IsProper) :
    read? null text = some (.number text) := by
  obtain ⟨c, cs, htext, hc⟩ := h
  unfold read?
  rw [htext]
  split
  · next h => cases h; simp [startsNumber] at hc
  · next h => cases h; simp [startsNumber] at hc
  · next h => cases h; simp [hc]
  · next h => cases h

theorem read?_string (null value : String) :
    read? null ("\"" ++ Text.escapeString value ++ "\"") = some (.string value) := by
  have htext : ("\"" ++ Text.escapeString value ++ "\"").toList =
      '"' :: (value.toList.flatMap (Text.escapeWith '"') ++ ['"']) := by
    simp [Text.escapeString]
  unfold read?
  rw [htext]
  simp only [Text.readQuoted_escape (.inl rfl)]
  simp

theorem read?_char (null : String) (value : Char) :
    read? null ("'" ++ Text.escapeChar value ++ "'") = some (.char value) := by
  have htext : ("'" ++ Text.escapeChar value ++ "'").toList =
      '\'' :: ([value].flatMap (Text.escapeWith '\'') ++ ['\'']) := by
    simp [Text.escapeChar]
  unfold read?
  rw [htext]
  simp only [Text.readQuoted_escape (.inr rfl)]

end Literal

/-- A literal reads as itself where it is written for Rust. -/
theorem Rust.read?_literal {l : Literal} (h : l.IsProper) :
    Literal.read? "None" (Rust.literal l) = some l := by
  cases l with
  | number text => exact Literal.read?_number h
  | string value => exact Literal.read?_string _ value
  | char value => exact Literal.read?_char _ value
  | bool value => cases value <;> decide
  | null => decide

/-- A literal reads as itself where it is written for C#. -/
theorem CSharp.read?_literal {l : Literal} (h : l.IsProper) :
    Literal.read? "null" (CSharp.literal l) = some l := by
  cases l with
  | number text => exact Literal.read?_number h
  | string value => exact Literal.read?_string _ value
  | char value => exact Literal.read?_char _ value
  | bool value => cases value <;> decide
  | null => decide

end SourceGen
