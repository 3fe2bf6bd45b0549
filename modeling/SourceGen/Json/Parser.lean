import SourceGen.Json.Basic

/-!
# JSON text

Reads the text of one JSON value. The whole text is the value, with blanks around it. Nesting is
not limited here: a reader of trees limits only the parts it looks at.

## Main definitions

* `Json.parse`: the value of a text.
* `Json.Text.scanString`: the code units of a string literal.
* `Json.Text.joinUnits`: the text of a sequence of code units, if surrogates come in pairs.
-/

namespace SourceGen

namespace Json

namespace Text

/-- Blanks that may stand between the parts of a value. -/
def isBlank (c : Char) : Bool :=
  c == ' ' || c == '\t' || c == '\n' || c == '\r'

/-- The text from the first part that is no blank. -/
def skipBlanks (cs : List Char) : List Char :=
  cs.dropWhile isBlank

/-- The value of a hexadecimal digit. -/
def hexDigit? (c : Char) : Option Nat :=
  if '0' ≤ c ∧ c ≤ '9' then some (c.toNat - '0'.toNat)
  else if 'a' ≤ c ∧ c ≤ 'f' then some (c.toNat - 'a'.toNat + 10)
  else if 'A' ≤ c ∧ c ≤ 'F' then some (c.toNat - 'A'.toNat + 10)
  else none

/-- The code unit written by four hexadecimal digits. -/
def hexUnit? (a b c d : Char) : Option Nat := do
  return (← hexDigit? a) * 4096 + (← hexDigit? b) * 256 + (← hexDigit? c) * 16 + (← hexDigit? d)

/-- The character that a one-letter escape stands for. -/
def escaped? : Char → Option Char
  | '"' => some '"'
  | '\\' => some '\\'
  | '/' => some '/'
  | 'b' => some '\x08'
  | 'f' => some '\x0c'
  | 'n' => some '\n'
  | 'r' => some '\r'
  | 't' => some '\t'
  | _ => none

/-- The code units up to the closing quote, and the text after it. A control character must be
escaped. -/
def scanString : List Char → Option (List Nat × List Char)
  | [] => none
  | '"' :: cs => some ([], cs)
  | '\\' :: 'u' :: a :: b :: c :: d :: cs => do
    let unit ← hexUnit? a b c d
    let (units, rest) ← scanString cs
    return (unit :: units, rest)
  | '\\' :: e :: cs => do
    let c ← escaped? e
    let (units, rest) ← scanString cs
    return (c.toNat :: units, rest)
  | c :: cs =>
    if c < ' ' then none
    else do
      let (units, rest) ← scanString cs
      return (c.toNat :: units, rest)

/-- The characters of a sequence of code units: a high surrogate and the low one after it are one
character, and a surrogate that stands alone is refused. -/
def joinUnits : List Nat → Option (List Char)
  | [] => some []
  | u :: us =>
    if 0xD800 ≤ u ∧ u < 0xDC00 then
      match us with
      | v :: vs =>
        if 0xDC00 ≤ v ∧ v < 0xE000 then
          (joinUnits vs).map (Char.ofNat (0x10000 + (u - 0xD800) * 0x400 + (v - 0xDC00)) :: ·)
        else none
      | [] => none
    else if 0xDC00 ≤ u ∧ u < 0xE000 then none
    else (joinUnits us).map (Char.ofNat u :: ·)

/-- The digits at the start of a text, at least one, and the text after them. -/
def digits? (cs : List Char) : Option (List Char × List Char) :=
  let (ds, rest) := cs.span Char.isDigit
  if ds.isEmpty then none else some (ds, rest)

/-- The integer part of a number: a zero, or digits that do not start with one. -/
def integer? : List Char → Option (List Char × List Char)
  | '0' :: cs => if cs.head?.any Char.isDigit then none else some (['0'], cs)
  | cs => digits? cs

/-- The fraction of a number, which may be absent. -/
def fraction? : List Char → Option (List Char × List Char)
  | '.' :: cs => (digits? cs).map fun (ds, rest) => ('.' :: ds, rest)
  | cs => some ([], cs)

/-- The exponent of a number, which may be absent. -/
def exponent? : List Char → Option (List Char × List Char)
  | c :: cs =>
    if c == 'e' || c == 'E' then
      match cs with
      | '+' :: cs => (digits? cs).map fun (ds, rest) => (c :: '+' :: ds, rest)
      | '-' :: cs => (digits? cs).map fun (ds, rest) => (c :: '-' :: ds, rest)
      | cs => (digits? cs).map fun (ds, rest) => (c :: ds, rest)
    else some ([], c :: cs)
  | [] => some ([], [])

/-- A number without its sign. -/
def magnitude? (cs : List Char) : Option (List Char × List Char) := do
  let (whole, cs) ← integer? cs
  let (fraction, cs) ← fraction? cs
  let (exponent, cs) ← exponent? cs
  return (whole ++ fraction ++ exponent, cs)

/-- The text of a number, and the text after it. -/
def number? : List Char → Option (Json × List Char)
  | '-' :: cs => (magnitude? cs).map fun (ds, rest) => (.number (String.ofList ('-' :: ds)), rest)
  | cs => (magnitude? cs).map fun (ds, rest) => (.number (String.ofList ds), rest)

/-- Adds a field to an object; a key without text makes the object unreadable. -/
def consField (key : Option String) (v : Json) : Json → Json
  | .object fields =>
    match key with
    | some key => .object ((key, v) :: fields)
    | none => .unreadable
  | _ => .unreadable

/-- Adds an item to an array. -/
def consItem (v : Json) : Json → Json
  | .array vs => .array (v :: vs)
  | other => other

mutual

/-- A value at the start of a text, blanks before it skipped. -/
def value? : Nat → List Char → Option (Json × List Char)
  | 0, _ => none
  | fuel + 1, cs =>
    match skipBlanks cs with
    | 'n' :: 'u' :: 'l' :: 'l' :: rest => some (.null, rest)
    | 't' :: 'r' :: 'u' :: 'e' :: rest => some (.bool true, rest)
    | 'f' :: 'a' :: 'l' :: 's' :: 'e' :: rest => some (.bool false, rest)
    | '"' :: rest => do
      let (units, rest) ← scanString rest
      -- A lone surrogate is no reason to refuse the text: nobody may ever look at this string.
      match joinUnits units with
      | some chars => return (.string (String.ofList chars), rest)
      | none => return (.unreadable, rest)
    | '[' :: rest =>
      match skipBlanks rest with
      | ']' :: rest => some (.array [], rest)
      | rest => items? fuel rest
    | '\x7b' :: rest =>
      match skipBlanks rest with
      | '\x7d' :: rest => some (.object [], rest)
      | rest => fields? fuel rest
    | rest => number? rest

/-- The items of an array up to its end, at least one. -/
def items? : Nat → List Char → Option (Json × List Char)
  | 0, _ => none
  | fuel + 1, cs => do
    let (v, rest) ← value? fuel cs
    match skipBlanks rest with
    | ',' :: rest =>
      let (vs, rest) ← items? fuel rest
      return (consItem v vs, rest)
    | ']' :: rest => return (.array [v], rest)
    | _ => none

/-- The fields of an object up to its end, at least one. -/
def fields? : Nat → List Char → Option (Json × List Char)
  | 0, _ => none
  | fuel + 1, cs =>
    match skipBlanks cs with
    | '"' :: rest => do
      let (units, rest) ← scanString rest
      let key := (joinUnits units).map String.ofList
      match skipBlanks rest with
      | ':' :: rest =>
        let (v, rest) ← value? fuel rest
        match skipBlanks rest with
        | ',' :: rest =>
          let (fields, rest) ← fields? fuel rest
          return (consField key v fields, rest)
        | '\x7d' :: rest => return (consField key v (.object []), rest)
        | _ => none
      | _ => none
    | _ => none

end

end Text

/-- The value that a text holds, if it is the text of one value. Every step into a value takes a
character of the text, so twice its length bounds the recursion. -/
def parse (text : String) : Option Json :=
  let cs := text.toList
  match Text.value? (2 * cs.length + 2) cs with
  | some (v, rest) => if (Text.skipBlanks rest).isEmpty then some v else none
  | none => none

end Json

end SourceGen
