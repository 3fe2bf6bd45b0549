/-!
# Diagnostics

Messages about a generated unit that do not stop its generation: an unknown type, a skipped
declaration, a raw block for another target.

## Main definitions

* `Diagnostic`: a message with its severity, context, notes and hints.
* `Diagnostic.display`: one line of plain text.
* `Diagnostic.printed`: the coloured text for a terminal.
* `Diagnostic.count`, `Diagnostic.hasErrors`: summaries of a list of diagnostics.
-/

namespace SourceGen

/-- How serious a diagnostic is; the order is by seriousness. -/
inductive Severity where
  | info | warning | error
  deriving DecidableEq, Repr

namespace Severity

/-- The name of a severity. -/
def name : Severity → String
  | info => "info"
  | warning => "warning"
  | error => "error"

/-- The place of a severity in the order. -/
def rank : Severity → Nat
  | info => 0
  | warning => 1
  | error => 2

/-- The more serious of two. -/
def max (a b : Severity) : Severity :=
  if a.rank < b.rank then b else a

end Severity

/-- A message about a generated unit. -/
structure Diagnostic where
  severity : Severity
  message : String
  context : Option String := none
  notes : List String := []
  hints : List String := []
  deriving DecidableEq, Repr

namespace Diagnostic

/-- A plain message of information. -/
def info (message : String) : Diagnostic :=
  { severity := .info, message }

/-- A plain warning. -/
def warning (message : String) : Diagnostic :=
  { severity := .warning, message }

/-- A plain error. -/
def error (message : String) : Diagnostic :=
  { severity := .error, message }

/-- The diagnostic with a note added. -/
def withNote (d : Diagnostic) (note : String) : Diagnostic :=
  { d with notes := d.notes ++ [note] }

/-- The diagnostic with a hint added. -/
def withHint (d : Diagnostic) (hint : String) : Diagnostic :=
  { d with hints := d.hints ++ [hint] }

/-- The diagnostic about a declaration. -/
def withContext (d : Diagnostic) (context : String) : Diagnostic :=
  { d with context := some context }

/-- Severity and message on one line, with the context in parentheses. -/
def display (d : Diagnostic) : String :=
  d.severity.name ++ ": " ++ d.message ++
    match d.context with
    | some context => " (in " ++ context ++ ")"
    | none => ""

/-! ### Terminal text -/

/-- A terminal style, switched on by its code. -/
def style (code : String) : String :=
  "\x1b[" ++ code ++ "m"

/-- The colour of a severity. -/
def colour : Severity → String
  | .error => style "31"
  | .warning => style "33"
  | .info => style "36"

/-- A further line under a message, with a coloured label. -/
def detail (label text : String) : String :=
  "  " ++ style "36" ++ label ++ style "0" ++ " " ++ text ++ "\n"

/-- The message in colour, then its context, notes and hints, each on a line of its own. -/
def printed (d : Diagnostic) : String :=
  style "1" ++ colour d.severity ++ d.severity.name ++ style "0" ++ style "1" ++ ": " ++
    d.message ++ style "0" ++ "\n" ++
    (d.context.map (detail "-->")).getD "" ++
    String.join (d.notes.map (detail "= note:")) ++
    String.join (d.hints.map (detail "= hint:"))

/-! ### Lists of diagnostics -/

/-- The number of diagnostics of exactly one severity. -/
def count (severity : Severity) (ds : List Diagnostic) : Nat :=
  ds.countP (·.severity = severity)

/-- The warnings among some diagnostics. -/
def warnings (ds : List Diagnostic) : List Diagnostic :=
  ds.filter (·.severity = .warning)

/-- One of the diagnostics is an error. -/
def hasErrors (ds : List Diagnostic) : Bool :=
  ds.any (·.severity = .error)

/-- The highest severity among some diagnostics. -/
def highest? (ds : List Diagnostic) : Option Severity :=
  ds.foldl (fun best d => some (best.elim d.severity (·.max d.severity))) none

end Diagnostic

end SourceGen
