import SourceGen.Config
import SourceGen.Text.Basic

/-!
# Arguments

Reads the arguments of a call. Options may stand before, between and after the inputs; two dashes
end them. The first argument that is refused decides, so a request for help counts only when
nothing before it is wrong.

## Main definitions

* `Word.of`: an argument as a long option, a short option, the end of options or a plain word.
* `Draft.read`: the options and inputs of the `emit` command.
* `Command.parse`: the command of a call.
-/

namespace SourceGen

/-- Why a call runs no command. -/
inductive Refusal where
  | help | version | usage
  deriving DecidableEq, Repr

/-- Asking for help or the version is no mistake. -/
def Refusal.exitCode : Refusal → Nat
  | help | version => 0
  | usage => 2

/-- The form of an argument. -/
inductive Word where
  | endOfOptions
  | long (name : List Char) (value : Option (List Char))
  | short (letter : Char) (attached : List Char)
  | plain
  deriving DecidableEq, Repr

namespace Word

/-- The value behind an equals sign. -/
def valueOf : List Char → Option (List Char)
  | '=' :: value => some value
  | _ => none

/-- The form of an argument; a single dash is a plain word. -/
def of : List Char → Word
  | ['-', '-'] => endOfOptions
  | '-' :: '-' :: cs => long (cs.takeWhile (· != '=')) (valueOf (cs.dropWhile (· != '=')))
  | '-' :: c :: cs => short c cs
  | _ => plain

/-- The argument cannot be mistaken for an option. -/
def isPlain (arg : String) : Bool :=
  of arg.toList == plain

end Word

/-- The options of the `emit` command. -/
inductive EmitOption where
  | target | kind | format | shims | output | help
  deriving DecidableEq, Repr

namespace EmitOption

/-- The option with a long name. -/
def ofLong? (name : List Char) : Option EmitOption :=
  match String.ofList name with
  | "target" => some target
  | "kind" => some kind
  | "format" => some format
  | "shims" => some shims
  | "output" => some output
  | "help" => some help
  | _ => none

/-- The option with a letter. -/
def ofLetter? : Char → Option EmitOption
  | 't' => some target
  | 'o' => some output
  | 'h' => some help
  | _ => none

/-- The option comes with a value. -/
def takesValue : EmitOption → Bool
  | target | kind | output => true
  | format | shims | help => false

/-- The value that is attached to a letter; an equals sign before it is dropped. -/
def attached? : List Char → Option String
  | [] => none
  | '=' :: cs => some (String.ofList cs)
  | cs => some (String.ofList cs)

/-- The option that an argument names, with the value that it holds. -/
def of? : Word → Option (EmitOption × Option String)
  | .long name value => (ofLong? name).map (·, value.map String.ofList)
  | .short letter text =>
    (ofLetter? letter).map fun o => (o, if o.takesValue then attached? text else none)
  | .endOfOptions | .plain => none

end EmitOption

/-- What is asked of the `emit` command. -/
structure EmitRequest where
  target : String
  kind : OutputKind
  format : Bool
  shims : Bool
  /-- The file to write; without one the unit is printed. -/
  output : Option String
  /-- The tree files, at least one. -/
  inputs : List String
  deriving DecidableEq, Repr

/-- What has been read of the arguments of the `emit` command. -/
structure Draft where
  target : Option String := none
  kind : Option OutputKind := none
  format : Bool := false
  shims : Bool := false
  output : Option String := none
  inputs : List String := []
  deriving DecidableEq, Repr

namespace Draft

/-- A path, which must not be empty. -/
def path (text : String) : Except Refusal String :=
  if text == "" then .error .usage else .ok text

/-- The kind of unit with a name. -/
def kindOf : String → Except Refusal OutputKind
  | "exe" => .ok .executable
  | "lib" => .ok .library
  | _ => .error .usage

/-- Fills a place that must still be free. -/
def fill {α : Type} (place : Option α) (value : α) : Except Refusal (Option α) :=
  if place.isSome then .error .usage else .ok (some value)

/-- Sets a switch that must still be off. -/
def turnOn (switch : Bool) : Except Refusal Bool :=
  if switch then .error .usage else .ok true

/-- Adds an input. -/
def addInput (d : Draft) (input : String) : Except Refusal Draft := do
  return { d with inputs := d.inputs ++ [← path input] }

/-- Gives an option its value. -/
def set (d : Draft) (option : EmitOption) (value : String) : Except Refusal Draft :=
  match option with
  | .target => do return { d with target := ← fill d.target value }
  | .kind => do return { d with kind := ← fill d.kind (← kindOf value) }
  | .output => do return { d with output := ← fill d.output (← path value) }
  | .format | .shims | .help => .error .usage

/-- Takes an option without a value. -/
def raise (d : Draft) : EmitOption → Except Refusal Draft
  | .format => do return { d with format := ← turnOn d.format }
  | .shims => do return { d with shims := ← turnOn d.shims }
  | .help => .error .help
  | .target | .kind | .output => .error .usage

/-- Reads the arguments that follow. -/
def read (d : Draft) : List String → Except Refusal Draft
  | [] => .ok d
  | arg :: rest =>
    match Word.of arg.toList, EmitOption.of? (Word.of arg.toList) with
    | .endOfOptions, _ => rest.foldlM addInput d
    | .plain, _ => do (← d.addInput arg).read rest
    | _, none => .error .usage
    | _, some (option, some value) => do (← d.set option value).read rest
    | _, some (option, none) =>
      if option.takesValue then
        match rest with
        | value :: rest =>
          -- A value that looks like an option must be attached to its option.
          if Word.isPlain value then do (← d.set option value).read rest else .error .usage
        | [] => .error .usage
      else do (← d.raise option).read rest

/-- The finished request: an input is needed, and what was not given has its default. -/
def finish (d : Draft) : Except Refusal EmitRequest :=
  if d.inputs.isEmpty then .error .usage
  else .ok
    { target := d.target.getD "csharp"
      kind := d.kind.getD .executable
      format := d.format
      shims := d.shims
      output := d.output
      inputs := d.inputs }

end Draft

/-- What a call asks for. -/
inductive Command where
  | emit (request : EmitRequest)
  | targets
  deriving DecidableEq, Repr

namespace Command

/-- The names that come first in a call. -/
def names : List String :=
  ["emit", "targets", "help"]

/-- Help is asked for about at most one name. -/
def parseHelp : List String → Refusal
  | [] => .help
  | [name] => if names.contains name then .help else .usage
  | _ => .usage

/-- Listing the targets takes no arguments. -/
def parseTargets : List String → Except Refusal Command
  | [] => .ok targets
  | arg :: rest =>
    match Word.of arg.toList with
    | .endOfOptions => if rest.isEmpty then .ok targets else .error .usage
    | .long name none => .error (if String.ofList name == "help" then .help else .usage)
    | .short 'h' _ => .error .help
    | _ => .error .usage

/-- What is asked for in front of any command. -/
def parseLeading (arg : String) : Refusal :=
  match Word.of arg.toList with
  | .long name none =>
    match String.ofList name with
    | "help" => .help
    | "version" => .version
    | _ => .usage
  | .short 'h' _ => .help
  | .short 'V' _ => .version
  | _ => .usage

/-- The command of a call. -/
def parse : List String → Except Refusal Command
  | [] => .error .usage
  | "emit" :: args => do return emit (← (← Draft.read {} args).finish)
  | "targets" :: args => parseTargets args
  | "help" :: args => .error (parseHelp args)
  | arg :: _ => .error (parseLeading arg)

end Command

end SourceGen
