import SourceGen.Compose.Sections
import SourceGen.Config
import SourceGen.Tree.Kind
import SourceGen.Vocabulary.Marker

/-!
# Events in a tree

What a generator meets in a tree that shows outside the code it writes: raw blocks for a target, and
declarations where none may stand. The search for the targets of raw blocks looks at the same
blocks, but not into expressions and accessors, so an event says whether it stands in one.

## Main definitions

* `Event`: a raw block for a target, or a refusal.
* `Expr.events`, `Stmt.allEvents`: the events of expressions and statements.
* `Function.events`: the events of a function, with something ahead of its own body.
* `Sections.codeEvents`: the events of the functions and the loose statements of a unit.
-/

namespace SourceGen

/-- Something in a tree that shows outside the code that is written for it. -/
inductive Event where
  /-- A raw block for a target; it is hidden if it stands in an expression or in an accessor. -/
  | raw (target : String) (hidden : Bool)
  /-- A declaration where none may stand. -/
  | refusal
  deriving DecidableEq, Repr

/-- The event inside an expression or an accessor. -/
def Event.hide : Event → Event
  | raw target _ => raw target true
  | refusal => refusal

/-- The event of a raw block, if it is written for a target. -/
def RawBlock.events : RawBlock → List Event
  | ⟨some target, _⟩ => [.raw target false]
  | ⟨none, _⟩ => []

section

-- Whether the default values of parameters are written.
variable (defaults : Bool)

mutual

/-- The events of an expression; all of them are hidden. -/
def Expr.events : Expr → List Event
  | .literal _ | .ident _ | .path _ | .this => []
  | .member object _ => object.events
  | .index object i => object.events ++ i.events
  | .binary left _ right => left.events ++ right.events
  | .unary _ operand _ => operand.events
  | .assign target _ value => target.events ++ value.events
  | .call callee args => callee.events ++ Expr.allEvents args
  | .construct _ args => Expr.allEvents args
  | .array elements _ => Expr.allEvents elements
  | .lambda _ body => body.events.map Event.hide
  | .range start stop _ => Expr.optionEvents start ++ Expr.optionEvents stop
  | .block block => (Stmt.allEvents block).map Event.hide
  | .matchOn scrutinee arms => scrutinee.events ++ (MatchArm.allEvents arms).map Event.hide

/-- The events of expressions. -/
def Expr.allEvents : List Expr → List Event
  | [] => []
  | e :: es => e.events ++ Expr.allEvents es

/-- The events of an optional expression. -/
def Expr.optionEvents : Option Expr → List Event
  | none => []
  | some e => e.events

/-- The events of an expression or a block. -/
def Body.events : Body → List Event
  | .expr value => value.events
  | .block block => Stmt.allEvents block

/-- The events of a pattern. -/
def Pattern.events : Pattern → List Event
  | .default => []
  | .values values => Expr.allEvents values

/-- The events of the arms of a match. -/
def MatchArm.allEvents : List MatchArm → List Event
  | [] => []
  | ⟨pattern, result⟩ :: arms => pattern.events ++ (result.events ++ MatchArm.allEvents arms)

/-- The events of the cases of a switch. -/
def SwitchCase.allEvents : List SwitchCase → List Event
  | [] => []
  | ⟨pattern, body⟩ :: cases =>
    pattern.events ++ (Stmt.allEvents body ++ SwitchCase.allEvents cases)

/-- The events of a statement. -/
def Stmt.events : Stmt → List Event
  | .binding decl => decl.events
  | .ifThen condition thenBranch elseBranch =>
    condition.events ++ (Stmt.allEvents thenBranch ++ Stmt.blockEvents elseBranch)
  | .whileLoop condition body => condition.events ++ Stmt.allEvents body
  | .forLoop start condition step body =>
    Stmt.startEvents start ++ (Expr.optionEvents condition ++
      (Expr.optionEvents step ++ Stmt.allEvents body))
  | .forEach _ _ iterable body => iterable.events ++ Stmt.allEvents body
  | .ret value => Expr.optionEvents value
  | .matchOn scrutinee arms => scrutinee.events ++ MatchArm.allEvents arms
  | .switchOn subject cases => subject.events ++ SwitchCase.allEvents cases
  | .expr value => value.events
  | .raw block => block.events
  | .functionDecl _ decl => decl.events []
  | .typeDecl _ _ | .enumDecl _ => [.refusal]
  | .importDecl _ | .includeDecl _ _ | .aliasDecl _ | .namespaceDecl _ _ | .moduleDecl _
  | .fieldDecl _ | .propertyDecl _ | .breakLoop | .continueLoop => []

/-- The events of statements. -/
def Stmt.allEvents : List Stmt → List Event
  | [] => []
  | s :: ss => s.events ++ Stmt.allEvents ss

/-- The events of an optional block. -/
def Stmt.blockEvents : Option (List Stmt) → List Event
  | none => []
  | some block => Stmt.allEvents block

/-- The events of a variable. -/
def Binding.events : Binding → List Event
  | ⟨_, _, value, _⟩ => Expr.optionEvents value

/-- The events of the first clause of a counted loop. -/
def Stmt.startEvents : Option Stmt → List Event
  | none => []
  | some (.binding decl) => decl.events
  | some (.expr value) => value.events
  | some _ => []

/-- The events of attributes, not counting markers. -/
def Attribute.allEvents : List Attribute → List Event
  | [] => []
  | ⟨name, args⟩ :: attributes =>
    if (Marker.ofName? name).isSome then Attribute.allEvents attributes
    else Expr.allEvents args ++ Attribute.allEvents attributes

/-- The events of the default values of parameters. -/
def Parameter.allEvents : List Parameter → List Event
  | [] => []
  | ⟨_, _, default⟩ :: params => Expr.optionEvents default ++ Parameter.allEvents params

/-- The events of a function with something ahead of its own body. Marked functions and functions
with a qualified name are not written. -/
def Function.events (before : List Event) : Function → List Event
  | ⟨name, params, _, _, _, attributes, body, _, _⟩ =>
    if (Marker.of? attributes).isSome then []
    else if Text.hasChar '.' name then []
    else
      Attribute.allEvents attributes ++
        ((if defaults then Parameter.allEvents params else []) ++ Stmt.bodyEvents before body)

/-- The events of the body of a function; nothing stands ahead of a body that is not there. -/
def Stmt.bodyEvents (before : List Event) : Option (List Stmt) → List Event
  | none => []
  | some body => before ++ Stmt.allEvents body

end

/-- What is written with its attributes has events only without a marker. -/
def unmarkedEvents (attributes : List Attribute) (events : List Event) : List Event :=
  if (Marker.of? attributes).isSome then [] else Attribute.allEvents defaults attributes ++ events

/-- The events of the initializer of a field. -/
def Field.events (f : Field) : List Event :=
  Expr.optionEvents defaults f.initializer

/-- The events of an accessor. -/
def Accessor.events (a : Accessor) : List Event :=
  (Stmt.blockEvents defaults a.body).map Event.hide

/-- The events of a property: without accessor bodies those of its initializer. -/
def Property.events (p : Property) : List Event :=
  if p.isAuto then Expr.optionEvents defaults p.initializer
  else p.accessors.flatMap (Accessor.events defaults)

/-- The events of the values of an enum. -/
def EnumDecl.events (d : EnumDecl) : List Event :=
  d.variants.flatMap fun v => Expr.optionEvents defaults v.value

/-- The events of some functions. The first one with the entry name runs the loose statements. -/
def Function.allEvents (entryName : String) (loose : List Stmt) (entrySeen : Bool) :
    List Function → List Event
  | [] => []
  | f :: fs =>
    if !entrySeen && f.name == entryName then
      f.events defaults (Stmt.allEvents defaults loose) ++
        Function.allEvents entryName loose true fs
    else f.events defaults [] ++ Function.allEvents entryName loose entrySeen fs

/-- The events of the functions and the loose statements of a unit. -/
def Sections.codeEvents (sections : Sections) (entryName : String) : List Event :=
  Function.allEvents defaults entryName sections.loose false sections.functions ++
    if (sections.entry? entryName).isNone then Stmt.allEvents defaults sections.loose else []

end

/-- The functions and the loose statements of a unit make up an entry point: the function with the
entry name is written, or there is none and there are loose statements. -/
def Sections.hasEntry (sections : Sections) (entryName : String) : Bool :=
  (sections.entry? entryName).elim (!sections.loose.isEmpty) (·.marker.isNone)

/-- An executable without an entry point is refused. -/
def Config.missingEvents (config : Config) (hasEntry : Bool) : List Event :=
  if !hasEntry && config.isExecutable then [.refusal] else []

end SourceGen
