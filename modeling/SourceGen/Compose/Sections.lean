import SourceGen.Tree.Basic

/-!
# Sections of a unit

The top-level statements of a unit by role. Each statement but an include is in exactly one
section, and each section keeps the order of the unit.

## Main definitions

* `Sections`: the statements of a unit by role.
* `Sections.of`: the sections of some statements.
* `Sections.entry?`: the entry function.
-/

namespace SourceGen

/-- The top-level statements of a unit by role. -/
structure Sections where
  imports : List Import := []
  aliases : List Alias := []
  /-- Namespaces, types and modules. -/
  containers : List Stmt := []
  functions : List Function := []
  /-- Fields and properties outside any type. -/
  members : List Stmt := []
  /-- Raw blocks, which stay outside any implicit container. -/
  raw : List RawBlock := []
  /-- Everything else: code to run. -/
  loose : List Stmt := []

namespace Sections

/-- Puts a statement in front of its section. -/
def cons (s : Stmt) (sections : Sections) : Sections :=
  match s with
  | .importDecl decl => { sections with imports := decl :: sections.imports }
  | .aliasDecl decl => { sections with aliases := decl :: sections.aliases }
  | .namespaceDecl _ _ | .typeDecl _ _ | .enumDecl _ | .moduleDecl _ =>
    { sections with containers := s :: sections.containers }
  | .functionDecl _ decl => { sections with functions := decl :: sections.functions }
  | .fieldDecl _ | .propertyDecl _ => { sections with members := s :: sections.members }
  | .raw block => { sections with raw := block :: sections.raw }
  | .includeDecl _ _ => sections
  | _ => { sections with loose := s :: sections.loose }

/-- The sections of some statements; includes are skipped. -/
def of (stmts : List Stmt) : Sections :=
  stmts.foldr cons {}

/-- Something needs an implicit container around it. -/
def hasLooseCode (sections : Sections) : Bool :=
  !sections.functions.isEmpty || !sections.members.isEmpty || !sections.loose.isEmpty

/-- The first function with the given name. -/
def entry? (sections : Sections) (entryName : String) : Option Function :=
  sections.functions.find? (·.name == entryName)

end Sections

end SourceGen
