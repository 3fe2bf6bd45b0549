import SourceGen.Compose.Include
import SourceGen.Diagnostic
import SourceGen.Text.Basic
import SourceGen.Tree.Basic

/-!
# Merging units

Several units become one. Imports are kept once by their key, aliases once by their name,
namespaces of one name are joined, and everything else is kept in order, grouped by kind.

## Main definitions

* `Import.key`: what makes two imports the same.
* `Merge`: the groups of a merged unit.
* `Program.merge`: the merged unit, with a warning for each alias that contradicts an earlier one.
-/

namespace SourceGen

/-- What makes two imports the same: the path, behind the alias if there is one. -/
def Import.key (d : Import) : String :=
  match d.localName with
  | some name => name ++ "=" ++ Text.join "." d.path
  | none => Text.join "." d.path

/-- The groups of a merged unit, in the order in which they are written. -/
structure Merge where
  imports : List Import := []
  aliases : List Alias := []
  namespaces : List (String × List Stmt) := []
  types : List Stmt := []
  functions : List Stmt := []
  members : List Stmt := []
  loose : List Stmt := []
  diagnostics : List Diagnostic := []

namespace Merge

/-- The warning about an alias that contradicts an earlier one of the same name. -/
def conflict (kept redefined : Alias) : Diagnostic :=
  (Diagnostic.warning ("conflicting redefinition of type alias `" ++ redefined.name ++
    "`; keeping `" ++ kept.target.display ++ "`")).withNote
    ("redefinition targets `" ++ redefined.target.display ++ "`")

/-- Adds an import, unless one with its key is there. -/
def addImport (m : Merge) (d : Import) : Merge :=
  if m.imports.any (·.key == d.key) then m else { m with imports := m.imports ++ [d] }

/-- Adds an alias, unless one with its name is there; a different target is worth a warning. -/
def addAlias (m : Merge) (d : Alias) : Merge :=
  match m.aliases.find? (·.name == d.name) with
  | some kept =>
    -- Only the targets are compared, not the generic parameters.
    if kept.target = d.target then m
    else { m with diagnostics := m.diagnostics ++ [conflict kept d] }
  | none => { m with aliases := m.aliases ++ [d] }

/-- Appends members to the namespace of the given name, which is added at the end if need be. -/
def joinNamespace (name : String) (members : List Stmt) :
    List (String × List Stmt) → List (String × List Stmt)
  | [] => [(name, members)]
  | (other, present) :: rest =>
    if other = name then (other, present ++ members) :: rest
    else (other, present) :: joinNamespace name members rest

/-- Adds a statement to its group. -/
def add (m : Merge) : Stmt → Merge
  | .importDecl d => m.addImport d
  | .aliasDecl d => m.addAlias d
  | .namespaceDecl name members =>
    { m with namespaces := joinNamespace name members m.namespaces }
  | .typeDecl kind d => { m with types := m.types ++ [.typeDecl kind d] }
  | .enumDecl d => { m with types := m.types ++ [.enumDecl d] }
  | .moduleDecl d => { m with types := m.types ++ [.moduleDecl d] }
  | .functionDecl kind d => { m with functions := m.functions ++ [.functionDecl kind d] }
  | .fieldDecl d => { m with members := m.members ++ [.fieldDecl d] }
  | .propertyDecl d => { m with members := m.members ++ [.propertyDecl d] }
  | s => { m with loose := m.loose ++ [s] }

/-- The merged groups of some statements, from a given start. -/
def addAll (m : Merge) (stmts : List Stmt) : Merge :=
  stmts.foldl add m

/-- The statements of a merged unit, group after group. -/
def stmts (m : Merge) : List Stmt :=
  m.imports.map .importDecl ++ m.aliases.map .aliasDecl ++
    m.namespaces.map (fun (name, members) => .namespaceDecl name members) ++
    m.types ++ m.functions ++ m.members ++ m.loose

end Merge

/-- The groups of several units, with their includes opened. -/
def Program.mergeGroups (programs : List Program) : Merge :=
  Merge.addAll {} (programs.flatMap fun p => Stmt.flattenAll p.stmts)

/-- Several units as one, and the warnings about contradicting aliases. -/
def Program.merge (programs : List Program) : Program × List Diagnostic :=
  let groups := Program.mergeGroups programs
  (⟨groups.stmts⟩, groups.diagnostics)

end SourceGen
