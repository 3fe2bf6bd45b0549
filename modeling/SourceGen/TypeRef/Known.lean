import SourceGen.Tree.Basic

/-!
# Declared type names

The names of the types that a unit declares, wherever it declares them: in namespaces, modules,
includes and type members.

## Main definitions

* `KnownTypes`: the names, and which of them are interfaces.
* `KnownTypes.collect`: the names declared by some statements.
-/

namespace SourceGen

/-- The type names of a unit, each once, and those among them that name interfaces. -/
structure KnownTypes where
  types : List String := []
  interfaces : List String := []

namespace KnownTypes

/-- Adds a type name. -/
def insert (known : KnownTypes) (name : String) : KnownTypes :=
  { known with types := known.types.insert name }

/-- Adds the name of an interface. -/
def insertInterface (known : KnownTypes) (name : String) : KnownTypes :=
  ⟨known.types.insert name, known.interfaces.insert name⟩

/-- The name is declared. -/
def contains (known : KnownTypes) (name : String) : Bool :=
  known.types.contains name

/-- The name is declared as an interface. -/
def isInterface (known : KnownTypes) (name : String) : Bool :=
  known.interfaces.contains name

/-- The number of declared names. -/
def size (known : KnownTypes) : Nat :=
  known.types.length

theorem nodup_insert {known : KnownTypes} (h : known.types.Nodup) (name : String) :
    (known.insert name).types.Nodup := by
  simp only [insert, List.insert]
  split <;> simp_all

theorem contains_insert (known : KnownTypes) (name other : String) :
    (known.insert name).contains other = (decide (other = name) || known.contains other) := by
  simp [insert, contains]

mutual

/-- Adds the names that a statement declares. -/
def scan (known : KnownTypes) : Stmt → KnownTypes
  | .typeDecl .interface ⟨name, _, _, _, _, _, _⟩ => known.insertInterface name
  | .typeDecl _ ⟨name, _, _, _, _, _, members⟩ => scanAll (known.insert name) members
  | .enumDecl ⟨name, _, _, _⟩ => known.insert name
  | .aliasDecl decl => known.insert decl.name
  | .namespaceDecl _ members => scanAll known members
  | .moduleDecl ⟨_, _, _, members⟩ => scanAll known members
  | .includeDecl _ stmts => scanAll known stmts
  | _ => known

/-- Adds the names that some statements declare. -/
def scanAll (known : KnownTypes) : List Stmt → KnownTypes
  | [] => known
  | s :: ss => scanAll (scan known s) ss

end

/-- The names declared by some statements. -/
def collect (stmts : List Stmt) : KnownTypes :=
  scanAll {} stmts

end KnownTypes

end SourceGen
