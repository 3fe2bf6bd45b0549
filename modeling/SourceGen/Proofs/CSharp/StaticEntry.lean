import SourceGen.CSharp.Unit

/-!
# Static entry points

A static entry point is a name. This module keeps the class or module that it is found in as well,
and the namespaces around that.

## Main definitions

* `CSharp.StaticHost`: a class or module in its namespaces.
* `CSharp.findStaticHost?`: the first one with a function of the name of the entry point.

## Main results

* `CSharp.findStaticEntryPoint?_eq_map`: a static entry point is the name of its host.
-/

namespace SourceGen

namespace CSharp

/-- A class, struct or module that may have an entry point among its members. -/
inductive EntryHost where
  | type (kind : TypeKind) (decl : TypeDecl)
  | module (decl : ModuleDecl)

namespace EntryHost

/-- The host as a statement. -/
def stmt : EntryHost → Stmt
  | type kind decl => .typeDecl kind decl
  | module decl => .moduleDecl decl

def name : EntryHost → String
  | type _ decl => decl.name
  | module decl => decl.name

def attributes : EntryHost → List Attribute
  | type _ decl => decl.attributes
  | module decl => decl.attributes

def members : EntryHost → List Stmt
  | type _ decl => decl.members
  | module decl => decl.members

/-- Only static functions of a class count, but all functions of a module. -/
def isEntry : EntryHost → Stmt → Bool
  | type _ _ => isEntryMember true
  | module _ => isEntryMember false

theorem name_of_isEntry (host : EntryHost) {kind : FunctionKind} {f : Function}
    (h : host.isEntry (.functionDecl kind f) = true) : f.name = CSharp.entryName := by
  cases host <;> exact beq_iff_eq.mp ((Bool.and_eq_true _ _).mp h).1

end EntryHost

/-- A host with the names of the namespaces around it, from the outermost on. -/
structure StaticHost where
  spaces : List String
  host : EntryHost

namespace StaticHost

/-- The host inside one more namespace. -/
def within (space : String) (s : StaticHost) : StaticHost :=
  { s with spaces := space :: s.spaces }

/-- The entry point in the host, seen from a namespace. -/
def entryPoint (space : String) (s : StaticHost) : String :=
  qualify (s.spaces.foldl qualify space) s.host.name ++ "." ++ entryName

end StaticHost

mutual

/-- The class or module in a statement that the static entry point is found in. -/
def staticHost? : Stmt → Option StaticHost
  | .namespaceDecl name decls => (findStaticHost? decls).map (·.within name)
  | .typeDecl .interface _ => none
  | .typeDecl kind decl =>
    if decl.members.any (isEntryMember true) then some ⟨[], .type kind decl⟩ else none
  | .moduleDecl decl =>
    if decl.members.any (isEntryMember false) then some ⟨[], .module decl⟩ else none
  | _ => none

/-- The first class or module in some statements that a static entry point is found in. -/
def findStaticHost? : List Stmt → Option StaticHost
  | [] => none
  | s :: ss =>
    match staticHost? s with
    | some found => some found
    | none => findStaticHost? ss

end

mutual

theorem staticEntryPoint?_eq_map (space : String) :
    ∀ s : Stmt, staticEntryPoint? space s = (staticHost? s).map (·.entryPoint space)
  | .namespaceDecl name decls => by
    rw [staticEntryPoint?, staticHost?, Option.map_map, findStaticEntryPoint?_eq_map _ decls]
    rfl
  | .typeDecl .interface _ => rfl
  | .typeDecl .cls ⟨_, _, _, _, _, _, decls⟩ | .typeDecl .struct ⟨_, _, _, _, _, _, decls⟩
  | .moduleDecl ⟨_, _, _, decls⟩ => by
    simp only [staticEntryPoint?, staticHost?]
    split <;> rfl
  | .importDecl _ | .includeDecl _ _ | .aliasDecl _ | .enumDecl _ | .functionDecl _ _
  | .fieldDecl _ | .propertyDecl _ | .binding _ | .ifThen _ _ _ | .whileLoop _ _
  | .forLoop _ _ _ _ | .forEach _ _ _ _ | .ret _ | .breakLoop | .continueLoop | .matchOn _ _
  | .switchOn _ _ | .expr _ | .raw _ => rfl

/-- A static entry point is the name of the host that it is found in. -/
theorem findStaticEntryPoint?_eq_map (space : String) :
    ∀ ss : List Stmt, findStaticEntryPoint? space ss = (findStaticHost? ss).map (·.entryPoint space)
  | [] => rfl
  | s :: ss => by
    rw [findStaticEntryPoint?, findStaticHost?, staticEntryPoint?_eq_map space s,
      findStaticEntryPoint?_eq_map space ss]
    cases staticHost? s <;> rfl

end

theorem findStaticHost?_eq_findSome? (ss : List Stmt) :
    findStaticHost? ss = ss.findSome? staticHost? := by
  induction ss with
  | nil => rfl
  | cons s ss ih =>
    rw [findStaticHost?, List.findSome?_cons, ih]
    cases staticHost? s <;> rfl

/-- The namespace around statements has a part in the name of an entry point only. -/
theorem findStaticEntryPoint?_eq_none_iff {space : String} {ss : List Stmt} :
    findStaticEntryPoint? space ss = none ↔ ∀ s ∈ ss, staticHost? s = none := by
  rw [findStaticEntryPoint?_eq_map, Option.map_eq_none_iff, findStaticHost?_eq_findSome?,
    List.findSome?_eq_none_iff]

end CSharp

end SourceGen
