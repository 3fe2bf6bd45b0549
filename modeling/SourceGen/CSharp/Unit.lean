import SourceGen.Compose.Include
import SourceGen.Compose.Sections
import SourceGen.CSharp.Declaration
import SourceGen.Generated
import SourceGen.Layout.Render

/-!
# C# units

The layout of a whole C# unit. Code outside any type goes into an implicit class in an implicit
namespace, the entry function becomes `Main` there, and the directives at the top are written last,
when everything the code needs is known.

## Main definitions

* `CSharp.unitCode`: the code of a unit and its entry point.
* `CSharp.header`: the directives.
* `CSharp.generate`: the finished unit.
-/

namespace SourceGen

namespace CSharp

open Fragment (text)

/-- Definitions of the builtins, for units that call them by their own names. -/
def shims : String :=
  Text.join "\n"
    ["static void print(params object[] values) => Console.WriteLine(string.Join(\" \", values));",
     "static int len(System.Collections.IEnumerable items) \x7b var n = 0; foreach (var _ in " ++
       "items) n++; return n; \x7d",
     "static int len(string text) => text.Length;",
     "static string str(object value) => Convert.ToString(value);",
     "static dynamic abs(dynamic value) => Math.Abs(value);",
     "static dynamic min(dynamic a, dynamic b) => Math.Min(a, b);",
     "static dynamic max(dynamic a, dynamic b) => Math.Max(a, b);",
     "static double sqrt(double value) => Math.Sqrt(value);"]

/-! ### Static entry points -/

/-- A name inside a namespace. -/
def qualify (space name : String) : String :=
  if space.isEmpty then name else space ++ "." ++ name

/-- The member is a callable with the name of the entry point. -/
def isEntryMember (needsStatic : Bool) : Stmt → Bool
  | .functionDecl _ f =>
    f.name == entryName && (!needsStatic || f.isStatic || f.hasModifier .static)
  | _ => false

mutual

/-- The entry point that a statement declares in a class or module. -/
def staticEntryPoint? (space : String) : Stmt → Option String
  | .namespaceDecl name decls => findStaticEntryPoint? (qualify space name) decls
  | .typeDecl .interface _ => none
  | .typeDecl _ ⟨name, _, _, _, _, _, decls⟩ =>
    if decls.any (isEntryMember true) then some (qualify space name ++ "." ++ entryName) else none
  | .moduleDecl ⟨name, _, _, decls⟩ =>
    if decls.any (isEntryMember false) then some (qualify space name ++ "." ++ entryName) else none
  | _ => none

/-- The first entry point that some statements declare in a class or module. -/
def findStaticEntryPoint? (space : String) : List Stmt → Option String
  | [] => none
  | s :: ss =>
    match staticEntryPoint? space s with
    | some found => some found
    | none => findStaticEntryPoint? space ss

end

/-! ### The implicit class -/

/-- The scope of the members of the implicit class. -/
def implicitScope (config : Config) : Scope :=
  { Scope.ofType config.implicitClass [] with inStatic := true }

/-- The functions of the implicit class. The first one with the entry name becomes the entry point
and runs the loose statements first; the flag says whether it was really written. -/
def implicitFunctions (env : Env) (loose : List Stmt) (entrySeen : Bool) :
    List Function → Gen (List Code × Bool)
  | [] => return ([], false)
  | f :: fs => do
    let scope := implicitScope env.config
    if !entrySeen && f.name == env.config.entryName then
      if !loose.isEmpty then
        Gen.report ((Diagnostic.info (toString loose.length ++
          " top-level statement(s) moved into `" ++ f.name ++ "`")).withContext target.id)
      let returnsValue := f.body.any Stmt.anyReturnsValue || Stmt.anyReturnsValue loose
      let options : FunctionOptions :=
        { name := some entryName
          returns := if f.returnType.isNone && returnsValue then some "int" else none
          forceStatic := true }
      let code ← function env scope options (fun inner => stmts env inner none loose) f
      let (rest, _) ← implicitFunctions env loose true fs
      -- A marked function is skipped, and the loose statements with it.
      return (.separator :: code ++ rest, f.marker.isNone)
    else
      let code ← function env scope { forceStatic := true } (fun _ => return []) f
      let (rest, written) ← implicitFunctions env loose entrySeen fs
      return (.separator :: code ++ rest, written)

/-- The entry point made of loose statements alone. -/
def looseEntry (env : Env) (loose : List Stmt) : Gen (List Code) := do
  let returns := if Stmt.anyReturnsValue loose then "int" else "void"
  let body ← stmts env (implicitScope env.config) none loose
  return [.separator,
    .block .function (text ("public static " ++ returns ++ " " ++ entryName ++ "()")) body ""]

/-- The implicit class with all loose code, and the entry point in it. -/
def implicitContainer (env : Env) (sections : Sections) : Gen (List Code × Option String) := do
  let config := env.config
  let helpers : List Code ←
    if config.emitShims then do
      Gen.requireImport systemNamespace
      pure [.verbatim shims]
    else pure []
  let fields ← members env (implicitScope config) .module sections.members
  let (functions, written) ← implicitFunctions env sections.loose false sections.functions
  let synthesized := (sections.entry? config.entryName).isNone && !sections.loose.isEmpty
  let entry ← if synthesized then looseEntry env sections.loose else pure []
  let body := helpers ++ fields ++ functions ++ entry
  let cls : Code := .block .plain (text ("public class " ++ config.implicitClass)) body ""
  let space : Code := .block .plain (text ("namespace " ++ config.implicitNamespace)) [cls] ""
  let name := config.implicitNamespace ++ "." ++ config.implicitClass ++ "." ++ entryName
  return ([space], if written || synthesized then some name else none)

/-! ### The unit -/

/-- The code of a unit without its directives, and its entry point. -/
def unitCode (env : Env) (stmts : List Stmt) (sections : Sections) :
    Gen (List Code × Option String) := do
  let raws ← target.separatedRawCodes sections.raw
  let containers ← separated env sections.containers
  let (implicit, implicitEntry) ←
    if sections.hasLooseCode then do
      let (code, entry) ← implicitContainer env sections
      pure (.separator :: code, entry)
    else pure ([], none)
  let entry := implicitEntry <|> findStaticEntryPoint? "" stmts
  if entry.isNone && env.config.isExecutable then
    Gen.fail (.missingEntryPoint target.id env.config.entryName)
  return (raws ++ containers ++ implicit, entry)

/-- The directives for aliased imports. -/
def importAliases (imports : List Import) : List String :=
  imports.filterMap fun d => d.localName.map fun name =>
    "using " ++ name ++ " = " ++ Text.join "." d.path ++ ";"

/-- The directives for type aliases; there is none for a generic one. -/
def typeAliases (env : Env) : List Alias → Gen (List String)
  | [] => return []
  | d :: ds => do
    if d.generics.isEmpty then
      let spelling ← mapType env {} d.target
      return ("using " ++ d.name ++ " = " ++ spelling ++ ";") :: (← typeAliases env ds)
    else
      Gen.report ((Diagnostic.warning ("generic type alias `" ++ d.name ++
        "` has no C# equivalent; skipped")).withContext target.id)
      typeAliases env ds

/-- The directives at the top: sorted imports, then aliases behind a blank line. -/
def header (env : Env) (sections : Sections) : Gen String := do
  -- An import under another name becomes an alias further down.
  for d in sections.imports do
    if d.localName.isNone then
      Gen.requireImport (Text.join "." d.path)
  let aliases := importAliases sections.imports ++ (← typeAliases env sections.aliases)
  let imports := (← get).imports
  let usings := String.join (imports.map fun name => "using " ++ name ++ ";\n")
  let gap := if aliases.isEmpty || imports.isEmpty then "" else "\n"
  return usings ++ gap ++ String.join (aliases.map (· ++ "\n"))

/-- How C# is laid out: an opening brace has a line of its own. -/
def layoutStyle (config : Config) : LayoutStyle :=
  ⟨config.indentWidth, .nextLine⟩

/-- The finished unit of a program. -/
def generate (config : Config) (resolver : TypeResolver) (program : Program) : Gen Generated := do
  let stmts := Stmt.flattenAll program.stmts
  if let some (outer, inner) := Stmt.findNestedType? stmts then
    Gen.fail (.nestedType outer inner)
  let env : Env := ⟨config, KnownTypes.collect stmts, resolver⟩
  let sections := Sections.of stmts
  let (code, entry) ← unitCode env stmts sections
  let body := Code.render (layoutStyle config) code
  -- The aliases at the top may need imports as well, so the imports are read after them.
  let top ← header env sections
  let imports := (← get).imports
  return ⟨if top.isEmpty then body else top ++ "\n" ++ body, imports, entry⟩

end CSharp

end SourceGen
