import SourceGen.Proofs.CSharp.EntryPart
import SourceGen.Proofs.CSharp.UnitAlike
import SourceGen.Proofs.EntrySource
import SourceGen.Proofs.UnitSections

/-!
# Definitions of C# entry points

What is written for the source of an entry point stands at the place that the entry point names. But
it is a definition only if nothing on the way to the function is left out, and if the function has a
body and is no constructor.

## Main definitions

* `Code.Inside`: code inside blocks with given headers.
* `CSharp.WritesEntry`: the code is written for the source of an entry point.
* `CSharp.DefinesEntry`: the code defines the entry point.

## Main results

* `CSharp.entryPoint?_eq_map`: the entry point is the name of its source.
* `CSharp.exists_inside_unitCode`: what is written for the source stands where its name says.
* `CSharp.definesEntry_iff`: when that is a definition.
-/

namespace SourceGen

/-! ### Code inside blocks -/

/-- The part stands in the code, inside blocks with the given headers. -/
def Code.Inside (part : List Code) : List Fragment → List Code → Prop
  | [], code => ∃ before after, code = before ++ part ++ after
  | head :: heads, code => ∃ inner, .block .plain head inner "" ∈ code ∧ Inside part heads inner

theorem Code.Inside.append {part code : List Code} {heads : List Fragment}
    (h : Inside part heads code) (before after : List Code) :
    Inside part heads (before ++ code ++ after) := by
  cases heads with
  | nil =>
    obtain ⟨ahead, behind, rfl⟩ := h
    exact ⟨before ++ ahead, behind ++ after, by simp⟩
  | cons head heads =>
    obtain ⟨inner, hinner, h⟩ := h
    exact ⟨inner, by simp [hinner], h⟩

theorem Code.Inside.refl (code : List Code) : Inside code [] code :=
  ⟨[], [], by simp⟩

namespace CSharp

open Fragment (text)

variable {env : Env} {i j k : Journal} {code part own : List Code}

/-! ### Functions -/

/-- The function is written as a definition of its name: with a body, and not as a constructor. -/
def isDefinition (f : Function) : Bool :=
  f.isHost && !f.isConstructor

/-- The code defines the entry point: it is a function of that name, below lines. -/
def DefinesMain (code : List Code) : Prop :=
  ∃ (lines : List Code) (head : Fragment) (body : List Code),
    code = lines ++ [.block .function head body ""] ∧ lines.all Code.isLine = true ∧
      NamesFunction entryName head

/-- The code is what is written for a function, and it defines the entry point. -/
def FunctionDefines (env : Env) (f : Function) (own : List Code) : Prop :=
  f.isConstructor = false ∧ DefinesMain own ∧
    ∃ (scope : Scope) (options : FunctionOptions) (prologue : Scope → Gen (List Code))
      (i k : Journal), (function env scope options prologue f).Yields i own k

/-- Only lines and functions are written for functions, and no line is a function. -/
theorem not_definesMain_of_all (h : code.all Code.isLine = true) : ¬ DefinesMain code := by
  rintro ⟨lines, head, body, rfl, -⟩
  simp [Code.isLine] at h

theorem isDefinition_of_defines {f : Function} (h : FunctionDefines env f own) :
    isDefinition f = true := by
  obtain ⟨hnot, hdefines, scope, options, prologue, i, k, hown⟩ := h
  obtain ⟨-, rfl⟩ | ⟨hwritten, lines, body, inner, head, j, hlines, rfl, hbody⟩ :=
    yields_function hown
  · exact absurd hdefines (not_definesMain_of_all rfl)
  · cases hf : f.body with
    | none =>
      rw [hf, functionBody] at hbody
      obtain ⟨rfl, -⟩ := Gen.yields_pure.mp hbody
      refine absurd hdefines (not_definesMain_of_all ?_)
      rw [List.all_append, hlines]
      rfl
    | some body => simp [isDefinition, Function.isHost, hwritten, hf, hnot]

theorem functionDefines_of_yields {f : Function} {scope : Scope} {options : FunctionOptions}
    {prologue : Scope → Gen (List Code)} (hname : options.name.getD f.name = entryName)
    (hf : isDefinition f = true)
    (h : (function env scope options prologue f).Yields i own k) : FunctionDefines env f own := by
  obtain ⟨hhost, hnot⟩ : f.isHost = true ∧ f.isConstructor = false := by
    simpa [isDefinition] using hf
  obtain ⟨hwritten, hsome⟩ : (f.marker.isNone && !Text.hasChar '.' f.name) = true ∧
      f.body.isSome = true := by
    simpa [Function.isHost] using hhost
  refine ⟨hnot, ?_, scope, options, prologue, i, k, h⟩
  obtain ⟨hskipped, -⟩ | ⟨-, lines, body, inner, head, j, hlines, rfl, hbody, hhead⟩ :=
    yields_function_head h
  · simp [hwritten] at hskipped
  · obtain ⟨stmts, hstmts⟩ := Option.isSome_iff_exists.mp hsome
    rw [hstmts, functionBody] at hbody
    obtain ⟨before, i₁, -, hbody⟩ := Gen.yields_bind.mp hbody
    obtain ⟨after, i₂, -, hbody⟩ := Gen.yields_bind.mp hbody
    obtain ⟨rfl, -⟩ := Gen.yields_pure.mp hbody
    exact ⟨lines, head, before ++ after, rfl, hlines, hname ▸ hhead hnot⟩

/-! ### Hosts of static entry points -/

/-- The header of a namespace. -/
def spaceHead (name : String) : Fragment :=
  text ("namespace " ++ name)

mutual

theorem exists_inside_member :
    ∀ (s : Stmt) {found : StaticHost} {i k : Journal} {code : List Code},
      staticHost? s = some found → (member env {} .space s).Yields i code k →
        ∃ (part : List Code) (i' k' : Journal),
          Code.Inside part (found.spaces.map spaceHead) code ∧
            (member env {} .space found.host.stmt).Yields i' part k'
  | .namespaceDecl name decls, found, i, k, code, hfound, h => by
    rw [staticHost?, Option.map_eq_some_iff] at hfound
    obtain ⟨inside, hinside, rfl⟩ := hfound
    rw [member, if_pos rfl] at h
    obtain ⟨inner, i₁, hinner, h⟩ := Gen.yields_bind.mp h
    obtain ⟨rfl, -⟩ := Gen.yields_pure.mp h
    obtain ⟨part, i', k', hpart, hyields⟩ := exists_inside_separated decls hinside hinner
    exact ⟨part, i', k', ⟨inner, List.mem_singleton.mpr rfl, hpart⟩, hyields⟩
  | .typeDecl .cls decl, found, i, k, code, hfound, h
  | .typeDecl .struct decl, found, i, k, code, hfound, h
  | .moduleDecl decl, found, i, k, code, hfound, h => by
    simp only [staticHost?] at hfound
    split at hfound
    · cases hfound
      exact ⟨code, i, k, .refl code, h⟩
    · cases hfound
  | .typeDecl .interface _, _, _, _, _, hfound, _
  | .importDecl _, _, _, _, _, hfound, _ | .includeDecl _ _, _, _, _, _, hfound, _
  | .aliasDecl _, _, _, _, _, hfound, _ | .enumDecl _, _, _, _, _, hfound, _
  | .functionDecl _ _, _, _, _, _, hfound, _ | .fieldDecl _, _, _, _, _, hfound, _
  | .propertyDecl _, _, _, _, _, hfound, _ | .binding _, _, _, _, _, hfound, _
  | .ifThen _ _ _, _, _, _, _, hfound, _ | .whileLoop _ _, _, _, _, _, hfound, _
  | .forLoop _ _ _ _, _, _, _, _, hfound, _ | .forEach _ _ _ _, _, _, _, _, hfound, _
  | .ret _, _, _, _, _, hfound, _ | .breakLoop, _, _, _, _, hfound, _
  | .continueLoop, _, _, _, _, hfound, _ | .matchOn _ _, _, _, _, _, hfound, _
  | .switchOn _ _, _, _, _, _, hfound, _ | .expr _, _, _, _, _, hfound, _
  | .raw _, _, _, _, _, hfound, _ => by cases hfound

/-- What is written for the host of a static entry point stands in the namespaces around it. -/
theorem exists_inside_separated :
    ∀ (ss : List Stmt) {found : StaticHost} {i k : Journal} {code : List Code},
      findStaticHost? ss = some found → (separated env ss).Yields i code k →
        ∃ (part : List Code) (i' k' : Journal),
          Code.Inside part (found.spaces.map spaceHead) code ∧
            (member env {} .space found.host.stmt).Yields i' part k'
  | [], _, _, _, _, hfound, _ => by cases hfound
  | s :: ss, found, i, k, code, hfound, h => by
    rw [separated] at h
    obtain ⟨own, i₁, hown, h⟩ := Gen.yields_bind.mp h
    obtain ⟨rest, i₂, hrest, h⟩ := Gen.yields_bind.mp h
    obtain ⟨rfl, -⟩ := Gen.yields_pure.mp h
    rw [findStaticHost?] at hfound
    -- The first host is the one that is found, and its code comes ahead of the rest.
    cases hs : staticHost? s with
    | some first =>
      rw [hs] at hfound
      cases hfound
      obtain ⟨part, i', k', hpart, hyields⟩ := exists_inside_member s hs hown
      exact ⟨part, i', k', hpart.append [.separator] rest, hyields⟩
    | none =>
      rw [hs] at hfound
      obtain ⟨part, i', k', hpart, hyields⟩ := exists_inside_separated ss hfound hrest
      exact ⟨part, i', k', by simpa using hpart.append (.separator :: own) [], hyields⟩

end

/-- Only containers have static entry points. -/
theorem findStaticHost?_containers (ss : List Stmt) :
    findStaticHost? (Sections.of ss).containers = findStaticHost? ss := by
  rw [Sections.containers_of, findStaticHost?_eq_findSome?, findStaticHost?_eq_findSome?]
  induction ss with
  | nil => rfl
  | cons s ss ih =>
    rw [List.findSome?_cons, ← ih]
    cases s <;> rfl

/-- The text is the head of a type of this name. -/
def NamesType (name : String) (head : Fragment) : Prop :=
  ∃ words keyword rest : String,
    keyword ∈ ["class", "struct", "interface"] ∧
      head = text (words ++ keyword ++ " " ++ ident name ++ rest)

theorem namesType_typeHead {outer inner : Scope} {kind : TypeKind} {name : String}
    {modifiers : List Modifier} {generics : List GenericParam} {base : Option TypeRef}
    {interfaces : List TypeRef} :
    (typeHead env outer inner kind name modifiers generics base interfaces).Always fun head =>
      NamesType name (text head) := by
  refine .after fun bases => .after fun clauses => .pure ?_
  refine ⟨modifierText modifiers .publicAccess false outer, typeKeyword kind,
    genericList generics ++
      ((if bases.isEmpty then "" else " : " ++ Text.join ", " bases) ++ clauses), ?_, ?_⟩
  · cases kind <;> simp [typeKeyword]
  · simp only [String.append_assoc]

/-- What is written with its attributes is left out with a marker. -/
theorem yields_unlessMarked {kind name : String} {attributes : List Attribute}
    {x : Gen (List Code)}
    (h : (target.skipMarked kind name attributes >>= fun skipped =>
      if skipped = true then pure [] else x).Yields i code k) :
    (Marker.of? attributes).isNone = false ∧ code = [] ∨
      (Marker.of? attributes).isNone = true ∧ ∃ j, x.Yields j code k := by
  obtain ⟨skipped, j, hskipped, h⟩ := Gen.yields_bind.mp h
  have hmarked : skipped = (Marker.of? attributes).isSome :=
    TargetName.always_skipMarked _ _ _ _ hskipped
  rw [← Option.not_isSome, ← hmarked]
  cases skipped with
  | true => exact .inl ⟨rfl, (Gen.yields_pure.mp h).1.symm⟩
  | false => exact .inr ⟨rfl, j, h⟩

/-- A class or module is left out, or its members are written in a block that has its name. -/
theorem yields_host {host : EntryHost} (h : (member env {} .space host.stmt).Yields i part k) :
    (Marker.of? host.attributes).isNone = false ∧ part = [] ∨
      (Marker.of? host.attributes).isNone = true ∧
        ∃ (head : Fragment) (inner : List Code) (scope : Scope) (place : Host) (i' k' : Journal),
          NamesType host.name head ∧ .block .plain head inner "" ∈ part ∧ place ≠ .space ∧
            (members env scope place host.members).Yields i' inner k' := by
  cases host with
  | type kind decl =>
    obtain ⟨name, modifiers, attributes, generics, base, interfaces, decls⟩ := decl
    rw [EntryHost.stmt, member, if_neg (by decide)] at h
    refine (yields_unlessMarked h).imp_right fun ⟨hunmarked, i₁, h⟩ => ⟨hunmarked, ?_⟩
    obtain ⟨lines, i₂, -, h⟩ := Gen.yields_bind.mp h
    obtain ⟨head, i₃, hhead, h⟩ := Gen.yields_bind.mp h
    obtain ⟨body, i₄, hbody, h⟩ := Gen.yields_bind.mp h
    obtain ⟨rfl, -⟩ := Gen.yields_pure.mp h
    exact ⟨text head, body, _, .type, i₃, i₄, namesType_typeHead hhead, by simp, by decide, hbody⟩
  | module decl =>
    obtain ⟨name, modifiers, attributes, decls⟩ := decl
    rw [EntryHost.stmt, member, if_neg (by decide)] at h
    refine (yields_unlessMarked h).imp_right fun ⟨hunmarked, i₁, h⟩ => ⟨hunmarked, ?_⟩
    obtain ⟨lines, i₂, -, h⟩ := Gen.yields_bind.mp h
    obtain ⟨body, i₃, hbody, h⟩ := Gen.yields_bind.mp h
    obtain ⟨rfl, -⟩ := Gen.yields_pure.mp h
    have hhead : NamesType name
        (text (modifierText modifiers .publicAccess true {} ++ "class " ++ ident name)) := by
      refine ⟨modifierText modifiers .publicAccess true {}, "class", "", by simp, ?_⟩
      have hkeyword : "class " = "class" ++ " " := rfl
      rw [hkeyword, ← String.append_assoc, String.append_empty]
    exact ⟨_, body, _, .module, i₂, i₃, hhead, by simp, by decide, hbody⟩

/-- The members of a class are written one after the other. -/
theorem exists_inside_members {scope : Scope} {place : Host} {ss : List Stmt} {s : Stmt}
    (hs : s ∈ ss) (h : (members env scope place ss).Yields i code k) :
    ∃ (own : List Code) (i' k' : Journal),
      Code.Inside own [] code ∧ (member env scope place s).Yields i' own k' := by
  induction ss generalizing i code with
  | nil => cases hs
  | cons t ss ih =>
    rw [members] at h
    obtain ⟨first, i₁, hfirst, h⟩ := Gen.yields_bind.mp h
    obtain ⟨rest, i₂, hrest, h⟩ := Gen.yields_bind.mp h
    obtain ⟨rfl, rfl⟩ := Gen.yields_pure.mp h
    rcases List.mem_cons.mp hs with rfl | hs
    · exact ⟨first, i, i₁, ⟨[], rest, rfl⟩, hfirst⟩
    · obtain ⟨own, i', k', hown, hyields⟩ := ih hs hrest
      exact ⟨own, i', k', by simpa using hown.append first [], hyields⟩

/-! ### Sources of entry points -/

/-- The entry point that comes from a source. -/
def entryPointOf (config : Config) : EntrySource → String
  | .declared _ _ | .loose _ =>
    config.implicitNamespace ++ "." ++ config.implicitClass ++ "." ++ entryName
  | .static found => found.entryPoint ""

/-- The headers of the blocks around what is written for a source. -/
def entryHeads (config : Config) : EntrySource → List Fragment
  | .declared _ _ | .loose _ =>
    [spaceHead config.implicitNamespace, text ("public class " ++ config.implicitClass)]
  | .static found => found.spaces.map spaceHead

/-- The code is written for the source. -/
def WritesEntry (env : Env) : EntrySource → List Code → Prop
  | .declared f ss, part =>
    ∃ (written : Bool) (i k : Journal),
      (implicitFunctions env ss false [f]).Yields i (part, written) k
  | .loose ss, part => ∃ i k, (looseEntry env ss).Yields i part k
  | .static found, part => ∃ i k, (member env {} .space found.host.stmt).Yields i part k

/-- The code has a definition of the entry point: for the declared function, of the loose
statements, or for a function in a block that has the name of the class or module. -/
def DefinesEntry (env : Env) : EntrySource → List Code → Prop
  | .declared f _, part => ∃ own, Code.Inside own [] part ∧ FunctionDefines env f own
  | .loose _, part => ∃ own, Code.Inside own [] part ∧ DefinesMain own
  | .static found, part =>
    ∃ (kind : FunctionKind) (f : Function) (head : Fragment) (own : List Code),
      .functionDecl kind f ∈ found.host.members ∧
        found.host.isEntry (.functionDecl kind f) = true ∧ NamesType found.host.name head ∧
        Code.Inside own [head] part ∧ FunctionDefines env f own

/-- Nothing is left out on the way to the definition of the entry point. -/
def entryIsDefined : EntrySource → Bool
  | .declared f _ => isDefinition f
  | .loose _ => true
  | .static found =>
    (Marker.of? found.host.attributes).isNone &&
      found.host.members.any fun s => found.host.isEntry s && s.function?.any isDefinition

/-- The entry point of a unit is the one that comes from its source. -/
theorem entryPoint?_eq_map (config : Config) (ss : List Stmt) (sections : Sections) :
    entryPoint? config ss sections =
      (sections.entrySource? config (findStaticHost? ss)).map (entryPointOf config) := by
  rw [entryPoint?, implicitEntryPoint?]
  cases hentry : sections.hasEntry config.entryName with
  | true =>
    obtain ⟨f, -, -, hsource⟩ | ⟨-, -, hsource⟩ := sections.entrySource?_of_hasEntry hentry
    · rw [hsource]
      rfl
    · rw [hsource]
      rfl
  | false =>
    rw [sections.entrySource?_of_not_hasEntry hentry, findStaticEntryPoint?_eq_map, Option.map_map]
    rfl

/-- What is written for the containers of a unit is part of its code. -/
theorem yields_containers {ss : List Stmt} {sections : Sections} {entry : Option String}
    (h : (unitCode env ss sections).Yields i (code, entry) k) :
    ∃ (before containers after : List Code) (i' k' : Journal),
      (separated env sections.containers).Yields i' containers k' ∧
        code = before ++ containers ++ after := by
  obtain ⟨raws, i₁, -, h⟩ := Gen.yields_bind.mp h
  obtain ⟨containers, i₂, hcontainers, h⟩ := Gen.yields_bind.mp h
  extract_lets +lift checkEntry at h
  have hcheck : ∀ r : List Code × Option String, (checkEntry r).Always fun unit =>
      unit.1 = raws ++ containers ++ r.1 := by
    intro r
    dsimp only [checkEntry]
    split
    · exact .failed _
    · exact .pure rfl
  have hcode : ∃ after, code = raws ++ containers ++ after := by
    split at h
    · obtain ⟨r, i₃, -, h⟩ := Gen.yields_bind.mp h
      obtain ⟨r', i₄, -, h⟩ := Gen.yields_bind.mp h
      exact ⟨_, hcheck _ h⟩
    · obtain ⟨r, i₃, -, h⟩ := Gen.yields_bind.mp h
      exact ⟨_, hcheck _ h⟩
  obtain ⟨after, hcode⟩ := hcode
  exact ⟨raws, containers, after, i₁, i₂, hcontainers, hcode⟩

theorem exists_inside_unitCode_static {ss : List Stmt} {found : StaticHost} {entry : Option String}
    (hfound : findStaticHost? ss = some found)
    (h : (unitCode env ss (Sections.of ss)).Yields i (code, entry) k) :
    ∃ part, Code.Inside part (found.spaces.map spaceHead) code ∧
      WritesEntry env (.static found) part := by
  obtain ⟨before, containers, after, i₁, i₂, hcontainers, rfl⟩ := yields_containers h
  rw [← findStaticHost?_containers] at hfound
  obtain ⟨part, i', k', hpart, hyields⟩ := exists_inside_separated _ hfound hcontainers
  exact ⟨part, hpart.append before after, i', k', hyields⟩

theorem EntryPart.inside {sections : Sections} (h : EntryPart env sections code part) :
    Code.Inside part [spaceHead env.config.implicitNamespace,
      text ("public class " ++ env.config.implicitClass)] code := by
  obtain ⟨outer, ahead, behind, -, -, -, -, -, -, -, -, -, -, -, -, rfl⟩ := h
  have hspace : implicitClass env.config (ahead ++ part ++ behind) ∈
      outer ++ [.separator, implicitClass env.config (ahead ++ part ++ behind)] := by simp
  exact ⟨_, hspace, _, List.mem_singleton.mpr rfl, ahead, behind, rfl⟩

/-- What is written for the source of the entry point stands in the blocks that the entry point
names. -/
theorem exists_inside_unitCode {ss : List Stmt} {source : EntrySource} {entry : Option String}
    (h : (unitCode env ss (Sections.of ss)).Yields {} (code, entry) k)
    (hsource : (Sections.of ss).entrySource? env.config (findStaticHost? ss) = some source) :
    ∃ part, Code.Inside part (entryHeads env.config source) code ∧ WritesEntry env source part := by
  cases hhas : (Sections.of ss).hasEntry env.config.entryName with
  | true =>
    obtain ⟨f, hentry, -, hdeclared⟩ | ⟨hentry, hne, hloose⟩ :=
      Sections.entrySource?_of_hasEntry hhas
    · obtain rfl := Option.some.inj (hdeclared.symm.trans hsource)
      obtain ⟨part, hpart⟩ := exists_entryPart_of (by simp [hentry]) h
      refine ⟨part, hpart.inside, ?_⟩
      obtain ⟨-, -, -, -, -, -, -, i, k, -, -, -, -, hyields, -⟩ := hpart
      rw [entryPart, hentry] at hyields
      obtain ⟨⟨own, written⟩, i₁, hown, hyields⟩ := Gen.yields_bind.mp hyields
      obtain ⟨rfl, -⟩ := Gen.yields_pure.mp hyields
      exact ⟨written, _, _, hown⟩
    · obtain rfl := Option.some.inj (hloose.symm.trans hsource)
      obtain ⟨part, hpart⟩ := exists_entryPart_of (fun _ => hne) h
      refine ⟨part, hpart.inside, ?_⟩
      obtain ⟨-, -, -, -, -, -, -, i, k, -, -, -, -, hyields, -⟩ := hpart
      rw [entryPart, hentry] at hyields
      exact ⟨_, _, hyields⟩
  | false =>
    rw [Sections.entrySource?_of_not_hasEntry hhas] at hsource
    obtain ⟨found, hfound, rfl⟩ := Option.map_eq_some_iff.mp hsource
    exact exists_inside_unitCode_static hfound h

/-! ### When entry points are defined -/

theorem definesMain_looseEntry {ss : List Stmt} (h : (looseEntry env ss).Yields i part k) :
    ∃ own, Code.Inside own [] part ∧ DefinesMain own := by
  unfold looseEntry at h
  extract_lets returns at h
  obtain ⟨body, i₁, -, h⟩ := Gen.yields_bind.mp h
  obtain ⟨rfl, -⟩ := Gen.yields_pure.mp h
  refine ⟨[.block .function _ body ""], ⟨[.separator], [], rfl⟩, [], _, body, rfl, rfl, ?_⟩
  refine ⟨"public static " ++ returns, "", ")", [], ?_⟩
  have hparens : "()" = "(" ++ ")" := rfl
  have hident : ident entryName = entryName := by decide
  rw [hident, String.append_empty, hparens, ← String.append_assoc]
  rfl

/-- What is written for a declared entry function. -/
theorem yields_declared {f : Function} {ss : List Stmt} {written : Bool}
    (hname : f.name = env.config.entryName)
    (h : (implicitFunctions env ss false [f]).Yields i (part, written) k) :
    ∃ (own : List Code) (scope : Scope) (options : FunctionOptions)
      (prologue : Scope → Gen (List Code)) (i' k' : Journal), part = .separator :: own ∧
        options.name = some entryName ∧
        (function env scope options prologue f).Yields i' own k' := by
  have hentry : (!false && f.name == env.config.entryName) = true := by simp [hname]
  rw [implicitFunctions, if_pos hentry] at h
  -- `build` is what runs whether or not loose statements are reported as moved.
  extract_lets +lift returnsValue options build at h
  have hbuild : ∀ i, (build ()).Yields i (part, written) k → ∃ (own : List Code) (i' k' : Journal),
      part = .separator :: own ∧ (function env (implicitScope env.config) options
        (fun inner => stmts env inner none ss) f).Yields i' own k' := by
    intro i hbuild
    obtain ⟨own, i₂, hown, hbuild⟩ := Gen.yields_bind.mp hbuild
    obtain ⟨⟨rest, more⟩, i₃, hrest, hbuild⟩ := Gen.yields_bind.mp hbuild
    obtain ⟨heq, -⟩ := Gen.yields_pure.mp hrest
    obtain ⟨rfl, -⟩ := Prod.mk.inj heq
    obtain ⟨heq, -⟩ := Gen.yields_pure.mp hbuild
    obtain ⟨rfl, -⟩ := Prod.mk.inj heq
    exact ⟨own, i, i₂, by simp, hown⟩
  have hrun : ∃ i, (build ()).Yields i (part, written) k := by
    split at h
    · obtain ⟨_, i₁, -, h⟩ := Gen.yields_bind.mp h
      exact ⟨i₁, h⟩
    · exact ⟨i, h⟩
  obtain ⟨i₁, hrun⟩ := hrun
  obtain ⟨own, i', k', hpart, hown⟩ := hbuild i₁ hrun
  exact ⟨own, _, options, _, i', k', hpart, rfl, hown⟩

/-- A static entry point is defined if neither its host nor its function is left out. -/
theorem definesEntry_static_iff {found : StaticHost}
    (h : (member env {} .space found.host.stmt).Yields i part k) :
    DefinesEntry env (.static found) part ↔ entryIsDefined (.static found) = true := by
  rw [entryIsDefined, Bool.and_eq_true, List.any_eq_true]
  constructor
  · rintro ⟨kind, f, head, own, hmem, hentry, -, ⟨inner, hblock, -⟩, hdefines⟩
    refine ⟨?_, .functionDecl kind f, hmem, ?_⟩
    · rcases yields_host h with ⟨-, rfl⟩ | ⟨hunmarked, -⟩
      · cases hblock
      · exact hunmarked
    · rw [hentry, Bool.true_and]
      exact isDefinition_of_defines hdefines
  · rintro ⟨hunmarked, s, hs, hf⟩
    obtain ⟨hentry, hf⟩ := (Bool.and_eq_true _ _).mp hf
    obtain ⟨hmarked, -⟩ | ⟨-, head, inner, scope, place, i', k', hhead, hblock, hplace, hinner⟩ :=
      yields_host h
    · simp [hunmarked] at hmarked
    -- Of all functions that are entry points one is enough, the search need not have found it.
    cases s with
    | functionDecl kind f =>
      obtain ⟨own, i₁, k₁, ⟨before, after, hinside⟩, hown⟩ := exists_inside_members hs hinner
      rw [member, if_neg hplace] at hown
      obtain ⟨code, i₂, hcode, hown⟩ := Gen.yields_bind.mp hown
      obtain ⟨rfl, -⟩ := Gen.yields_pure.mp hown
      refine ⟨kind, f, head, code, hs, hentry, hhead, ⟨inner, hblock, before ++ [.separator], after,
        ?_⟩, functionDefines_of_yields ?_ hf hcode⟩
      · rw [hinside]
        simp
      · exact found.host.name_of_isEntry hentry
    | _ => cases hf

/-- What is written for the source of an entry point is a definition exactly if nothing is left out
on the way to it. -/
theorem definesEntry_iff {sections : Sections} {static : Option StaticHost} {source : EntrySource}
    (h : WritesEntry env source part)
    (hsource : sections.entrySource? env.config static = some source) :
    DefinesEntry env source part ↔ entryIsDefined source = true := by
  cases source with
  | declared f loose =>
    obtain ⟨written, i, k, h⟩ := h
    obtain ⟨own, scope, options, prologue, i', k', rfl, hoptions, hown⟩ :=
      yields_declared (Sections.of_entrySource?_eq_declared hsource).1 h
    constructor
    · rintro ⟨own', -, hdefines⟩
      exact isDefinition_of_defines hdefines
    · intro hf
      refine ⟨own, ⟨[.separator], [], by simp⟩, functionDefines_of_yields ?_ hf hown⟩
      rw [hoptions, Option.getD_some]
  | loose ss =>
    obtain ⟨i, k, h⟩ := h
    exact iff_of_true (definesMain_looseEntry h) rfl
  | static found =>
    obtain ⟨i, k, h⟩ := h
    exact definesEntry_static_iff h

end CSharp

end SourceGen
