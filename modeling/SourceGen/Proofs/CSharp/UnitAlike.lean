import SourceGen.CSharp.Unit
import SourceGen.Proofs.CSharp.BodyAlike
import SourceGen.Proofs.LooseCode

/-!
# Runs over C# units

The events of declarations and of whole units. A unit is generated exactly if there is no refusal
among its events; that it lacks an entry point is one.

## Main definitions

* `CSharp.memberEvents`: the events of a member.
* `CSharp.entryPoint?`: the entry point of a unit.
* `CSharp.unitEvents`: the events of a unit.

## Main results

* `CSharp.alike_separated`: runs over the members of a namespace.
* `CSharp.alike_generate`: runs over units that differ in their containers.
-/

namespace SourceGen

namespace CSharp

variable {env : Env} {scope : Scope}

/-! ### Events of declarations -/

mutual

/-- The events of a member; a member in the wrong place is refused. -/
def memberEvents (host : Host) : Stmt → List Event
  | .namespaceDecl _ decls => if host = .space then allMemberEvents .space decls else [.refusal]
  | .typeDecl _ ⟨_, _, attributes, _, _, _, decls⟩ =>
    if host = .type then [.refusal]
    else unmarkedEvents true attributes (allMemberEvents .type decls)
  | .enumDecl decl =>
    if host = .type then [.refusal] else unmarkedEvents true decl.attributes (decl.events true)
  | .moduleDecl ⟨_, _, attributes, decls⟩ =>
    if host = .type then [.refusal]
    else unmarkedEvents true attributes (allMemberEvents .module decls)
  | .functionDecl _ decl => if host = .space then [.refusal] else decl.events true []
  | .fieldDecl decl =>
    if host = .space then [.refusal] else unmarkedEvents true decl.attributes (decl.events true)
  | .propertyDecl decl =>
    if host = .space then [.refusal] else unmarkedEvents true decl.attributes (decl.events true)
  | .includeDecl _ decls => allMemberEvents host decls
  | .raw block => block.events
  | _ => []

/-- The events of members. -/
def allMemberEvents (host : Host) : List Stmt → List Event
  | [] => []
  | s :: ss => memberEvents host s ++ allMemberEvents host ss

end

/-- Members have their events one by one. -/
theorem allMemberEvents_eq_flatMap (host : Host) (ss : List Stmt) :
    allMemberEvents host ss = ss.flatMap (memberEvents host) := by
  induction ss with
  | nil => rw [allMemberEvents, List.flatMap_nil]
  | cons s ss ih => rw [allMemberEvents, List.flatMap_cons, ih]

/-! ### Members -/

theorem alike_variantLines (variants : List EnumVariant) :
    Gen.Alike target (variants.flatMap fun v => Expr.optionEvents true v.value)
      (variantLines env scope variants) (variantLines env scope variants) := by
  induction variants with
  | nil => exact .pure _ _
  | cons v variants ih =>
    obtain ⟨name, value⟩ := v
    rw [List.flatMap_cons, variantLines]
    exact .bind (alike_exprOption scope value) fun _ _ => ih.map _ _

theorem alike_enumCode (d : EnumDecl) :
    Gen.Alike target (unmarkedEvents true d.attributes (d.events true)) (enumCode env scope d)
      (enumCode env scope d) := by
  refine target.alike_unlessMarked fun _ => ?_
  exact .bind (alike_attributeLines scope d.attributes) fun _ _ =>
    (alike_variantLines d.variants).map _ _

/-- A field has the events of its attributes and its value, unless it is marked. -/
theorem alike_fieldCode (d : Field) :
    Gen.Alike target (unmarkedEvents true d.attributes (d.events true)) (fieldCode env scope d)
      (fieldCode env scope d) := by
  refine target.alike_unlessMarked fun _ => ?_
  refine .bind (alike_attributeLines scope d.attributes) fun _ _ => ?_
  exact .after (alike_mapTypeOr _ d.type) fun _ _ => (alike_exprOption scope d.initializer).map _ _

theorem alike_accessorCode (accessors : List Accessor) :
    Gen.Alike target (accessors.flatMap (Accessor.events true)) (accessorCode env scope accessors)
      (accessorCode env scope accessors) := by
  induction accessors with
  | nil => exact .pure _ _
  | cons a accessors ih =>
    obtain ⟨kind, modifiers, body⟩ := a
    rw [List.flatMap_cons, Accessor.events, accessorCode]
    cases body with
    | none =>
      rw [Stmt.blockEvents]
      exact ih.map _ _
    | some body =>
      rw [Stmt.blockEvents]
      exact .bind (alike_stmts scope none none body).hide fun _ _ => ih.map _ _

/-- A property has the events of its parts, unless it is marked. -/
theorem alike_propertyCode (d : Property) :
    Gen.Alike target (unmarkedEvents true d.attributes (d.events true)) (propertyCode env scope d)
      (propertyCode env scope d) := by
  refine target.alike_unlessMarked fun _ => ?_
  refine .bind (alike_attributeLines scope d.attributes) fun _ _ => ?_
  refine .after (alike_mapTypeOr _ d.type) fun _ _ => ?_
  rw [Property.events]
  split
  · exact (alike_exprOption scope d.initializer).map _ _
  · exact (alike_accessorCode d.accessors).map _ _

/-- The head of a type is no event. -/
theorem alike_typeHead (outer inner : Scope) (kind : TypeKind) (name : String)
    (modifiers : List Modifier) (generics : List GenericParam) (base : Option TypeRef)
    (interfaces : List TypeRef) :
    Gen.Alike target [] (typeHead env outer inner kind name modifiers generics base interfaces)
      (typeHead env outer inner kind name modifiers generics base interfaces) :=
  .after (alike_mapTypes _) fun _ _ => (alike_whereClauses generics).map _ _

theorem alike_refuseMember (s : Stmt) :
    Gen.Alike target [] (refuseMember scope s) (refuseMember scope s) :=
  .after (.note rfl rfl rfl) fun _ _ => .pure _ _

mutual

/-- A member has the events read off its syntax, by induction on it. -/
theorem alike_member (scope : Scope) (host : Host) :
    ∀ s : Stmt,
      Gen.Alike target (memberEvents host s) (member env scope host s) (member env scope host s)
  | .namespaceDecl name decls => by
    rw [memberEvents, member]
    split
    · exact (alike_separated decls).map _ _
    · exact .fail _ _
  | .typeDecl kind ⟨name, modifiers, attributes, generics, base, interfaces, decls⟩ => by
    rw [memberEvents, member]
    split
    · exact .fail _ _
    · refine target.alike_unlessMarked fun _ => ?_
      refine .bind (alike_attributeLines scope attributes) fun _ _ => ?_
      refine .after (alike_typeHead _ _ _ _ _ _ _ _) fun _ _ => ?_
      exact (alike_members _ .type decls).map _ _
  | .enumDecl decl => by
    rw [memberEvents, member]
    split
    · exact .fail _ _
    · exact alike_enumCode decl
  | .moduleDecl ⟨name, modifiers, attributes, decls⟩ => by
    rw [memberEvents, member]
    split
    · exact .fail _ _
    · refine target.alike_unlessMarked fun _ => ?_
      refine .bind (alike_attributeLines scope attributes) fun _ _ => ?_
      exact (alike_members _ .module decls).map _ _
  | .functionDecl kind decl => by
    rw [memberEvents, member]
    split
    · exact .fail _ _
    · exact (alike_function scope {} [] (fun _ => .pure _ _) decl).map _ _
  | .fieldDecl decl => by
    rw [memberEvents, member]
    split
    · exact .fail _ _
    · exact alike_fieldCode decl
  | .propertyDecl decl => by
    rw [memberEvents, member]
    split
    · exact .fail _ _
    · exact alike_propertyCode decl
  | .importDecl decl => by
    simp only [memberEvents, member]
    split
    · exact .pure _ _
    · exact alike_refuseMember _
  | .includeDecl _ decls => by
    rw [memberEvents, member]
    exact alike_members scope host decls
  | .raw block => by
    rw [memberEvents, member]
    exact target.alike_rawCode block
  | .aliasDecl _ | .binding _ | .ifThen _ _ _ | .whileLoop _ _ | .forLoop _ _ _ _
  | .forEach _ _ _ _ | .ret _ | .breakLoop | .continueLoop | .matchOn _ _ | .switchOn _ _
  | .expr _ => by
    simp only [memberEvents, member]
    exact alike_refuseMember _

/-- The same of members. -/
theorem alike_members (scope : Scope) (host : Host) :
    ∀ ss : List Stmt,
      Gen.Alike target (allMemberEvents host ss) (members env scope host ss)
        (members env scope host ss)
  | [] => by
    rw [allMemberEvents, members]
    exact .pure _ _
  | s :: ss => by
    rw [allMemberEvents, members]
    exact .bind (alike_member scope host s) fun _ _ => (alike_members scope host ss).map _ _

theorem alike_separated :
    ∀ ss : List Stmt,
      Gen.Alike target (allMemberEvents .space ss) (separated env ss) (separated env ss)
  | [] => by
    rw [allMemberEvents, separated]
    exact .pure _ _
  | s :: ss => by
    rw [allMemberEvents, separated]
    exact .bind (alike_member {} .space s) fun _ _ => (alike_separated ss).map _ _

end

/-! ### The implicit class -/

/-- The entry point in the implicit class. -/
def implicitEntryPoint? (config : Config) (sections : Sections) : Option String :=
  if sections.hasEntry config.entryName then
    some (config.implicitNamespace ++ "." ++ config.implicitClass ++ "." ++ entryName)
  else none

/-- Only the first function with the entry name is the entry point. -/
theorem always_implicitFunctions (loose : List Stmt) (entrySeen : Bool) (fs : List Function) :
    (implicitFunctions env loose entrySeen fs).Always fun r =>
      r.2 = (!entrySeen &&
        (fs.find? (·.name == env.config.entryName)).any (·.marker.isNone)) := by
  induction fs generalizing entrySeen with
  | nil => exact .pure (by simp)
  | cons f fs ih =>
    rw [implicitFunctions]
    split
    · rename_i hentry
      rw [Bool.and_eq_true] at hentry
      have hfind : List.find? (·.name == env.config.entryName) (f :: fs) = some f :=
        List.find?_cons_of_pos hentry.2
      rw [hfind, hentry.1]
      -- `finish` is what runs whether or not loose statements are reported as moved.
      extract_lets +lift returnsValue options finish
      have hfinish : ∀ u, (finish u).Always fun r =>
          r.2 = (true && (some f).any (·.marker.isNone)) :=
        fun _ => .after fun _ => .after fun _ => .pure rfl
      split
      · exact .after hfinish
      · exact hfinish ()
    · rename_i hentry
      refine .after fun _ => .bind (ih entrySeen) fun r hr => .pure ?_
      rw [hr]
      cases entrySeen with
      | true => rfl
      | false =>
        have hname : (f.name == env.config.entryName) = false := by simpa using hentry
        rw [List.find?_cons, hname]

/-- Functions outside a class have their events, and the entry those of the loose code too. -/
theorem alike_implicitFunctions (loose : List Stmt) (entrySeen : Bool) (fs : List Function) :
    Gen.Alike target (Function.allEvents true env.config.entryName loose entrySeen fs)
      (implicitFunctions env loose entrySeen fs) (implicitFunctions env loose entrySeen fs) := by
  induction fs generalizing entrySeen with
  | nil => exact .pure _ _
  | cons f fs ih =>
    rw [Function.allEvents, implicitFunctions]
    split
    · extract_lets +lift returnsValue options finish
      have hfinish : ∀ u u', Gen.Alike target (f.events true (Stmt.allEvents true loose) ++
          Function.allEvents true env.config.entryName loose true fs) (finish u) (finish u') :=
        fun _ _ => .bind (alike_function _ options _ (fun inner => alike_stmts inner none none
          loose) f) fun _ _ => (ih true).map _ _
      split
      · exact .after (.note rfl rfl rfl) hfinish
      · exact hfinish () ()
    · exact .bind (alike_function _ _ [] (fun _ => .pure _ _) f) fun _ _ => (ih entrySeen).map _ _

theorem alike_looseEntry (loose : List Stmt) :
    Gen.Alike target (Stmt.allEvents true loose) (looseEntry env loose) (looseEntry env loose) :=
  (alike_stmts _ none none loose).map _ _

/-- The implicit container reports its own entry point. -/
theorem always_implicitContainer (sections : Sections) :
    (implicitContainer env sections).Always fun r =>
      r.2 = implicitEntryPoint? env.config sections := by
  unfold implicitContainer
  extract_lets +lift config synthesized
  rename_i name build
  have hbuild : ∀ helpers, (build helpers).Always fun r =>
      r.2 = implicitEntryPoint? env.config sections := by
    intro helpers
    refine .after fun fields => ?_
    refine .bind (always_implicitFunctions sections.loose false sections.functions) fun r hr => ?_
    -- An entry point is synthesized only if no function has the entry name.
    have hflags : (r.2 || synthesized) = sections.hasEntry config.entryName := by
      have hr : r.2 = (sections.entry? config.entryName).any (·.marker.isNone) := hr
      rw [hr, Sections.hasEntry]
      dsimp only [synthesized]
      cases sections.entry? config.entryName with
      | none => rfl
      | some f => simp
    have hentry : (if r.2 || synthesized then some name else none) =
        implicitEntryPoint? env.config sections := by
      rw [hflags]
      rfl
    dsimp only
    split
    · exact .after fun _ => .pure hentry
    · exact .pure hentry
  split
  · exact .after fun _ => hbuild _
  · exact hbuild _

/-- The events of the implicit class. -/
def implicitEvents (config : Config) (sections : Sections) : List Event :=
  allMemberEvents .module sections.members ++ sections.codeEvents true config.entryName

theorem alike_implicitContainer (sections : Sections) :
    Gen.Alike target (implicitEvents env.config sections) (implicitContainer env sections)
      (implicitContainer env sections) := by
  unfold implicitContainer
  extract_lets +lift config synthesized
  rename_i name build
  have hbuild : ∀ helpers helpers', Gen.Alike target (implicitEvents env.config sections)
      (build helpers) (build helpers') := by
    intro helpers helpers'
    refine .bind (alike_members _ .module sections.members) fun _ _ => ?_
    refine .bind (alike_implicitFunctions sections.loose false sections.functions) fun _ _ => ?_
    have hloose : (if (sections.entry? config.entryName).isNone = true then
        Stmt.allEvents true sections.loose else []) =
        if synthesized = true then Stmt.allEvents true sections.loose else [] := by
      by_cases hempty : sections.loose = []
      · simp [synthesized, hempty, Stmt.allEvents]
      · simp [synthesized, hempty]
    rw [hloose]
    dsimp only
    split
    · exact (alike_looseEntry sections.loose).map _ _
    · exact .pure _ _
  split
  · exact .after (.requireImport _) fun _ _ => hbuild _ _
  · exact hbuild _ _

/-! ### The unit -/

/-- The entry point of a unit: that in the implicit class, or else a static method. -/
def entryPoint? (config : Config) (ss : List Stmt) (sections : Sections) : Option String :=
  implicitEntryPoint? config sections <|> findStaticEntryPoint? "" ss

/-- The events of a unit; the last one says that it lacks an entry point. -/
def unitEvents (config : Config) (ss : List Stmt) (sections : Sections) : List Event :=
  sections.raw.flatMap RawBlock.events ++ (allMemberEvents .space sections.containers ++
    (implicitEvents config sections ++
      config.missingEvents (entryPoint? config ss sections).isSome))

/-- Without loose code nothing is left for an implicit container. -/
theorem eq_nil_of_not_hasLooseCode {sections : Sections} (h : ¬ sections.hasLooseCode = true) :
    (sections.functions = [] ∧ sections.members = []) ∧ sections.loose = [] := by
  simpa [Sections.hasLooseCode] using h

theorem implicitEntryPoint?_of_not_hasLooseCode {config : Config} {sections : Sections}
    (h : ¬ sections.hasLooseCode = true) : implicitEntryPoint? config sections = none := by
  obtain ⟨⟨hfunctions, -⟩, hloose⟩ := eq_nil_of_not_hasLooseCode h
  simp [implicitEntryPoint?, Sections.hasEntry, Sections.entry?, hfunctions, hloose]

theorem implicitEvents_of_not_hasLooseCode {config : Config} {sections : Sections}
    (h : ¬ sections.hasLooseCode = true) : implicitEvents config sections = [] := by
  obtain ⟨⟨hfunctions, hmembers⟩, hloose⟩ := eq_nil_of_not_hasLooseCode h
  simp [implicitEvents, Sections.codeEvents, hfunctions, hmembers, hloose, allMemberEvents,
    Function.allEvents, Stmt.allEvents]

section Unit

variable {sections : Sections} {containers : List Stmt}

/-- Whether a unit has an entry point depends on its functions, its loose statements and its
static methods only. -/
theorem always_unitCode (ss : List Stmt) :
    (unitCode env ss sections).Always fun r => r.2 = entryPoint? env.config ss sections := by
  refine .after fun raws => .after fun cs => ?_
  extract_lets +lift checkEntry
  have hcheck : ∀ r : List Code × Option String, r.2 = implicitEntryPoint? env.config sections →
      (checkEntry r).Always fun r => r.2 = entryPoint? env.config ss sections := by
    intro r hr
    dsimp only [checkEntry]
    rw [hr]
    split
    · exact .failed _
    · exact .pure rfl
  split
  · exact .bind (always_implicitContainer sections) fun r hr => hcheck (.separator :: r.1, r.2) hr
  · rename_i hcode
    exact hcheck ([], none) (implicitEntryPoint?_of_not_hasLooseCode hcode).symm

/-- The runs over two units are alike if those over their containers are, and if both or none of
them have an entry point. -/
theorem alike_unitCode {ss ss' : List Stmt}
    (hcontainers : Gen.Alike target (allMemberEvents .space sections.containers)
      (separated env sections.containers) (separated env containers))
    (hentry : (entryPoint? env.config ss sections).isSome =
      (entryPoint? env.config ss' sections).isSome) :
    Gen.Alike target (unitEvents env.config ss sections) (unitCode env ss sections)
      (unitCode env ss' { sections with containers }) := by
  refine .bind (target.alike_separatedRawCodes sections.raw) fun _ _ => ?_
  refine .bind hcontainers fun _ _ => ?_
  extract_lets +lift checkEntry checkEntry'
  have hcheck : ∀ r r' : List Code × Option String, r.2 = implicitEntryPoint? env.config sections →
      r'.2 = implicitEntryPoint? env.config sections → Gen.Alike target
        (env.config.missingEvents (entryPoint? env.config ss sections).isSome) (checkEntry r)
        (checkEntry' r') := by
    intro r r' hr hr'
    dsimp only [checkEntry, checkEntry']
    rw [hr, hr', Config.missingEvents]
    change Gen.Alike target _ (if (entryPoint? env.config ss sections).isNone && _ then _ else _)
      (if (entryPoint? env.config ss' sections).isNone && _ then _ else _)
    rw [← Option.not_isSome, ← Option.not_isSome, ← hentry]
    split
    · exact .failed _ _
    · exact .pure _ _
  -- The containers are not looked at any more.
  have hsame : implicitContainer env { sections with containers } =
      implicitContainer env sections := rfl
  have hloose : { sections with containers }.hasLooseCode = sections.hasLooseCode := rfl
  rw [hsame, hloose]
  split
  · refine .bind_of_always (alike_implicitContainer sections) (always_implicitContainer sections)
      (always_implicitContainer sections) fun r r' hr hr' => ?_
    exact hcheck (.separator :: r.1, r.2) (.separator :: r'.1, r'.2) hr hr'
  · rename_i hcode
    have hnone : none = implicitEntryPoint? env.config sections :=
      (implicitEntryPoint?_of_not_hasLooseCode hcode).symm
    rw [implicitEvents_of_not_hasLooseCode hcode]
    exact hcheck ([], none) ([], none) hnone hnone

end Unit

/-! ### The top of a unit -/

theorem alike_typeAliases (aliases : List Alias) :
    Gen.Alike target [] (typeAliases env aliases) (typeAliases env aliases) := by
  induction aliases with
  | nil => exact .pure _ _
  | cons d ds ih =>
    rw [typeAliases]
    split
    · exact .after (alike_mapType d.target) fun _ _ => ih.map _ _
    · exact .after (.note rfl rfl rfl) fun _ _ => ih

/-- The header is no event. -/
theorem alike_header (sections : Sections) :
    Gen.Alike target [] (header env sections) (header env sections) := by
  unfold header
  refine .after (.forIn (fun d _ => ?_) fun d _ => ?_) fun _ _ => ?_
  · split
    · exact .after (.requireImport _) fun _ _ => .pure _ _
    · exact .pure _ _
  · split
    · exact .after fun _ => .pure rfl
    · exact .pure rfl
  · exact .after (alike_typeAliases sections.aliases) fun _ _ => .after .get fun _ _ => .pure _ _

/-! ### Whole programs -/

/-- The events of a program. -/
def events (config : Config) (p : Program) : List Event :=
  if (Stmt.findNestedType? (Stmt.flattenAll p.stmts)).isSome then [.refusal]
  else unitEvents config (Stmt.flattenAll p.stmts) p.sections

/-- No refusal stands among the events exactly when no type is nested in the wrong place and an
entry is there where one is needed. -/
theorem refusal_notMem_events {config : Config} {p : Program} :
    Event.refusal ∉ events config p ↔
      Stmt.findNestedType? (Stmt.flattenAll p.stmts) = none ∧
        Event.refusal ∉ unitEvents config (Stmt.flattenAll p.stmts) p.sections := by
  rw [events]
  cases Stmt.findNestedType? (Stmt.flattenAll p.stmts) <;> simp

/-- The runs over two programs are alike if those over their containers are and the rest is the
same. -/
theorem alike_generate {config : Config} {resolver : TypeResolver} {p q : Program}
    (hnested : (Stmt.findNestedType? (Stmt.flattenAll p.stmts)).isSome =
      (Stmt.findNestedType? (Stmt.flattenAll q.stmts)).isSome)
    (hknown : KnownTypes.collect (Stmt.flattenAll p.stmts) =
      KnownTypes.collect (Stmt.flattenAll q.stmts))
    (hsections : q.sections = { p.sections with containers := q.sections.containers })
    (hcontainers : ∀ env, Gen.Alike target (allMemberEvents .space p.sections.containers)
      (separated env p.sections.containers) (separated env q.sections.containers))
    (hentry : (entryPoint? config (Stmt.flattenAll p.stmts) p.sections).isSome =
      (entryPoint? config (Stmt.flattenAll q.stmts) q.sections).isSome) :
    Gen.Alike target (events config p) (generate config resolver p)
      (generate config resolver q) := by
  unfold generate events
  extract_lets +lift ss env sections build ss' env' sections' build'
  have henv : env' = env := by
    dsimp only [env, env']
    rw [hknown]
  have hsections : sections' = { sections with containers := q.sections.containers } := hsections
  -- Once no nested type is refused, the units differ in their containers only.
  have hbuild : ∀ u u',
      Gen.Alike target (unitEvents config ss p.sections) (build u) (build' u') := by
    intro u u'
    dsimp only [build, build']
    rw [henv, hsections, ← List.append_nil (unitEvents config ss p.sections)]
    have hentry : (entryPoint? config ss sections).isSome =
        (entryPoint? config ss' { sections with containers := q.sections.containers }).isSome := by
      rw [← hsections]
      exact hentry
    have hunit := alike_unitCode (hcontainers env) hentry
    refine .bind hunit fun _ _ => ?_
    exact .after (alike_header sections) fun _ _ => .after .get fun _ _ => .pure _ _
  cases hp : Stmt.findNestedType? ss with
  | some found =>
    cases hq : Stmt.findNestedType? ss' with
    | some found' => exact .failed _ _
    | none => simp [ss, ss', hp, hq] at hnested
  | none =>
    cases hq : Stmt.findNestedType? ss' with
    | some found' => simp [ss, ss', hp, hq] at hnested
    | none => exact hbuild () ()

/-- A generated unit reports the entry point read off its syntax. -/
theorem always_generate {config : Config} {resolver : TypeResolver} {p : Program} :
    (generate config resolver p).Always fun g =>
      g.entryPoint = entryPoint? config (Stmt.flattenAll p.stmts) p.sections := by
  unfold generate
  extract_lets +lift ss env sections build
  have hbuild : ∀ u, (build u).Always fun g =>
      g.entryPoint = entryPoint? config (Stmt.flattenAll p.stmts) p.sections :=
    fun _ => .bind (always_unitCode ss) fun r hr => .after fun _ => .after fun _ => .pure hr
  split
  · exact .failed _
  · exact hbuild ()

/-- The imports of a unit are those in the journal at its end. -/
theorem imports_generate {config : Config} {resolver : TypeResolver} {p : Program} {j k : Journal}
    {g : Generated} (h : (generate config resolver p).Yields j g k) : g.imports = k.imports := by
  unfold generate at h
  extract_lets +lift ss env sections build at h
  have hbuild : ∀ u i, (build u).Yields i g k → g.imports = k.imports := by
    intro u i h
    obtain ⟨r, i₁, -, h⟩ := Gen.yields_bind.mp h
    obtain ⟨top, i₂, -, h⟩ := Gen.yields_bind.mp h
    obtain ⟨journal, i₃, hget, h⟩ := Gen.yields_bind.mp h
    obtain ⟨rfl, rfl⟩ := Gen.yields_get.mp hget
    obtain ⟨rfl, rfl⟩ := Gen.yields_pure.mp h
    rfl
  split at h
  · obtain ⟨u, i, hfail, -⟩ := Gen.yields_bind.mp h
    exact absurd hfail Gen.not_yields_fail
  · exact hbuild () j h

end CSharp

end SourceGen
