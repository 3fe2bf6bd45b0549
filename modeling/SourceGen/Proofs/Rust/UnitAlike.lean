import SourceGen.Proofs.Rust.Formatting
import SourceGen.Proofs.Rust.ItemAlike
import SourceGen.Proofs.UnitSections

/-!
# Runs over Rust units

The events of whole units. A unit is generated exactly if there is no refusal among its events; that
it lacks an entry point is one.

## Main definitions

* `Rust.unitEvents`: the events of a unit.

## Main results

* `Rust.alike_compose`: runs over units that differ in their containers.
* `Rust.alike_generate`: the same with the last step, formatting.
-/

namespace SourceGen

namespace Rust

variable {env env' : Env}

/-! ### The entry point -/

/-- The functions without the one that becomes the entry point. -/
def plainEvents (entryName : String) (entrySeen : Bool) : List Function → List Event
  | [] => []
  | f :: fs =>
    if !entrySeen && f.name == entryName then plainEvents entryName true fs
    else f.events false [] ++ plainEvents entryName entrySeen fs

theorem alike_plainFunctions (h : env.known = env'.known)
    (hname : env.config.entryName = env'.config.entryName) (entrySeen : Bool)
    (fs : List Function) :
    Gen.Alike target (plainEvents env.config.entryName entrySeen fs)
      (plainFunctions env entrySeen fs) (plainFunctions env' entrySeen fs) := by
  have hplace : SameTypes env env' ({} : Place).toScope ({} : Place).toScope := ⟨h, rfl, rfl⟩
  induction fs generalizing entrySeen with
  | nil => exact .pure _ _
  | cons f fs ih =>
    rw [plainEvents, plainFunctions, plainFunctions, ← hname]
    split
    · exact ih true
    · exact .bind (alike_function hplace rfl [] (fun _ _ _ => .pure _ _) f) fun _ _ =>
        (ih entrySeen).map _ _

theorem alike_entryCode (h : env.known = env'.known) (f : Function) (loose : List Stmt) :
    Gen.Alike target (f.events false (Stmt.allEvents false loose)) (entryCode env f loose)
      (entryCode env' f loose) := by
  have hplace : SameTypes env env' ({} : Place).toScope ({} : Place).toScope := ⟨h, rfl, rfl⟩
  unfold entryCode
  split
  · rename_i hmark
    have hmark : (Marker.of? f.attributes).isSome = true := hmark
    have hfunction : Gen.Alike target (f.events false [])
        (function env {} {} (fun _ => return []) f)
        (function env' {} {} (fun _ => return []) f) :=
      alike_function hplace rfl [] (fun _ _ _ => .pure _ _) f
    rw [events_of_marker hmark] at hfunction ⊢
    exact hfunction.map _ _
  · extract_lets +lift finish finish'
    have hfinish : ∀ u u', Gen.Alike target (f.events false (Stmt.allEvents false loose))
        (finish u) (finish' u') := by
      intro u u'
      refine .after (.optionMapM (alike_mapType hplace) f.returnType) fun _ _ => ?_
      extract_lets returnsValue options returnsValue' options'
      have hreturns : options.returns.isSome = options'.returns.isSome := by
        have hoptions : options.returns.isSome = true := by
          dsimp only [options]
          split <;> rfl
        have hoptions' : options'.returns.isSome = true := by
          dsimp only [options']
          split <;> rfl
        rw [hoptions, hoptions']
      exact (alike_function hplace hreturns _
        (fun _ _ hinner => alike_stmts hinner loose) f).map _ _
    split
    · exact .after (.note rfl rfl rfl) hfinish
    · exact hfinish () ()

theorem alike_looseMain (h : env.known = env'.known) (loose : List Stmt) :
    Gen.Alike target (Stmt.allEvents false loose) (looseMain env loose) (looseMain env' loose) := by
  have hplace : SameTypes env env' ({} : Place).toScope ({} : Place).toScope := ⟨h, rfl, rfl⟩
  rw [← List.append_nil (Stmt.allEvents false loose)]
  refine .bind (alike_stmts hplace loose) fun _ _ => ?_
  split
  · exact .pure _ _
  · exact .pure _ _

theorem plainEvents_true (entryName : String) (loose : List Stmt) (fs : List Function) :
    plainEvents entryName true fs = Function.allEvents false entryName loose true fs := by
  induction fs with
  | nil => rfl
  | cons f fs ih => simp [plainEvents, Function.allEvents, ih]

/-- The entry function is written behind the others, but it is written. -/
theorem mem_codeEvents {event : Event} (sections : Sections) (entryName : String) :
    event ∈ plainEvents entryName false sections.functions ++
        (sections.entry? entryName).elim (Stmt.allEvents false sections.loose)
          (·.events false (Stmt.allEvents false sections.loose)) ↔
      event ∈ sections.codeEvents false entryName := by
  have hfunctions : ∀ fs : List Function,
      event ∈ plainEvents entryName false fs ++ ((fs.find? (·.name == entryName)).elim []
          (·.events false (Stmt.allEvents false sections.loose))) ↔
        event ∈ Function.allEvents false entryName sections.loose false fs := by
    intro fs
    induction fs with
    | nil => rfl
    | cons f fs ih =>
      rw [plainEvents, Function.allEvents, List.find?_cons]
      cases hname : f.name == entryName with
      | true =>
        rw [plainEvents_true entryName sections.loose]
        simp [or_comm]
      | false =>
        rw [List.mem_append] at ih
        simp [← ih]
  rw [Sections.codeEvents, List.mem_append, List.mem_append, ← hfunctions, List.mem_append,
    Sections.entry?]
  cases sections.functions.find? (·.name == entryName) with
  | none => simp
  | some f => simp

/-! ### The unit -/

/-- The events of a unit: a field or property outside any type is refused, and so is a unit that
lacks an entry point. -/
def unitEvents (config : Config) (sections : Sections) : List Event :=
  (if sections.members.isEmpty then [] else [.refusal]) ++
    (sections.raw.flatMap RawBlock.events ++ (allItemEvents .space sections.containers ++
      (sections.codeEvents false config.entryName ++
        config.missingEvents (sections.hasEntry config.entryName))))

/-- Only fields and properties are members outside any type. -/
theorem isMember_of_mem_members {ss : List Stmt} {s : Stmt} (h : s ∈ (Sections.of ss).members) :
    (∃ d, s = .fieldDecl d) ∨ ∃ d, s = .propertyDecl d := by
  rw [Sections.members_of] at h
  have hmember := (List.mem_filter.mp h).2
  cases s with
  | fieldDecl d => exact .inl ⟨d, rfl⟩
  | propertyDecl d => exact .inr ⟨d, rfl⟩
  | _ => cases hmember

section Unit

variable {sections : Sections} {containers : List Stmt}

theorem always_entryCode (f : Function) (loose : List Stmt) :
    (entryCode env f loose).Always (·.2 = f.marker.isNone) := by
  unfold entryCode
  split
  · rename_i hmark
    exact .after fun _ => .pure (by simpa using hmark)
  · rename_i hmark
    have hnone : f.marker.isNone = true := by simpa using hmark
    extract_lets +lift finish
    have hfinish : ∀ u, (finish u).Always (·.2 = f.marker.isNone) :=
      fun _ => .after fun _ => .after fun _ => .pure hnone.symm
    split
    · exact .after hfinish
    · exact hfinish ()

theorem always_unitCode :
    (unitCode env sections).Always (·.2 = sections.hasEntry env.config.entryName) := by
  unfold unitCode
  extract_lets +lift build
  have hbuild : (build ()).Always (·.2 = sections.hasEntry env.config.entryName) := by
    refine .after fun raws => .after fun cs => .after fun fs => ?_
    extract_lets +lift check
    have hcheck : ∀ r : List Code × Bool, r.2 = sections.hasEntry env.config.entryName →
        (check r).Always (·.2 = sections.hasEntry env.config.entryName) := by
      intro r hr
      dsimp only [check]
      split
      · exact .failed _
      · exact .pure hr
    cases hentry : sections.entry? env.config.entryName with
    | some f =>
      refine .bind (always_entryCode f sections.loose) fun r hr => hcheck r ?_
      rw [hr, Sections.hasEntry, hentry]
      rfl
    | none =>
      dsimp only
      split
      · rename_i hempty
        exact hcheck ([], false) (by simp [Sections.hasEntry, hentry, hempty])
      · rename_i hempty
        exact .after fun code => hcheck (code, true) (by simp [Sections.hasEntry, hentry, hempty])
  split
  · split
    · exact .failed _
    · exact .failed _
    · exact hbuild
  · exact hbuild

/-- The runs over two units are alike if those over their containers are. -/
theorem alike_unitCode (traits : Traits)
    (hmembers : ∀ s ∈ sections.members, (∃ d, s = .fieldDecl d) ∨ ∃ d, s = .propertyDecl d)
    (hcontainers : Gen.Alike target (allItemEvents .space sections.containers)
      (items env {} .space sections.containers) (items { env with traits } {} .space containers)) :
    Gen.Alike target (unitEvents env.config sections) (unitCode env sections)
      (unitCode { env with traits } { sections with containers }) := by
  have hknown : env.known = { env with traits }.known := rfl
  unfold unitCode unitEvents
  extract_lets +lift build build'
  have hbuild : Gen.Alike target (sections.raw.flatMap RawBlock.events ++
      (allItemEvents .space sections.containers ++
        (sections.codeEvents false env.config.entryName ++
          env.config.missingEvents (sections.hasEntry env.config.entryName))))
      (build ()) (build' ()) := by
    refine .bind (target.alike_separatedRawCodes sections.raw) fun _ _ => ?_
    refine .bind hcontainers fun _ _ => ?_
    have hcode : ∀ event, event ∈ plainEvents env.config.entryName false sections.functions ++
        ((sections.entry? env.config.entryName).elim (Stmt.allEvents false sections.loose)
            (·.events false (Stmt.allEvents false sections.loose)) ++
          env.config.missingEvents (sections.hasEntry env.config.entryName)) ↔
        event ∈ sections.codeEvents false env.config.entryName ++
          env.config.missingEvents (sections.hasEntry env.config.entryName) := by
      intro event
      rw [← List.append_assoc, List.mem_append, mem_codeEvents, ← List.mem_append]
    -- The plain functions come first, so the events are met in another order.
    refine Gen.Alike.congr ?_ hcode
    refine .bind (alike_plainFunctions hknown (by rfl) false sections.functions) fun _ _ => ?_
    extract_lets +lift check check'
    have hcheck : ∀ r r' : List Code × Bool, r.2 = sections.hasEntry env.config.entryName →
        r'.2 = sections.hasEntry env.config.entryName → Gen.Alike target
          (env.config.missingEvents (sections.hasEntry env.config.entryName)) (check r)
          (check' r') := by
      intro r r' hr hr'
      dsimp only [check, check']
      rw [hr, hr', Config.missingEvents]
      split
      · exact .failed _ _
      · exact .pure _ _
    have hsame : Sections.entry? { sections with containers } env.config.entryName =
        sections.entry? env.config.entryName := rfl
    dsimp only
    rw [hsame]
    cases hentry : sections.entry? env.config.entryName with
    | some f =>
      have hf : f.marker.isNone = sections.hasEntry env.config.entryName := by
        rw [Sections.hasEntry, hentry]
        rfl
      refine .bind_of_always (alike_entryCode hknown f sections.loose) (always_entryCode f _)
        (always_entryCode f _) fun r r' hr hr' => ?_
      exact hcheck r r' (hr.trans hf) (hr'.trans hf)
    | none =>
      dsimp only
      split
      · rename_i hempty
        have hfalse : false = sections.hasEntry env.config.entryName := by
          simp [Sections.hasEntry, hentry, hempty]
        rw [List.isEmpty_iff.mp hempty]
        exact hcheck ([], false) ([], false) hfalse hfalse
      · rename_i hempty
        have htrue : true = sections.hasEntry env.config.entryName := by
          simp [Sections.hasEntry, hentry, hempty]
        exact .bind (alike_looseMain hknown sections.loose) fun code code' =>
          hcheck (code, true) (code', true) htrue htrue
  -- A misplaced member ends the run before anything is written.
  cases hlist : sections.members with
  | nil => exact hbuild
  | cons s ss =>
    rcases hmembers s (by simp [hlist]) with ⟨d, rfl⟩ | ⟨d, rfl⟩
    · exact .failed _ _
    · exact .failed _ _

end Unit

/-! ### Whole programs -/

theorem alike_header (traits : Traits) (sections : Sections) :
    Gen.Alike target [] (header env sections) (header { env with traits } sections) := by
  have hscope : SameTypes env { env with traits } {} {} := ⟨rfl, rfl, rfl⟩
  unfold header
  refine .after (.forIn (fun d _ => ?_) fun d _ => ?_) fun _ _ => ?_
  · exact .after (.requireImport _) fun _ _ => .pure _ _
  · exact .after fun _ => .pure rfl
  · refine .after (.mapM fun d _ => (alike_mapType hscope d.target).map _ _) fun _ _ => ?_
    exact .after .get fun _ _ => .pure _ _

/-- The events of a program. -/
def events (config : Config) (p : Program) : List Event :=
  if (Stmt.findNestedType? (Stmt.flattenAll p.stmts)).isSome then [.refusal]
  else unitEvents config p.sections

theorem refusal_notMem_events {config : Config} {p : Program} :
    Event.refusal ∉ events config p ↔
      Stmt.findNestedType? (Stmt.flattenAll p.stmts) = none ∧
        Event.refusal ∉ unitEvents config p.sections := by
  rw [events]
  cases Stmt.findNestedType? (Stmt.flattenAll p.stmts) <;> simp

/-- The runs over two programs are alike if those over their containers are and the rest is the
same. -/
theorem alike_compose {config : Config} {p q : Program}
    (hnested : (Stmt.findNestedType? (Stmt.flattenAll p.stmts)).isSome =
      (Stmt.findNestedType? (Stmt.flattenAll q.stmts)).isSome)
    (hknown : KnownTypes.collect (Stmt.flattenAll p.stmts) =
      KnownTypes.collect (Stmt.flattenAll q.stmts))
    (hsections : q.sections = { p.sections with containers := q.sections.containers })
    (hcontainers : ∀ env env', env.known = env'.known →
      Gen.Alike target (allItemEvents .space p.sections.containers)
        (items env {} .space p.sections.containers) (items env' {} .space q.sections.containers)) :
    Gen.Alike target (events config p) (compose config p) (compose config q) := by
  unfold compose events
  extract_lets +lift ss env sections build ss' env' sections' build'
  have henv : env' = { env with traits := env'.traits } := by
    dsimp only [env, env']
    rw [hknown]
  have hsections : sections' = { sections with containers := q.sections.containers } := hsections
  have hbuild : ∀ u u',
      Gen.Alike target (unitEvents config p.sections) (build u) (build' u') := by
    intro u u'
    dsimp only [build, build']
    rw [henv, hsections, ← List.append_nil (unitEvents config p.sections)]
    have hunit := alike_unitCode env'.traits (fun _ => isMember_of_mem_members)
      (hcontainers env { env with traits := env'.traits } rfl)
    refine .bind hunit fun _ _ => ?_
    exact .after (alike_header env'.traits sections) fun _ _ => .after .get fun _ _ => .pure _ _
  cases hp : Stmt.findNestedType? ss with
  | some found =>
    cases hq : Stmt.findNestedType? ss' with
    | some found' => exact .failed _ _
    | none => simp [ss, ss', hp, hq] at hnested
  | none =>
    cases hq : Stmt.findNestedType? ss' with
    | some found' => simp [ss, ss', hp, hq] at hnested
    | none => exact hbuild () ()

theorem always_compose {config : Config} {p : Program} :
    (compose config p).Always fun g =>
      g.entryPoint = if p.sections.hasEntry config.entryName then some entryName else none := by
  unfold compose
  extract_lets +lift ss env sections build
  have hbuild : ∀ u, (build u).Always fun g =>
      g.entryPoint = if p.sections.hasEntry config.entryName then some entryName else none :=
    fun _ => .bind always_unitCode fun r hr => .after fun _ => .after fun _ =>
      .pure (by rw [hr]; rfl)
  split
  · exact .failed _
  · exact hbuild ()

/-- The imports of a unit are those in the journal at its end. -/
theorem imports_compose {config : Config} {p : Program} {j k : Journal} {g : Generated}
    (h : (compose config p).Yields j g k) : g.imports = k.imports := by
  unfold compose at h
  extract_lets +lift ss env sections build at h
  have hbuild : ∀ u i, (build u).Yields i g k → g.imports = k.imports := by
    intro u i h
    obtain ⟨r, i₁, -, h⟩ := Gen.yields_bind.mp h
    obtain ⟨top, i₂, -, h⟩ := Gen.yields_bind.mp h
    obtain ⟨journal, i₃, hget, h⟩ := Gen.yields_bind.mp h
    obtain ⟨rfl, rfl⟩ := Gen.yields_get.mp hget
    obtain ⟨rfl, rfl⟩ := Gen.yields_pure.mp h
    rfl
  split at h
  · obtain ⟨u, i, hfail, -⟩ := Gen.yields_bind.mp h
    exact absurd hfail Gen.not_yields_fail
  · exact hbuild () j h

/-! ### Finished units -/

/-- The last step reports at most that a unit is not formatted, which is no event. -/
theorem alike_generate (formatter : Formatter) {config : Config} {p q : Program}
    (h : Gen.Alike target (events config p) (compose config p) (compose config q)) :
    Gen.Alike target (events config p) (generate formatter config p)
      (generate formatter config q) := by
  rw [← List.append_nil (events config p)]
  exact .bind h fun w w' => alike_formatted w w'

/-- Formatting leaves the entry point as it is. -/
theorem always_generate {formatter : Formatter} {config : Config} {p : Program} :
    (generate formatter config p).Always fun g =>
      g.entryPoint = if p.sections.hasEntry config.entryName then some entryName else none := by
  intro j g k h
  obtain ⟨w, i, hw, -, rfl⟩ := exists_compose_of_generate h
  have hentry := always_compose hw
  exact hentry

/-- Formatting leaves the imports as they are. -/
theorem imports_generate {formatter : Formatter} {config : Config} {p : Program} {j k : Journal}
    {g : Generated} (h : (generate formatter config p).Yields j g k) : g.imports = k.imports := by
  obtain ⟨w, i, hw, hagrees, rfl⟩ := exists_compose_of_generate h
  exact (imports_compose hw).trans hagrees.imports.symm

end Rust

end SourceGen
