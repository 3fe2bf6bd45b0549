import SourceGen.Proofs.BackendRun
import SourceGen.Proofs.UnitSections

/-!
# The search for raw blocks

Before a program is generated one can ask whether all its raw blocks are written for the target. The
search for them goes through the statements of a program, but it enters neither expressions nor
accessors, and a generator writes both. So a program that passes can still have raw blocks for other
targets there, and then these are reported as skipped, and only these.

## Main definitions

* `Event.Listed`: all raw blocks are written for given targets, apart from the hidden ones.
* `Backend.HidesRaw`: a raw block for another target is hidden in a program.

## Main results

* `Stmt.listed_allEvents`: the search finds all raw blocks in statements that are not hidden.
* `Backend.skipsRaw_of_canGenerate`: what is skipped of a program that passes the search.
-/

namespace SourceGen

/-- Every raw block among the events that is not hidden is written for one of the targets. -/
def Event.Listed (targets : List String) (events : List Event) : Prop :=
  ∀ target, Event.raw target false ∈ events → target ∈ targets

namespace Event.Listed

variable {targets others : List String} {events rest : List Event}

theorem nil : Listed targets [] :=
  fun _ h => absurd h List.not_mem_nil

/-- The events of two parts are listed when each is. -/
theorem append (h : Listed targets events) (hrest : Listed targets rest) :
    Listed targets (events ++ rest) :=
  fun target hmem => (List.mem_append.mp hmem).elim (h target) (hrest target)

/-- More targets list the same events. -/
theorem mono (h : Listed targets events) (hsub : ∀ t ∈ targets, t ∈ others) :
    Listed others events :=
  fun target hmem => hsub target (h target hmem)

/-- Targets may be added behind. -/
theorem front (h : Listed targets events) : Listed (targets ++ others) events :=
  h.mono fun _ => List.mem_append_left others

/-- Targets may be added in front. -/
theorem back (h : Listed targets events) : Listed (others ++ targets) events :=
  h.mono fun _ => List.mem_append_right others

/-- Nothing is asked of hidden raw blocks. -/
theorem hide (events : List Event) : Listed targets (events.map Event.hide) := by
  intro target hmem
  obtain ⟨event, -, heq⟩ := List.mem_map.mp hmem
  cases event <;> cases heq

/-- The events of many parts are listed when each part's are. -/
theorem flatMap {α : Type} {xs : List α} {f : α → List Event} (h : ∀ x ∈ xs, Listed targets (f x)) :
    Listed targets (xs.flatMap f) := by
  intro target hmem
  obtain ⟨x, hx, hmem⟩ := List.mem_flatMap.mp hmem
  exact h x hx target hmem

theorem refusal : Listed targets [Event.refusal] := by
  simp [Listed]

end Event.Listed

open Event (Listed)

variable {defaults : Bool} {targets : List String}

/-! ### Expressions -/

mutual

/-- No expression has a raw block in it outside a body, so its events hide every raw block. -/
theorem Expr.listed_events : ∀ e : Expr, Listed targets (e.events defaults)
  | .literal _ | .ident _ | .path _ | .this => by
    simp only [Expr.events]
    exact .nil
  | .member object _ => by
    rw [Expr.events]
    exact object.listed_events
  | .index object i => by
    rw [Expr.events]
    exact .append object.listed_events i.listed_events
  | .binary left _ right => by
    rw [Expr.events]
    exact .append left.listed_events right.listed_events
  | .unary _ operand _ => by
    rw [Expr.events]
    exact operand.listed_events
  | .assign target _ value => by
    rw [Expr.events]
    exact .append target.listed_events value.listed_events
  | .call callee args => by
    rw [Expr.events]
    exact .append callee.listed_events (Expr.listed_allEvents args)
  | .construct _ args => by
    rw [Expr.events]
    exact Expr.listed_allEvents args
  | .array elements _ => by
    rw [Expr.events]
    exact Expr.listed_allEvents elements
  | .lambda _ body => by
    rw [Expr.events]
    exact .hide _
  | .range start stop _ => by
    rw [Expr.events]
    exact .append (Expr.listed_optionEvents start) (Expr.listed_optionEvents stop)
  | .block _ => by
    rw [Expr.events]
    exact .hide _
  | .matchOn scrutinee arms => by
    rw [Expr.events]
    exact .append scrutinee.listed_events (.hide _)

theorem Expr.listed_allEvents : ∀ es : List Expr, Listed targets (Expr.allEvents defaults es)
  | [] => by
    rw [Expr.allEvents]
    exact .nil
  | e :: es => by
    rw [Expr.allEvents]
    exact .append e.listed_events (Expr.listed_allEvents es)

theorem Expr.listed_optionEvents :
    ∀ e : Option Expr, Listed targets (Expr.optionEvents defaults e)
  | none => by
    rw [Expr.optionEvents]
    exact .nil
  | some e => by
    rw [Expr.optionEvents]
    exact e.listed_events

end

/-- A binding has raw blocks only inside its value, all hidden. -/
theorem Binding.listed_events (b : Binding) : Listed targets (b.events defaults) := by
  obtain ⟨name, type, value, mutability⟩ := b
  rw [Binding.events]
  exact Expr.listed_optionEvents value

theorem Stmt.listed_startEvents (start : Option Stmt) :
    Listed targets (Stmt.startEvents defaults start) := by
  unfold Stmt.startEvents
  split
  · exact .nil
  · exact Binding.listed_events _
  · exact Expr.listed_events _
  · exact .nil

theorem Pattern.listed_events (p : Pattern) : Listed targets (p.events defaults) := by
  cases p with
  | default =>
    rw [Pattern.events]
    exact .nil
  | values values =>
    rw [Pattern.events]
    exact Expr.listed_allEvents values

theorem Attribute.listed_allEvents (attributes : List Attribute) :
    Listed targets (Attribute.allEvents defaults attributes) := by
  induction attributes with
  | nil =>
    rw [Attribute.allEvents]
    exact .nil
  | cons a attributes ih =>
    obtain ⟨name, args⟩ := a
    rw [Attribute.allEvents]
    split
    · exact ih
    · exact .append (Expr.listed_allEvents args) ih

theorem Parameter.listed_allEvents (params : List Parameter) :
    Listed targets (Parameter.allEvents defaults params) := by
  induction params with
  | nil =>
    rw [Parameter.allEvents]
    exact .nil
  | cons p params ih =>
    obtain ⟨name, type, value⟩ := p
    rw [Parameter.allEvents]
    exact .append (Expr.listed_optionEvents value) ih

/-! ### Statements -/

/-- A raw block names its own target. -/
theorem RawBlock.listed_events (block : RawBlock) :
    Listed (Stmt.raw block).rawTargets block.events := by
  obtain ⟨target, code⟩ := block
  cases target with
  | none => exact .nil
  | some target =>
    change Listed [target] _
    rw [RawBlock.events]
    simp [Listed]

/-- Of a function, the search covers the body, and it need not cover what comes ahead of that. -/
theorem Function.listed_events_of_body {before : List Event} (f : Function)
    (hbefore : Listed targets before)
    (hbody : ∀ body, f.body = some body → Listed targets (Stmt.allEvents defaults body)) :
    Listed targets (f.events defaults before) := by
  obtain ⟨name, params, returnType, generics, modifiers, attributes, body, isConstructor,
    isStatic⟩ := f
  rw [Function.events]
  split
  · exact .nil
  split
  · exact .nil
  refine .append (Attribute.listed_allEvents attributes) (.append ?_ ?_)
  · split
    · exact Parameter.listed_allEvents params
    · exact .nil
  · cases body with
    | none =>
      rw [Stmt.bodyEvents]
      exact .nil
    | some body =>
      rw [Stmt.bodyEvents]
      exact .append hbefore (hbody body rfl)

-- What the search finds in a tree is by definition what it finds in the parts that it looks into.

mutual

/-- The raw events of a statement that are not hidden name targets the collection finds in it. -/
theorem Stmt.listed_events : ∀ s : Stmt, Listed s.rawTargets (s.events defaults)
  | .binding decl => by
    rw [Stmt.events]
    exact decl.listed_events
  | .ifThen condition thenBranch none => by
    rw [Stmt.events, Stmt.blockEvents]
    exact .append condition.listed_events (.append (Stmt.listed_allEvents thenBranch) .nil)
  | .ifThen condition thenBranch (some elseBranch) => by
    rw [Stmt.events, Stmt.blockEvents]
    exact .append condition.listed_events
      (.append (Stmt.listed_allEvents thenBranch).front (Stmt.listed_allEvents elseBranch).back)
  | .whileLoop condition body => by
    rw [Stmt.events]
    exact .append condition.listed_events (Stmt.listed_allEvents body)
  | .forLoop start condition step body => by
    rw [Stmt.events]
    exact .append (Stmt.listed_startEvents start) (.append (Expr.listed_optionEvents condition)
      (.append (Expr.listed_optionEvents step) (Stmt.listed_allEvents body)))
  | .forEach _ _ iterable body => by
    rw [Stmt.events]
    exact .append iterable.listed_events (Stmt.listed_allEvents body)
  | .ret value => by
    rw [Stmt.events]
    exact Expr.listed_optionEvents value
  | .matchOn scrutinee arms => by
    rw [Stmt.events]
    exact .append scrutinee.listed_events (MatchArm.listed_allEvents arms)
  | .switchOn subject cases => by
    rw [Stmt.events]
    exact .append subject.listed_events (SwitchCase.listed_allEvents cases)
  | .expr value => by
    rw [Stmt.events]
    exact value.listed_events
  | .raw block => by
    rw [Stmt.events]
    exact block.listed_events
  | .functionDecl _ ⟨name, params, returnType, generics, modifiers, attributes, none,
      isConstructor, isStatic⟩ => by
    rw [Stmt.events]
    exact Function.listed_events_of_body _ .nil nofun
  | .functionDecl _ ⟨name, params, returnType, generics, modifiers, attributes, some body,
      isConstructor, isStatic⟩ => by
    rw [Stmt.events]
    have hbody := Stmt.listed_allEvents body
    exact Function.listed_events_of_body _ .nil fun _ h => Option.some.inj h ▸ hbody
  | .typeDecl _ _ | .enumDecl _ => by
    simp only [Stmt.events]
    exact .refusal
  | .importDecl _ | .includeDecl _ _ | .aliasDecl _ | .namespaceDecl _ _ | .moduleDecl _
  | .fieldDecl _ | .propertyDecl _ | .breakLoop | .continueLoop => by
    simp only [Stmt.events]
    exact .nil

/-- The same of a list of statements. -/
theorem Stmt.listed_allEvents :
    ∀ ss : List Stmt, Listed (Stmt.allRawTargets ss) (Stmt.allEvents defaults ss)
  | [] => by
    rw [Stmt.allEvents]
    exact .nil
  | s :: ss => by
    rw [Stmt.allEvents]
    exact .append s.listed_events.front (Stmt.listed_allEvents ss).back

theorem MatchArm.listed_allEvents :
    ∀ arms : List MatchArm, Listed (MatchArm.allRawTargets arms) (MatchArm.allEvents defaults arms)
  | [] => by
    rw [MatchArm.allEvents]
    exact .nil
  | ⟨pattern, .block block⟩ :: arms => by
    rw [MatchArm.allEvents, Body.events]
    exact .append pattern.listed_events
      (.append (Stmt.listed_allEvents block).front (MatchArm.listed_allEvents arms).back)
  | ⟨pattern, .expr value⟩ :: arms => by
    rw [MatchArm.allEvents, Body.events]
    exact .append pattern.listed_events (.append value.listed_events
      (MatchArm.listed_allEvents arms))

theorem SwitchCase.listed_allEvents :
    ∀ cases : List SwitchCase,
      Listed (SwitchCase.allRawTargets cases) (SwitchCase.allEvents defaults cases)
  | [] => by
    rw [SwitchCase.allEvents]
    exact .nil
  | ⟨pattern, body⟩ :: cases => by
    rw [SwitchCase.allEvents]
    exact .append pattern.listed_events
      (.append (Stmt.listed_allEvents body).front (SwitchCase.listed_allEvents cases).back)

end

/-- Of a function among other statements, the search covers the body. -/
theorem Function.listed_events {before : List Event} (kind : FunctionKind) (f : Function)
    (hbefore : Listed targets before)
    (hsub : ∀ t ∈ (Stmt.functionDecl kind f).rawTargets, t ∈ targets) :
    Listed targets (f.events defaults before) := by
  refine f.listed_events_of_body hbefore fun body hbody => ?_
  obtain ⟨name, params, returnType, generics, modifiers, attributes, body', isConstructor,
    isStatic⟩ := f
  obtain rfl : body' = some body := hbody
  exact (Stmt.listed_allEvents body).mono hsub

/-! ### Declarations -/

/-- A marked declaration has no events to list. -/
theorem listed_unmarkedEvents {events : List Event} (attributes : List Attribute)
    (h : Listed targets events) : Listed targets (unmarkedEvents defaults attributes events) := by
  rw [unmarkedEvents]
  split
  · exact .nil
  · exact .append (Attribute.listed_allEvents attributes) h

theorem Field.listed_events (f : Field) : Listed targets (f.events defaults) :=
  Expr.listed_optionEvents f.initializer

/-- The accessors of a property are not collected: their raw blocks are hidden. -/
theorem Property.listed_events (p : Property) : Listed targets (p.events defaults) := by
  rw [Property.events]
  split
  · exact Expr.listed_optionEvents p.initializer
  · exact .flatMap fun _ _ => .hide _

theorem EnumDecl.listed_events (d : EnumDecl) : Listed targets (d.events defaults) :=
  .flatMap fun v _ => Expr.listed_optionEvents v.value

/-- The targets of a list are those of its statements, in order. -/
theorem Stmt.allRawTargets_eq_flatMap (ss : List Stmt) :
    Stmt.allRawTargets ss = ss.flatMap Stmt.rawTargets := by
  induction ss with
  | nil => rfl
  | cons s ss ih => exact congrArg (s.rawTargets ++ ·) ih

theorem Stmt.mem_allRawTargets {s : Stmt} {ss : List Stmt} {t : String} (hs : s ∈ ss)
    (ht : t ∈ s.rawTargets) : t ∈ Stmt.allRawTargets ss := by
  rw [Stmt.allRawTargets_eq_flatMap]
  exact List.mem_flatMap.mpr ⟨s, hs, ht⟩

namespace CSharp

mutual

/-- The events of a C# member name only targets collected from it. -/
theorem listed_memberEvents (host : Host) :
    ∀ s : Stmt, Listed s.rawTargets (memberEvents host s)
  | .namespaceDecl _ decls => by
    rw [memberEvents]
    split
    · exact listed_allMemberEvents .space decls
    · exact .refusal
  | .typeDecl _ ⟨name, modifiers, attributes, generics, base, interfaces, decls⟩ => by
    rw [memberEvents]
    split
    · exact .refusal
    · exact listed_unmarkedEvents attributes (listed_allMemberEvents .type decls)
  | .enumDecl decl => by
    rw [memberEvents]
    split
    · exact .refusal
    · exact listed_unmarkedEvents decl.attributes decl.listed_events
  | .moduleDecl ⟨name, modifiers, attributes, decls⟩ => by
    rw [memberEvents]
    split
    · exact .refusal
    · exact listed_unmarkedEvents attributes (listed_allMemberEvents .module decls)
  | .functionDecl kind decl => by
    rw [memberEvents]
    split
    · exact .refusal
    · exact decl.listed_events kind .nil fun _ h => h
  | .fieldDecl decl => by
    rw [memberEvents]
    split
    · exact .refusal
    · exact listed_unmarkedEvents decl.attributes decl.listed_events
  | .propertyDecl decl => by
    rw [memberEvents]
    split
    · exact .refusal
    · exact listed_unmarkedEvents decl.attributes decl.listed_events
  | .includeDecl _ decls => by
    rw [memberEvents]
    exact listed_allMemberEvents host decls
  | .raw block => by
    rw [memberEvents]
    exact block.listed_events
  | .importDecl _ | .aliasDecl _ | .binding _ | .ifThen _ _ _ | .whileLoop _ _
  | .forLoop _ _ _ _ | .forEach _ _ _ _ | .ret _ | .breakLoop | .continueLoop | .matchOn _ _
  | .switchOn _ _ | .expr _ => by
    simp only [memberEvents]
    exact .nil

theorem listed_allMemberEvents (host : Host) :
    ∀ ss : List Stmt, Listed (Stmt.allRawTargets ss) (allMemberEvents host ss)
  | [] => by
    rw [allMemberEvents]
    exact .nil
  | s :: ss => by
    rw [allMemberEvents]
    exact .append (listed_memberEvents host s).front (listed_allMemberEvents host ss).back

end

end CSharp

namespace Rust

/-- The events of a Rust struct name only targets collected from its members. -/
theorem listed_structEvents (hasConstructor : Bool) (members : List Stmt) :
    Listed (Stmt.allRawTargets members) (structEvents hasConstructor members) := by
  induction members generalizing hasConstructor with
  | nil => exact .nil
  | cons s ss ih =>
    unfold structEvents
    split
    · exact (ih hasConstructor).back
    split
    · exact .append (Field.listed_events _) (ih hasConstructor).back
    · exact .append (Property.listed_events _) (ih hasConstructor).back
    · rename_i kind f _
      split
      -- The search enters all constructors, of which only the first one is written.
      · refine .append ?_ (ih true).back
        obtain ⟨name, params, returnType, generics, modifiers, attributes, body, isConstructor,
          isStatic⟩ := f
        split
        · exact .nil
        · cases body with
          | none =>
            rw [Stmt.blockEvents]
            exact .nil
          | some body =>
            rw [Stmt.blockEvents]
            exact (Stmt.listed_allEvents body).front
      · exact .append (f.listed_events kind .nil fun _ => List.mem_append_left _)
          (ih hasConstructor).back
    · exact .append (RawBlock.listed_events _).front (ih hasConstructor).back
    · exact (ih hasConstructor).back

/-- The events of a Rust trait name only targets collected from its members. -/
theorem listed_traitEvents (members : List Stmt) :
    Listed (Stmt.allRawTargets members) (traitEvents members) := by
  refine .flatMap fun s hs => ?_
  split
  · rename_i kind f
    exact f.listed_events kind .nil fun _ => Stmt.mem_allRawTargets hs
  · exact .nil

mutual

/-- The events of a Rust item name only targets collected from it. -/
theorem listed_itemEvents (host : Host) : ∀ s : Stmt, Listed s.rawTargets (itemEvents host s)
  | .namespaceDecl _ decls => by
    rw [itemEvents]
    exact listed_allItemEvents .space decls
  | .typeDecl .interface ⟨name, modifiers, attributes, generics, base, interfaces, members⟩ => by
    rw [itemEvents]
    exact listed_unmarkedEvents attributes (listed_traitEvents members)
  | .typeDecl .cls ⟨name, modifiers, attributes, generics, base, interfaces, members⟩
  | .typeDecl .struct ⟨name, modifiers, attributes, generics, base, interfaces, members⟩ => by
    rw [itemEvents]
    · exact listed_unmarkedEvents attributes (listed_structEvents false members)
    · nofun
  | .enumDecl decl => by
    rw [itemEvents]
    exact listed_unmarkedEvents decl.attributes decl.listed_events
  | .moduleDecl ⟨name, modifiers, attributes, decls⟩ => by
    rw [itemEvents]
    exact listed_unmarkedEvents attributes (listed_allItemEvents .module decls)
  | .functionDecl kind decl => by
    rw [itemEvents]
    exact decl.listed_events kind .nil fun _ h => h
  | .fieldDecl decl => by
    rw [itemEvents]
    split
    · split
      · exact .nil
      · exact decl.listed_events
    · exact .refusal
  | .propertyDecl decl => by
    rw [itemEvents]
    exact .refusal
  | .includeDecl _ decls => by
    rw [itemEvents]
    exact listed_allItemEvents host decls
  | .raw block => by
    rw [itemEvents]
    exact block.listed_events
  | .importDecl _ | .aliasDecl _ | .binding _ | .ifThen _ _ _ | .whileLoop _ _
  | .forLoop _ _ _ _ | .forEach _ _ _ _ | .ret _ | .breakLoop | .continueLoop | .matchOn _ _
  | .switchOn _ _ | .expr _ => by
    simp only [itemEvents]
    exact .nil

theorem listed_allItemEvents (host : Host) :
    ∀ ss : List Stmt, Listed (Stmt.allRawTargets ss) (allItemEvents host ss)
  | [] => by
    rw [allItemEvents]
    exact .nil
  | s :: ss => by
    rw [allItemEvents]
    exact .append (listed_itemEvents host s).front (listed_allItemEvents host ss).back

end

end Rust

/-! ### Programs -/

mutual

/-- Opening the includes loses no target. -/
theorem Stmt.allRawTargets_flatten :
    ∀ s : Stmt, Stmt.allRawTargets s.flatten = s.rawTargets
  | .includeDecl _ ss => by
    rw [Stmt.flatten]
    exact Stmt.allRawTargets_flattenAll ss
  | .importDecl _ | .aliasDecl _ | .namespaceDecl _ _ | .typeDecl _ _ | .enumDecl _
  | .moduleDecl _ | .functionDecl _ _ | .fieldDecl _ | .propertyDecl _ | .binding _
  | .ifThen _ _ _ | .whileLoop _ _ | .forLoop _ _ _ _ | .forEach _ _ _ _ | .ret _ | .breakLoop
  | .continueLoop | .matchOn _ _ | .switchOn _ _ | .expr _ | .raw _ => List.append_nil _

/-- The search finds the same targets whether includes are opened or not. -/
theorem Stmt.allRawTargets_flattenAll :
    ∀ ss : List Stmt, Stmt.allRawTargets (Stmt.flattenAll ss) = Stmt.allRawTargets ss
  | [] => by rw [Stmt.flattenAll]
  | s :: ss => by
    rw [Stmt.flattenAll, Stmt.allRawTargets_eq_flatMap, List.flatMap_append,
      ← Stmt.allRawTargets_eq_flatMap, ← Stmt.allRawTargets_eq_flatMap,
      Stmt.allRawTargets_flatten s, Stmt.allRawTargets_flattenAll ss]
    rfl

end

/-- The search through some statements covers those among them. -/
theorem Event.Listed.of_sublist {events : List Event} {part ss : List Stmt}
    (h : Listed (Stmt.allRawTargets part) events) (hsub : ∀ s ∈ part, s ∈ ss) :
    Listed (Stmt.allRawTargets ss) events := by
  refine h.mono fun t ht => ?_
  rw [Stmt.allRawTargets_eq_flatMap] at ht
  obtain ⟨s, hs, ht⟩ := List.mem_flatMap.mp ht
  exact Stmt.mem_allRawTargets (hsub s hs) ht

theorem Function.listed_allEvents {entryName : String} {loose : List Stmt} {ss : List Stmt}
    (hloose : Listed (Stmt.allRawTargets ss) (Stmt.allEvents defaults loose)) (entrySeen : Bool)
    {fs : List Function} (hfs : ∀ f ∈ fs, ∃ kind, .functionDecl kind f ∈ ss) :
    Listed (Stmt.allRawTargets ss) (Function.allEvents defaults entryName loose entrySeen fs) := by
  induction fs generalizing entrySeen with
  | nil => exact .nil
  | cons f fs ih =>
    obtain ⟨kind, hf⟩ := hfs f List.mem_cons_self
    have hrest := fun seen => ih seen fun g hg => hfs g (List.mem_cons_of_mem f hg)
    rw [Function.allEvents]
    split
    · exact .append (f.listed_events kind hloose fun _ => Stmt.mem_allRawTargets hf) (hrest true)
    · exact .append (f.listed_events kind .nil fun _ => Stmt.mem_allRawTargets hf)
        (hrest entrySeen)

namespace Sections

variable (ss : List Stmt)

/-- The events of the functions and the loose code name only targets collected from the program. -/
theorem listed_codeEvents (entryName : String) :
    Listed (Stmt.allRawTargets ss) ((Sections.of ss).codeEvents defaults entryName) := by
  have hloose : Listed (Stmt.allRawTargets ss) (Stmt.allEvents defaults (Sections.of ss).loose) :=
    (Stmt.listed_allEvents _).of_sublist fun _ => mem_of_mem_loose
  refine .append (Function.listed_allEvents hloose false fun _ => exists_mem_of_mem_functions) ?_
  split
  · exact hloose
  · exact .nil

/-- The raw blocks at the top are collected. -/
theorem listed_raw :
    Listed (Stmt.allRawTargets ss) ((Sections.of ss).raw.flatMap RawBlock.events) :=
  .flatMap fun block hblock =>
    block.listed_events.mono fun _ => Stmt.mem_allRawTargets (mem_of_mem_raw hblock)

end Sections

theorem Config.listed_missingEvents (config : Config) (hasEntry : Bool) :
    Listed targets (config.missingEvents hasEntry) := by
  rw [Config.missingEvents]
  split
  · exact .refusal
  · exact .nil

/-- The events of a C# unit name only targets collected from the program. -/
theorem CSharp.listed_unitEvents (config : Config) (ss : List Stmt) :
    Listed (Stmt.allRawTargets ss) (unitEvents config ss (Sections.of ss)) := by
  have hcontainers := (listed_allMemberEvents .space (Sections.of ss).containers).of_sublist
    fun _ => Sections.mem_of_mem_containers
  have hmembers := (listed_allMemberEvents .module (Sections.of ss).members).of_sublist
    fun _ => Sections.mem_of_mem_members
  exact .append (Sections.listed_raw ss) (.append hcontainers
    (.append (.append hmembers (Sections.listed_codeEvents ss _))
      (config.listed_missingEvents _)))

/-- The events of a Rust unit name only targets collected from the program. -/
theorem Rust.listed_unitEvents (config : Config) (ss : List Stmt) :
    Listed (Stmt.allRawTargets ss) (unitEvents config (Sections.of ss)) := by
  have hcontainers := (listed_allItemEvents .space (Sections.of ss).containers).of_sublist
    fun _ => Sections.mem_of_mem_containers
  refine .append ?_ (.append (Sections.listed_raw ss) (.append hcontainers
    (.append (Sections.listed_codeEvents ss _) (config.listed_missingEvents _))))
  split
  · exact .nil
  · exact .refusal

namespace Backend

variable {b : Backend} {p : Program}

/-- All raw blocks that are not hidden are found by the search. -/
theorem listed_events (b : Backend) (p : Program) :
    Listed (Stmt.allRawTargets p.stmts) (b.events p) := by
  -- The search runs before includes are opened, the generators run afterwards.
  rw [← Stmt.allRawTargets_flattenAll]
  obtain ⟨language, config, services⟩ := b
  cases language with
  | csharp =>
    change Listed _ (CSharp.events config p)
    rw [CSharp.events]
    split
    · exact .refusal
    · exact CSharp.listed_unitEvents config _
  | rust =>
    change Listed _ (Rust.events config p)
    rw [Rust.events]
    split
    · exact .refusal
    · exact Rust.listed_unitEvents config _

/-- A raw block for another target is hidden in an expression or an accessor of the program, where
the generator comes upon it. -/
def HidesRaw (b : Backend) (p : Program) (name : String) : Prop :=
  b.answersTo name = false ∧ Event.raw name true ∈ b.events p

instance (b : Backend) (p : Program) (name : String) : Decidable (b.HidesRaw p name) :=
  inferInstanceAs (Decidable (_ ∧ _))

/-- Where the generator may run, it skips exactly the hidden raw blocks of other targets. -/
theorem skips_iff_hidesRaw (hcan : b.canGenerate p = true) (name : String) :
    b.target.Skips (b.events p) name ↔ b.HidesRaw p name := by
  refine and_congr_right fun hother => ⟨?_, fun h => ⟨true, h⟩⟩
  rintro ⟨hidden, hmem⟩
  cases hidden with
  | true => exact hmem
  | false =>
    -- The search has found the block, so the target would answer to it.
    have hanswers := List.all_eq_true.mp hcan name (b.listed_events p name hmem)
    rw [answersTo, hother] at hanswers
    cases hanswers

/-- If no raw block is found to be written for another target, then all that is reported as skipped
is hidden in expressions and accessors, and with a unit all of that is reported. -/
theorem skipsRaw_of_canGenerate (hcan : b.canGenerate p = true) (name : String) :
    ((b.generate p).SkipsRaw name → b.HidesRaw p name) ∧
      (b.Generates p → b.HidesRaw p name → (b.generate p).SkipsRaw name) := by
  rw [← skips_iff_hidesRaw hcan]
  exact ⟨skips_of_skipsRaw, fun hgen => (skipsRaw_iff hgen).mpr⟩

/-- A class whose getter has a raw block for C#, next to an empty entry function. -/
def rawGetter : Program :=
  ⟨[.typeDecl .cls ⟨"Box", [], [], [], none, [],
      [.propertyDecl ⟨"size", some (.named "int"), [], [],
        [⟨.get, [], some [.raw ⟨some "csharp", "return 1;"⟩]⟩], none⟩]⟩,
    .functionDecl .function ⟨"main", [], none, [], [], [], some [], false, false⟩]⟩

/-- A raw block in a getter is skipped although the generator may run. -/
theorem rawGetter_skips_raw :
    canGenerate ⟨.rust, {}, Resolver.dotnet⟩ rawGetter = true ∧
      (generate ⟨.rust, {}, Resolver.dotnet⟩ rawGetter).SkipsRaw "csharp" := by
  have hcan : canGenerate ⟨.rust, {}, Resolver.dotnet⟩ rawGetter = true := by decide
  have hgen : Generates ⟨.rust, {}, Resolver.dotnet⟩ rawGetter := generates_iff.mpr (by decide)
  have hhides : HidesRaw ⟨.rust, {}, Resolver.dotnet⟩ rawGetter "csharp" := by decide
  exact ⟨hcan, (skipsRaw_of_canGenerate hcan "csharp").2 hgen hhides⟩

end Backend

end SourceGen
