import SourceGen.Proofs.BackendRun
import SourceGen.Proofs.StagedMerge
import SourceGen.Proofs.UnitSections

/-!
# Opened includes

Includes at the top of a unit are opened before anything else. Includes among the members of
namespaces and modules are opened by the generators and by the search for declared types, but
neither by the check for types inside types nor by the search for a static entry point. So it makes
a difference to open them beforehand only where this check or this search finds something else.

## Main definitions

* `Stmt.openAll`: statements with all includes opened, also those in namespaces and modules.
* `Program.HidesNestedType`, `Program.HidesStaticEntry`: what an include can hide.

## Main results

* `Backend.generate_opened_iff`: when a program and the opened one give the same unit.
-/

namespace SourceGen

namespace Stmt

mutual

/-- What a statement stands for once all includes are opened. -/
def opened : Stmt → List Stmt
  | .includeDecl _ stmts => openAll stmts
  | .namespaceDecl name members => [.namespaceDecl name (openAll members)]
  | .moduleDecl ⟨name, modifiers, attributes, members⟩ =>
    [.moduleDecl ⟨name, modifiers, attributes, openAll members⟩]
  | stmt => [stmt]

/-- The statements with every include replaced by what it stands for, also among the members of
namespaces and modules. -/
def openAll : List Stmt → List Stmt
  | [] => []
  | s :: ss => s.opened ++ openAll ss

end

/-- Includes are opened statement by statement. -/
theorem openAll_append (ss ts : List Stmt) : openAll (ss ++ ts) = openAll ss ++ openAll ts := by
  induction ss with
  | nil => rfl
  | cons s ss ih => rw [List.cons_append, openAll, openAll, ih, List.append_assoc]

mutual

/-- Opening the includes at the top first changes nothing. -/
theorem openAll_flatten : ∀ s : Stmt, openAll s.flatten = s.opened
  | .includeDecl _ ss => by
    rw [flatten, opened]
    exact openAll_flattenAll ss
  | .importDecl _ | .aliasDecl _ | .namespaceDecl _ _ | .typeDecl _ _ | .enumDecl _
  | .moduleDecl _ | .functionDecl _ _ | .fieldDecl _ | .propertyDecl _ | .binding _
  | .ifThen _ _ _ | .whileLoop _ _ | .forLoop _ _ _ _ | .forEach _ _ _ _ | .ret _ | .breakLoop
  | .continueLoop | .matchOn _ _ | .switchOn _ _ | .expr _ | .raw _ => by
    simp only [flatten, openAll, List.append_nil]

/-- Opening the includes at the top first makes no difference. -/
theorem openAll_flattenAll : ∀ ss : List Stmt, openAll (flattenAll ss) = openAll ss
  | [] => rfl
  | s :: ss => by
    rw [flattenAll, openAll_append, openAll_flatten s, openAll_flattenAll ss, openAll]

end

mutual

/-- No opened statement is an include. -/
theorem isInclude_of_mem_opened : ∀ s : Stmt, ∀ t ∈ s.opened, t.isInclude = false
  | .includeDecl _ ss => by
    rw [opened]
    exact isInclude_of_mem_openAll ss
  | .importDecl _ | .aliasDecl _ | .namespaceDecl _ _ | .typeDecl _ _ | .enumDecl _
  | .moduleDecl ⟨_, _, _, _⟩ | .functionDecl _ _ | .fieldDecl _ | .propertyDecl _ | .binding _
  | .ifThen _ _ _ | .whileLoop _ _ | .forLoop _ _ _ _ | .forEach _ _ _ _ | .ret _ | .breakLoop
  | .continueLoop | .matchOn _ _ | .switchOn _ _ | .expr _ | .raw _ => by
    simp only [opened, List.forall_mem_singleton, isInclude]

/-- No include is left at the top. -/
theorem isInclude_of_mem_openAll : ∀ ss : List Stmt, ∀ t ∈ openAll ss, t.isInclude = false
  | [] => by simp [openAll]
  | s :: ss => by
    intro t ht
    rw [openAll, List.mem_append] at ht
    rcases ht with ht | ht
    · exact isInclude_of_mem_opened s t ht
    · exact isInclude_of_mem_openAll ss t ht

end

/-- Opened statements have no include to flatten. -/
theorem flattenAll_openAll (ss : List Stmt) : flattenAll (openAll ss) = openAll ss :=
  flattenAll_eq_self (isInclude_of_mem_openAll ss)

mutual

/-- An include hides a nested type: what is found without opening is found with it. -/
theorem nestedType?_of_opened :
    ∀ s : Stmt, findNestedType? s.opened = none → s.nestedType? = none
  | .includeDecl _ _ => fun _ => rfl
  | .namespaceDecl name members => by
    rw [opened, findNestedType?_eq_none_iff, List.forall_mem_singleton, nestedType?, nestedType?]
    exact findNestedType?_of_openAll members
  | .moduleDecl ⟨name, modifiers, attributes, members⟩ => by
    rw [opened, findNestedType?_eq_none_iff, List.forall_mem_singleton, nestedType?, nestedType?]
    exact findNestedType?_of_openAll members
  | .typeDecl kind decl => by
    rw [opened, findNestedType?_eq_none_iff, List.forall_mem_singleton]
    · exact id
    all_goals nofun
  | .importDecl _ | .aliasDecl _ | .enumDecl _ | .functionDecl _ _ | .fieldDecl _
  | .propertyDecl _ | .binding _ | .ifThen _ _ _ | .whileLoop _ _ | .forLoop _ _ _ _
  | .forEach _ _ _ _ | .ret _ | .breakLoop | .continueLoop | .matchOn _ _ | .switchOn _ _
  | .expr _ | .raw _ => fun _ => rfl

/-- The check for types inside types finds no more in includes that are not opened. -/
theorem findNestedType?_of_openAll :
    ∀ ss : List Stmt, findNestedType? (openAll ss) = none → findNestedType? ss = none
  | [] => fun _ => rfl
  | s :: ss => by
    rw [openAll, findNestedType?_eq_none_iff, List.forall_mem_append,
      ← findNestedType?_eq_none_iff, ← findNestedType?_eq_none_iff]
    rintro ⟨hs, hss⟩
    rw [findNestedType?, nestedType?_of_opened s hs]
    exact findNestedType?_of_openAll ss hss

end

end Stmt

namespace KnownTypes

/-- The known types are collected in the order of the text. -/
theorem scanAll_append (known : KnownTypes) (ss ts : List Stmt) :
    scanAll known (ss ++ ts) = scanAll (scanAll known ss) ts := by
  induction ss generalizing known with
  | nil => rfl
  | cons s ss ih => rw [List.cons_append, scanAll, scanAll, ih]

mutual

/-- An include contributes the types inside it. -/
theorem scanAll_opened (known : KnownTypes) :
    ∀ s : Stmt, scanAll known s.opened = scan known s
  | .includeDecl _ ss => by
    rw [Stmt.opened, scan]
    exact scanAll_openAll known ss
  | .namespaceDecl name members => by
    rw [Stmt.opened, scanAll, scan, scan, scanAll]
    exact scanAll_openAll known members
  | .moduleDecl ⟨name, modifiers, attributes, members⟩ => by
    rw [Stmt.opened, scanAll, scan, scan, scanAll]
    exact scanAll_openAll known members
  | .importDecl _ | .aliasDecl _ | .typeDecl _ _ | .enumDecl _ | .functionDecl _ _ | .fieldDecl _
  | .propertyDecl _ | .binding _ | .ifThen _ _ _ | .whileLoop _ _ | .forLoop _ _ _ _
  | .forEach _ _ _ _ | .ret _ | .breakLoop | .continueLoop | .matchOn _ _ | .switchOn _ _
  | .expr _ | .raw _ => by
    simp only [Stmt.opened, scanAll]

/-- The search for declared types looks into includes. -/
theorem scanAll_openAll (known : KnownTypes) :
    ∀ ss : List Stmt, scanAll known (Stmt.openAll ss) = scanAll known ss
  | [] => rfl
  | s :: ss => by
    rw [Stmt.openAll, scanAll_append, scanAll_opened known s, scanAll_openAll _ ss, scanAll]

end

end KnownTypes

/-- Opening the includes below the top changes the containers of a unit only. -/
theorem Sections.of_openAll {ss : List Stmt} (h : ∀ s ∈ ss, s.isInclude = false) :
    Sections.of (Stmt.openAll ss) =
      { Sections.of ss with containers := Stmt.openAll (Sections.of ss).containers } := by
  induction ss with
  | nil => rfl
  | cons s ss ih =>
    obtain ⟨hs, hss⟩ := List.forall_mem_cons.mp h
    have hcons : ∀ s ss, Sections.of (s :: ss) = (Sections.of ss).cons s := fun _ _ => rfl
    cases s with
    | includeDecl path stmts => cases hs
    | moduleDecl decl =>
      obtain ⟨name, modifiers, attributes, members⟩ := decl
      simp only [Stmt.openAll, Stmt.opened, List.singleton_append, hcons, ih hss]
      rfl
    | _ =>
      simp only [Stmt.openAll, Stmt.opened, List.singleton_append, hcons, ih hss]
      rfl

/-! ### C# -/

namespace CSharp

variable {env : Env}

mutual

/-- An opened C# member has the events it had. -/
theorem allMemberEvents_opened (host : Host) :
    ∀ s : Stmt, allMemberEvents host s.opened = memberEvents host s
  | .includeDecl _ ss => by
    rw [Stmt.opened, memberEvents]
    exact allMemberEvents_openAll host ss
  | .namespaceDecl name members => by
    simp only [Stmt.opened, allMemberEvents, memberEvents, List.append_nil,
      allMemberEvents_openAll .space members]
  | .moduleDecl ⟨name, modifiers, attributes, members⟩ => by
    simp only [Stmt.opened, allMemberEvents, memberEvents, List.append_nil,
      allMemberEvents_openAll .module members]
  | .importDecl _ | .aliasDecl _ | .typeDecl _ _ | .enumDecl _ | .functionDecl _ _ | .fieldDecl _
  | .propertyDecl _ | .binding _ | .ifThen _ _ _ | .whileLoop _ _ | .forLoop _ _ _ _
  | .forEach _ _ _ _ | .ret _ | .breakLoop | .continueLoop | .matchOn _ _ | .switchOn _ _
  | .expr _ | .raw _ => by
    simp only [Stmt.opened, allMemberEvents, List.append_nil]

theorem allMemberEvents_openAll (host : Host) :
    ∀ ss : List Stmt, allMemberEvents host (Stmt.openAll ss) = allMemberEvents host ss
  | [] => rfl
  | s :: ss => by
    rw [Stmt.openAll, allMemberEvents_eq_flatMap, List.flatMap_append, ← allMemberEvents_eq_flatMap,
      ← allMemberEvents_eq_flatMap, allMemberEvents_opened host s, allMemberEvents_openAll host ss,
      allMemberEvents]

end

theorem members_singleton (scope : Scope) (host : Host) (s : Stmt) :
    members env scope host [s] = member env scope host s := by
  simp [members]

/-- C# members are written one part after the other. -/
theorem members_append (scope : Scope) (host : Host) (ss ts : List Stmt) :
    members env scope host (ss ++ ts) =
      (do return (← members env scope host ss) ++ (← members env scope host ts)) := by
  induction ss with
  | nil => simp [members]
  | cons s ss ih =>
    simp only [List.cons_append, members, ih, bind_assoc, pure_bind, List.append_assoc]

/-- Blank lines between the members of a namespace make no difference. -/
theorem alike_separated_members (env : Env) (ss : List Stmt) :
    Gen.Alike target (allMemberEvents .space ss) (separated env ss) (members env {} .space ss) := by
  induction ss with
  | nil => exact .pure _ _
  | cons s ss ih =>
    rw [allMemberEvents, separated, members]
    exact .bind (alike_member {} .space s) fun _ _ => ih.map _ _

theorem alike_separated_openAll_of {ss : List Stmt}
    (h : Gen.Alike target (allMemberEvents .space ss) (members env {} .space ss)
      (members env {} .space (Stmt.openAll ss))) :
    Gen.Alike target (allMemberEvents .space ss) (separated env ss)
      (separated env (Stmt.openAll ss)) := by
  have hopened := alike_separated_members env (Stmt.openAll ss)
  rw [allMemberEvents_openAll] at hopened
  exact (alike_separated_members env ss).trans (h.trans hopened.symm)

mutual

/-- A C# member is written alike when the includes inside it are opened. -/
theorem alike_member_opened (scope : Scope) (host : Host) :
    ∀ s : Stmt, Gen.Alike target (memberEvents host s) (member env scope host s)
      (members env scope host s.opened)
  | .includeDecl _ ss => by
    rw [memberEvents, member, Stmt.opened]
    exact alike_members_openAll scope host ss
  | .namespaceDecl name decls => by
    rw [memberEvents, Stmt.opened, members_singleton, member, member]
    split
    · exact (alike_separated_openAll_of (alike_members_openAll {} .space decls)).map _ _
    · exact .fail _ _
  | .moduleDecl ⟨name, modifiers, attributes, decls⟩ => by
    rw [memberEvents, Stmt.opened, members_singleton, member, member]
    split
    · exact .fail _ _
    · refine target.alike_unlessMarked fun _ => ?_
      refine .bind (alike_attributeLines scope attributes) fun _ _ => ?_
      exact (alike_members_openAll _ .module decls).map _ _
  | .importDecl _ | .aliasDecl _ | .typeDecl _ _ | .enumDecl _ | .functionDecl _ _ | .fieldDecl _
  | .propertyDecl _ | .binding _ | .ifThen _ _ _ | .whileLoop _ _ | .forLoop _ _ _ _
  | .forEach _ _ _ _ | .ret _ | .breakLoop | .continueLoop | .matchOn _ _ | .switchOn _ _
  | .expr _ | .raw _ => by
    simp only [Stmt.opened, members_singleton]
    exact alike_member scope host _

/-- C# members are written alike when the includes inside them are opened. -/
theorem alike_members_openAll (scope : Scope) (host : Host) :
    ∀ ss : List Stmt, Gen.Alike target (allMemberEvents host ss) (members env scope host ss)
      (members env scope host (Stmt.openAll ss))
  | [] => alike_members scope host []
  | s :: ss => by
    rw [allMemberEvents, members, Stmt.openAll, members_append]
    exact .bind (alike_member_opened scope host s) fun _ _ =>
      (alike_members_openAll scope host ss).map _ _

end

end CSharp

/-! ### Rust -/

namespace Rust

variable {env env' : Env}

mutual

/-- An opened Rust item has the events it had. -/
theorem allItemEvents_opened (host : Host) :
    ∀ s : Stmt, allItemEvents host s.opened = itemEvents host s
  | .includeDecl _ ss => by
    rw [Stmt.opened, itemEvents]
    exact allItemEvents_openAll host ss
  | .namespaceDecl name members => by
    simp only [Stmt.opened, allItemEvents, itemEvents, List.append_nil,
      allItemEvents_openAll .space members]
  | .moduleDecl ⟨name, modifiers, attributes, members⟩ => by
    simp only [Stmt.opened, allItemEvents, itemEvents, List.append_nil,
      allItemEvents_openAll .module members]
  | .importDecl _ | .aliasDecl _ | .typeDecl _ _ | .enumDecl _ | .functionDecl _ _ | .fieldDecl _
  | .propertyDecl _ | .binding _ | .ifThen _ _ _ | .whileLoop _ _ | .forLoop _ _ _ _
  | .forEach _ _ _ _ | .ret _ | .breakLoop | .continueLoop | .matchOn _ _ | .switchOn _ _
  | .expr _ | .raw _ => by
    simp only [Stmt.opened, allItemEvents, List.append_nil]

theorem allItemEvents_openAll (host : Host) :
    ∀ ss : List Stmt, allItemEvents host (Stmt.openAll ss) = allItemEvents host ss
  | [] => rfl
  | s :: ss => by
    rw [Stmt.openAll, allItemEvents_eq_flatMap, List.flatMap_append, ← allItemEvents_eq_flatMap,
      ← allItemEvents_eq_flatMap, allItemEvents_opened host s, allItemEvents_openAll host ss,
      allItemEvents]

end

theorem items_singleton (place : Place) (host : Host) (s : Stmt) :
    items env place host [s] = item env place host s := by
  simp [items]

/-- Rust items are written one part after the other. -/
theorem items_append (place : Place) (host : Host) (ss ts : List Stmt) :
    items env place host (ss ++ ts) =
      (do return (← items env place host ss) ++ (← items env place host ts)) := by
  induction ss with
  | nil => simp [items]
  | cons s ss ih =>
    simp only [List.cons_append, items, ih, bind_assoc, pure_bind, List.append_assoc]

/-- Blank lines between the items of a namespace make no difference. -/
theorem alike_separatedItems_items (env : Env) (ss : List Stmt) :
    Gen.Alike target (allItemEvents .space ss) (separatedItems env ss)
      (items env {} .space ss) := by
  induction ss with
  | nil => exact .pure _ _
  | cons s ss ih =>
    rw [allItemEvents, separatedItems, items]
    exact .bind (alike_item rfl {} .space s) fun _ _ => ih.map _ _

theorem alike_separatedItems_openAll_of {ss : List Stmt}
    (h : Gen.Alike target (allItemEvents .space ss) (items env {} .space ss)
      (items env' {} .space (Stmt.openAll ss))) :
    Gen.Alike target (allItemEvents .space ss) (separatedItems env ss)
      (separatedItems env' (Stmt.openAll ss)) := by
  have hopened := alike_separatedItems_items env' (Stmt.openAll ss)
  rw [allItemEvents_openAll] at hopened
  exact (alike_separatedItems_items env ss).trans (h.trans hopened.symm)

mutual

/-- A Rust item is written alike when the includes inside it are opened. -/
theorem alike_item_opened (h : env.known = env'.known) (place : Place) (host : Host) :
    ∀ s : Stmt, Gen.Alike target (itemEvents host s) (item env place host s)
      (items env' place host s.opened)
  | .includeDecl _ ss => by
    rw [itemEvents, item, Stmt.opened]
    exact alike_items_openAll h place host ss
  | .namespaceDecl name decls => by
    rw [itemEvents, Stmt.opened, items_singleton, item, item]
    exact (alike_separatedItems_openAll_of (alike_items_openAll h {} .space decls)).map _ _
  | .moduleDecl ⟨name, modifiers, attributes, decls⟩ => by
    rw [itemEvents, Stmt.opened, items_singleton, item, item]
    refine target.alike_unlessMarked fun _ => ?_
    -- The attributes are written for the place around the module, the members for its own.
    extract_lets inner
    refine .bind (alike_attributeLines ⟨h, rfl, rfl⟩ attributes) fun _ _ => ?_
    exact (alike_items_openAll h _ .module decls).map _ _
  | .importDecl _ | .aliasDecl _ | .typeDecl _ _ | .enumDecl _ | .functionDecl _ _ | .fieldDecl _
  | .propertyDecl _ | .binding _ | .ifThen _ _ _ | .whileLoop _ _ | .forLoop _ _ _ _
  | .forEach _ _ _ _ | .ret _ | .breakLoop | .continueLoop | .matchOn _ _ | .switchOn _ _
  | .expr _ | .raw _ => by
    simp only [Stmt.opened, items_singleton]
    exact alike_item h place host _

/-- Rust items are written alike when the includes inside them are opened. -/
theorem alike_items_openAll (h : env.known = env'.known) (place : Place) (host : Host) :
    ∀ ss : List Stmt, Gen.Alike target (allItemEvents host ss) (items env place host ss)
      (items env' place host (Stmt.openAll ss))
  | [] => alike_items h place host []
  | s :: ss => by
    rw [allItemEvents, items, Stmt.openAll, items_append]
    exact .bind (alike_item_opened h place host s) fun _ _ =>
      (alike_items_openAll h place host ss).map _ _

end

end Rust

/-! ### Programs -/

namespace Program

variable (p : Program)

/-- The program with every include at the top, in namespaces and in modules opened. -/
def opened : Program :=
  ⟨Stmt.openAll p.stmts⟩

/-- A type inside a type shows only if includes are opened. -/
def HidesNestedType : Prop :=
  Stmt.findNestedType? (Stmt.flattenAll p.stmts) = none ∧
    Stmt.findNestedType? p.opened.stmts ≠ none

/-- The search for a static entry point answers something else if includes are opened. -/
def HidesStaticEntry : Prop :=
  CSharp.findStaticEntryPoint? "" (Stmt.flattenAll p.stmts) ≠
    CSharp.findStaticEntryPoint? "" p.opened.stmts

theorem flattenAll_opened : Stmt.flattenAll p.opened.stmts = p.opened.stmts :=
  Stmt.flattenAll_openAll p.stmts

theorem openAll_flattenAll : Stmt.openAll (Stmt.flattenAll p.stmts) = p.opened.stmts :=
  Stmt.openAll_flattenAll p.stmts

/-- Opening the includes changes the containers only. -/
theorem sections_opened :
    p.opened.sections =
      { p.sections with containers := Stmt.openAll p.sections.containers } := by
  rw [sections, flattenAll_opened, ← openAll_flattenAll]
  exact Sections.of_openAll (Stmt.isInclude_of_mem_flattenAll p.stmts)

/-- The same types are known. -/
theorem collect_opened :
    KnownTypes.collect (Stmt.flattenAll p.stmts) =
      KnownTypes.collect (Stmt.flattenAll p.opened.stmts) := by
  rw [flattenAll_opened, ← openAll_flattenAll]
  exact (KnownTypes.scanAll_openAll {} _).symm

variable {p}

theorem findNestedType?_of_opened (h : Stmt.findNestedType? p.opened.stmts = none) :
    Stmt.findNestedType? (Stmt.flattenAll p.stmts) = none := by
  rw [← openAll_flattenAll] at h
  exact Stmt.findNestedType?_of_openAll _ h

end Program

namespace Backend

variable (b : Backend) (p : Program)

/-- The same entry is named. -/
theorem hasEntry_opened :
    p.opened.sections.hasEntry b.config.entryName = p.sections.hasEntry b.config.entryName := by
  rw [p.sections_opened]
  rfl

theorem alike_gen_opened {b : Backend} {p : Program}
    (hnested : Stmt.findNestedType? p.opened.stmts = none)
    (hentry : b.entryPoint? p = b.entryPoint? p.opened) :
    Gen.Alike b.target (b.events p) (b.gen p) (b.gen p.opened) := by
  have hsame : (Stmt.findNestedType? (Stmt.flattenAll p.stmts)).isSome =
      (Stmt.findNestedType? (Stmt.flattenAll p.opened.stmts)).isSome := by
    rw [p.flattenAll_opened, hnested, Program.findNestedType?_of_opened hnested]
  have hcontainers : p.opened.sections.containers = Stmt.openAll p.sections.containers := by
    rw [p.sections_opened]
  have hsections : p.opened.sections =
      { p.sections with containers := p.opened.sections.containers } := by
    rw [hcontainers]
    exact p.sections_opened
  obtain ⟨language, config, services⟩ := b
  cases language with
  | csharp =>
    refine CSharp.alike_generate hsame p.collect_opened hsections (fun env => ?_)
      (congrArg Option.isSome hentry)
    rw [hcontainers]
    exact CSharp.alike_separated_openAll_of (CSharp.alike_members_openAll {} .space _)
  | rust =>
    refine Rust.alike_generate services.formatter
      (Rust.alike_compose hsame p.collect_opened hsections fun env env' h => ?_)
    rw [hcontainers]
    exact Rust.alike_items_openAll h {} .space _

/-- Opening includes changes the entry point only if the program has none of its own and a static
one is looked for. -/
theorem entryPoint?_opened_iff :
    b.entryPoint? p = b.entryPoint? p.opened ↔
      ¬ (b.language = .csharp ∧ p.sections.hasEntry b.config.entryName = false ∧
        p.HidesStaticEntry) := by
  have hentry := b.hasEntry_opened p
  obtain ⟨language, config, services⟩ := b
  cases language with
  | csharp =>
    dsimp only [entryPoint?, CSharp.entryPoint?, CSharp.implicitEntryPoint?] at hentry ⊢
    rw [hentry, p.flattenAll_opened]
    cases p.sections.hasEntry config.entryName with
    | true => simp
    | false => simp [Program.HidesStaticEntry]
  | rust =>
    dsimp only [entryPoint?] at hentry ⊢
    simp [hentry]

/-- A unit is generated only when no nested type is found in it. -/
theorem findNestedType?_of_generates {b : Backend} {p : Program} (h : b.Generates p) :
    Stmt.findNestedType? (Stmt.flattenAll p.stmts) = none := by
  rw [generates_iff] at h
  obtain ⟨language, config, services⟩ := b
  cases language with
  | csharp => exact (CSharp.refusal_notMem_events.mp h).1
  | rust => exact (Rust.refusal_notMem_events.mp h).1

/-- A nested type behind an include refuses the opened unit. -/
theorem not_generates_opened {b : Backend} {p : Program}
    (hnested : Stmt.findNestedType? p.opened.stmts ≠ none) : ¬ b.Generates p.opened := by
  intro h
  have hnone := findNestedType?_of_generates h
  rw [p.flattenAll_opened] at hnone
  exact hnested hnone

/-- A program and the one with its includes opened give both a unit or both none, with the same
entry point and the same imports, unless an include hides a type inside a type from a program that
is generated, or it hides a static entry point from a program without one of its own. -/
theorem generate_opened_iff :
    Outcome.AgreeOn (fun g => (g.entryPoint, g.imports)) (b.generate p) (b.generate p.opened) ↔
      ¬ (b.Generates p ∧ p.HidesNestedType) ∧
        ¬ (b.language = .csharp ∧ p.sections.hasEntry b.config.entryName = false ∧
          p.HidesStaticEntry ∧ (b.Generates p ∨ b.Generates p.opened)) := by
  by_cases hnested : Stmt.findNestedType? p.opened.stmts = none
  · have hshown : ¬ p.HidesNestedType := fun h => h.2 hnested
    by_cases hentry : b.entryPoint? p = b.entryPoint? p.opened
    · have hstatic := (b.entryPoint?_opened_iff p).mp hentry
      refine iff_of_true (agreeOn_of_alike (alike_gen_opened hnested hentry) hentry) ⟨?_, ?_⟩
      · exact fun h => hshown h.2
      · exact fun h => hstatic ⟨h.1, h.2.1, h.2.2.1⟩
    · -- Units with different entry points are not the same, so there must be none at all.
      have hstatic := Classical.not_not.mp (mt (b.entryPoint?_opened_iff p).mpr hentry)
      constructor
      · intro hagree
        obtain ⟨hiff, hview⟩ := Outcome.agreeOn_iff.mp hagree
        refine ⟨fun h => hshown h.2, ?_⟩
        rintro ⟨-, -, -, hgen⟩
        obtain ⟨g, hg⟩ : b.Generates p := hgen.elim id hiff.mpr
        obtain ⟨g', hg'⟩ : b.Generates p.opened := hiff.mp ⟨g, hg⟩
        have hsame : g.entryPoint = g'.entryPoint := congrArg Prod.fst (hview g g' hg hg')
        rw [entryPoint_of_generate hg, entryPoint_of_generate hg'] at hsame
        exact hentry hsame
      · rintro ⟨-, hhidden⟩
        have hnone : ¬ (b.Generates p ∨ b.Generates p.opened) :=
          fun h => hhidden ⟨hstatic.1, hstatic.2.1, hstatic.2.2, h⟩
        exact Outcome.agreeOn_of_none (fun h => hnone (.inl h)) fun h => hnone (.inr h)
  · -- The opened program is refused, so they agree exactly if the other one is refused as well.
    have hopened : ¬ b.Generates p.opened := not_generates_opened hnested
    constructor
    · intro hagree
      have hp : ¬ b.Generates p := fun h => hopened ((Outcome.agreeOn_iff.mp hagree).1.mp h)
      exact ⟨fun h => hp h.1, fun h => h.2.2.2.elim hp hopened⟩
    · rintro ⟨hhidden, -⟩
      have hp : ¬ b.Generates p :=
        fun h => hhidden ⟨h, findNestedType?_of_generates h, hnested⟩
      exact Outcome.agreeOn_of_none hp hopened

/-- A namespace that includes a class with a static entry point. -/
def includedMain : Program :=
  ⟨[.namespaceDecl "N" [.includeDecl "a.src" [.typeDecl .cls ⟨"App", [], [], [], none, [],
    [.functionDecl .method ⟨"Main", [], none, [], [], [], some [], false, true⟩]⟩]]]⟩

/-- An entry behind an include is found only when the include is opened. -/
theorem includedMain_changes_when_opened :
    ¬ Outcome.AgreeOn (fun g => (g.entryPoint, g.imports))
      (generate ⟨.csharp, {}, Resolver.dotnet⟩ includedMain)
      (generate ⟨.csharp, {}, Resolver.dotnet⟩ includedMain.opened) := by
  have hstatic : includedMain.HidesStaticEntry := by
    unfold Program.HidesStaticEntry
    decide
  have hopened : Generates ⟨.csharp, {}, Resolver.dotnet⟩ includedMain.opened :=
    generates_iff.mpr (by decide)
  intro hagree
  exact ((generate_opened_iff _ _).mp hagree).2 ⟨rfl, by decide, hstatic, .inr hopened⟩

end Backend

end SourceGen
