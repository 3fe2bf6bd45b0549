import SourceGen.Proofs.BackendRun
import SourceGen.Proofs.CSharp.StaticEntry
import SourceGen.Proofs.StagedMerge
import SourceGen.Proofs.UnitSections

/-!
# Units of one merged program

Merging a single program groups its statements by kind, joins its namespaces and drops imports and
aliases that repeat others. What can be refused in a unit and what can be an entry point are single
declarations, whatever stands around them, so a program is generated exactly if the merged one is.

## Main results

* `Merge.forall_mem_stmts`: what holds of all declarations of a unit holds of the merged unit.
* `Backend.generateCombined_singleton`: a single program is generated exactly if it is merged first.
-/

namespace SourceGen

namespace Merge

variable {ss : List Stmt}

/-! ### Declarations of merged units -/

/-- Joining namespaces keeps their members. -/
theorem exists_mem_joined {m : Stmt} {spaces : List (String × List Stmt)} :
    (∃ space ∈ joined spaces, m ∈ space.2) ↔ ∃ space ∈ spaces, m ∈ space.2 := by
  constructor
  · rintro ⟨_, hjoined, hm⟩
    obtain ⟨name, -, rfl⟩ := List.mem_map.mp hjoined
    obtain ⟨space, hspace, hm⟩ := List.mem_flatMap.mp hm
    refine ⟨space, hspace, ?_⟩
    split at hm
    · exact hm
    · cases hm
  · rintro ⟨space, hspace, hm⟩
    have hname : space.1 ∈ firsts id (spaces.map Prod.fst) :=
      mem_firsts_id.mpr (List.mem_map_of_mem hspace)
    exact ⟨_, List.mem_map_of_mem hname, List.mem_flatMap.mpr ⟨space, hspace, by simpa using hm⟩⟩

/-- The statement is grouped with others as it is: it is no import, no alias and no namespace. -/
def keeps (s : Stmt) : Prop :=
  s.mergeGroup ∉ [MergeGroup.imports, .aliases, .namespaces]

theorem mem_stmts_iff {s : Stmt} (h : keeps s) : s ∈ (ofStmts ss).stmts ↔ s ∈ ss := by
  have hgroup : ∀ ts : List Stmt, s ∈ Stmt.inGroup s.mergeGroup ts ↔ s ∈ ts := by
    simp [Stmt.inGroup]
  rw [← hgroup, inGroup_stmts h, hgroup]

/-- Some namespace among the statements has this member. -/
def hasMember (ss : List Stmt) (m : Stmt) : Prop :=
  ∃ name members, .namespaceDecl name members ∈ ss ∧ m ∈ members

theorem hasMember_iff {m : Stmt} :
    hasMember ss m ↔ ∃ space ∈ ss.filterMap Stmt.space?, m ∈ space.2 := by
  constructor
  · rintro ⟨name, members, hs, hm⟩
    exact ⟨(name, members), List.mem_filterMap.mpr ⟨_, hs, rfl⟩, hm⟩
  · rintro ⟨space, hspace, hm⟩
    obtain ⟨s, hs, heq⟩ := List.mem_filterMap.mp hspace
    cases s with
    | namespaceDecl name members =>
      obtain rfl : (name, members) = space := Option.some.inj heq
      exact ⟨name, members, hs, hm⟩
    | _ => cases heq

theorem hasMember_stmts {m : Stmt} : hasMember (ofStmts ss).stmts m ↔ hasMember ss m := by
  rw [hasMember_iff, filterMap_space?_stmts, hasMember_iff]
  exact exists_mem_joined

/-- A property of statements holds of all of a unit if it holds of those that are grouped as they
are, and its counterpart holds of the members of namespaces. -/
theorem forall_mem_iff {P Q : Stmt → Prop} (himport : ∀ d, P (.importDecl d))
    (halias : ∀ d, P (.aliasDecl d))
    (hspace : ∀ name members, P (.namespaceDecl name members) ↔ ∀ m ∈ members, Q m) :
    (∀ s ∈ ss, P s) ↔ (∀ s, keeps s → s ∈ ss → P s) ∧ ∀ m, hasMember ss m → Q m := by
  constructor
  · intro h
    refine ⟨fun s _ hs => h s hs, ?_⟩
    rintro m ⟨name, members, hs, hm⟩
    exact (hspace name members).mp (h _ hs) m hm
  · rintro ⟨hkept, hmembers⟩ s hs
    -- Repeated imports and aliases may be dropped, so nothing may depend on them.
    cases s with
    | importDecl d => exact himport d
    | aliasDecl d => exact halias d
    | namespaceDecl name members =>
      exact (hspace name members).mpr fun m hm => hmembers m ⟨name, members, hs, hm⟩
    | _ => exact hkept _ (by simp [keeps, Stmt.mergeGroup]) hs

/-- Merging changes nothing about what holds of all statements and of all members of namespaces. -/
theorem forall_mem_stmts {P Q : Stmt → Prop} (himport : ∀ d, P (.importDecl d))
    (halias : ∀ d, P (.aliasDecl d))
    (hspace : ∀ name members, P (.namespaceDecl name members) ↔ ∀ m ∈ members, Q m) :
    (∀ s ∈ (ofStmts ss).stmts, P s) ↔ ∀ s ∈ ss, P s := by
  rw [forall_mem_iff himport halias hspace, forall_mem_iff himport halias hspace]
  refine and_congr (forall_congr' fun s => ?_) (forall_congr' fun m => ?_)
  · exact imp_congr_right fun hs => imp_congr_left (mem_stmts_iff hs)
  · exact imp_congr_left hasMember_stmts

/-! ### Sections of merged units -/

/-- What is read off the statements of one group is not changed by merging. -/
theorem filterMap_stmts {β : Type} {f : Stmt → Option β} (home : MergeGroup)
    (hhome : home ∉ [.imports, .aliases, .namespaces])
    (h : ∀ s : Stmt, s.mergeGroup ≠ home → f s = none) (ss : List Stmt) :
    (ofStmts ss).stmts.filterMap f = ss.filterMap f := by
  have hgroup : ∀ ts : List Stmt, ts.filterMap f = (Stmt.inGroup home ts).filterMap f := by
    intro ts
    rw [Stmt.inGroup, List.filterMap_filter]
    refine List.filterMap_congr fun s _ => ?_
    split
    · rfl
    · rename_i hs
      exact h s (by simpa using hs)
  rw [hgroup, inGroup_stmts hhome, ← hgroup]

theorem filter_stmts {p : Stmt → Bool} (home : MergeGroup)
    (hhome : home ∉ [.imports, .aliases, .namespaces])
    (h : ∀ s : Stmt, s.mergeGroup ≠ home → p s = false) (ss : List Stmt) :
    (ofStmts ss).stmts.filter p = ss.filter p := by
  rw [← List.filterMap_eq_filter]
  refine filterMap_stmts home hhome (fun s hs => ?_) ss
  simp [Option.guard, h s hs]

/-- Merging changes only the imports, the aliases and the containers of a unit. -/
theorem sections_stmts (ss : List Stmt) :
    Sections.of (ofStmts ss).stmts =
      { Sections.of ss with
        imports := (Sections.of (ofStmts ss).stmts).imports
        aliases := (Sections.of (ofStmts ss).stmts).aliases
        containers := (Sections.of (ofStmts ss).stmts).containers } := by
  -- Each of the other sections is read off the statements of one group.
  have hfunctions : (Sections.of (ofStmts ss).stmts).functions = (Sections.of ss).functions := by
    rw [Sections.functions_of, Sections.functions_of]
    refine filterMap_stmts .functions (by decide) (fun s hs => ?_) ss
    cases s <;> first | rfl | exact absurd rfl hs
  have hmembers : (Sections.of (ofStmts ss).stmts).members = (Sections.of ss).members := by
    rw [Sections.members_of, Sections.members_of]
    refine filter_stmts .members (by decide) (fun s hs => ?_) ss
    cases s <;> first | rfl | exact absurd rfl hs
  have hraw : (Sections.of (ofStmts ss).stmts).raw = (Sections.of ss).raw := by
    rw [Sections.raw_of, Sections.raw_of]
    refine filterMap_stmts .loose (by decide) (fun s hs => ?_) ss
    cases s <;> first | rfl | exact absurd rfl hs
  have hloose : (Sections.of (ofStmts ss).stmts).loose = (Sections.of ss).loose := by
    rw [Sections.loose_of, Sections.loose_of]
    refine filter_stmts .loose (by decide) (fun s hs => ?_) ss
    cases s <;> first | rfl | exact absurd rfl hs
  dsimp only
  rw [← hfunctions, ← hmembers, ← hraw, ← hloose]

end Merge

/-! ### Nested types -/

theorem Merge.findNestedType?_stmts_eq_none_iff (ss : List Stmt) :
    Stmt.findNestedType? (Merge.ofStmts ss).stmts = none ↔ Stmt.findNestedType? ss = none := by
  rw [Stmt.findNestedType?_eq_none_iff, Stmt.findNestedType?_eq_none_iff]
  refine Merge.forall_mem_stmts (Q := fun m => m.nestedType? = none) (fun _ => rfl) (fun _ => rfl)
    fun name members => ?_
  rw [Stmt.nestedType?, Stmt.findNestedType?_eq_none_iff]

namespace CSharp

/-! ### Static entry points -/

theorem findStaticEntryPoint?_stmts_eq_none_iff (ss : List Stmt) :
    findStaticEntryPoint? "" (Merge.ofStmts ss).stmts = none ↔
      findStaticEntryPoint? "" ss = none := by
  rw [findStaticEntryPoint?_eq_none_iff, findStaticEntryPoint?_eq_none_iff]
  refine Merge.forall_mem_stmts (Q := fun m => staticHost? m = none) (fun _ => rfl) (fun _ => rfl)
    fun name members => ?_
  rw [staticHost?, Option.map_eq_none_iff, findStaticHost?_eq_findSome?,
    List.findSome?_eq_none_iff]

theorem isSome_entryPoint?_stmts (config : Config) (ss : List Stmt) :
    (entryPoint? config (Merge.ofStmts ss).stmts (Sections.of (Merge.ofStmts ss).stmts)).isSome =
      (entryPoint? config ss (Sections.of ss)).isSome := by
  have himplicit : implicitEntryPoint? config (Sections.of (Merge.ofStmts ss).stmts) =
      implicitEntryPoint? config (Sections.of ss) := by
    rw [Merge.sections_stmts]
    rfl
  have hstatic : (findStaticEntryPoint? "" (Merge.ofStmts ss).stmts).isSome =
      (findStaticEntryPoint? "" ss).isSome := by
    rw [Bool.eq_iff_iff, Option.isSome_iff_ne_none, Option.isSome_iff_ne_none]
    exact not_congr (findStaticEntryPoint?_stmts_eq_none_iff ss)
  rw [entryPoint?, entryPoint?, himplicit]
  cases implicitEntryPoint? config (Sections.of ss) with
  | none => exact hstatic
  | some entry => rfl

/-! ### Refusals -/

theorem refusal_notMem_containers_stmts (ss : List Stmt) :
    Event.refusal ∉ allMemberEvents .space (Sections.of (Merge.ofStmts ss).stmts).containers ↔
      Event.refusal ∉ allMemberEvents .space (Sections.of ss).containers := by
  have hcontainers : ∀ ts : List Stmt,
      Event.refusal ∉ allMemberEvents .space (Sections.of ts).containers ↔
        ∀ s ∈ ts, s.isContainer = true → Event.refusal ∉ memberEvents .space s := by
    intro ts
    simp [allMemberEvents_eq_flatMap, Sections.containers_of]
  rw [hcontainers, hcontainers]
  refine Merge.forall_mem_stmts (Q := fun m => Event.refusal ∉ memberEvents .space m)
    (fun _ => nofun) (fun _ => nofun) fun name members => ?_
  simp [memberEvents, allMemberEvents_eq_flatMap, Stmt.isContainer]

theorem refusal_notMem_unitEvents_stmts (config : Config) (ss : List Stmt) :
    Event.refusal ∉ unitEvents config (Merge.ofStmts ss).stmts
        (Sections.of (Merge.ofStmts ss).stmts) ↔
      Event.refusal ∉ unitEvents config ss (Sections.of ss) := by
  have hraw : (Sections.of (Merge.ofStmts ss).stmts).raw = (Sections.of ss).raw := by
    rw [Merge.sections_stmts]
  have himplicit : implicitEvents config (Sections.of (Merge.ofStmts ss).stmts) =
      implicitEvents config (Sections.of ss) := by
    rw [Merge.sections_stmts]
    rfl
  simp only [unitEvents, List.mem_append, not_or, refusal_notMem_containers_stmts, hraw, himplicit,
    isSome_entryPoint?_stmts]

end CSharp

namespace Rust

theorem refusal_notMem_containers_stmts (ss : List Stmt) :
    Event.refusal ∉ allItemEvents .space (Sections.of (Merge.ofStmts ss).stmts).containers ↔
      Event.refusal ∉ allItemEvents .space (Sections.of ss).containers := by
  have hcontainers : ∀ ts : List Stmt,
      Event.refusal ∉ allItemEvents .space (Sections.of ts).containers ↔
        ∀ s ∈ ts, s.isContainer = true → Event.refusal ∉ itemEvents .space s := by
    intro ts
    simp [allItemEvents_eq_flatMap, Sections.containers_of]
  rw [hcontainers, hcontainers]
  refine Merge.forall_mem_stmts (Q := fun m => Event.refusal ∉ itemEvents .space m)
    (fun _ => nofun) (fun _ => nofun) fun name members => ?_
  simp [itemEvents, allItemEvents_eq_flatMap, Stmt.isContainer]

theorem hasEntry_stmts (ss : List Stmt) (entryName : String) :
    (Sections.of (Merge.ofStmts ss).stmts).hasEntry entryName =
      (Sections.of ss).hasEntry entryName := by
  rw [Merge.sections_stmts]
  rfl

theorem refusal_notMem_unitEvents_stmts (config : Config) (ss : List Stmt) :
    Event.refusal ∉ unitEvents config (Sections.of (Merge.ofStmts ss).stmts) ↔
      Event.refusal ∉ unitEvents config (Sections.of ss) := by
  have hraw : (Sections.of (Merge.ofStmts ss).stmts).raw = (Sections.of ss).raw := by
    rw [Merge.sections_stmts]
  have hmembers : (Sections.of (Merge.ofStmts ss).stmts).members = (Sections.of ss).members := by
    rw [Merge.sections_stmts]
  have hcode : (Sections.of (Merge.ofStmts ss).stmts).codeEvents false config.entryName =
      (Sections.of ss).codeEvents false config.entryName := by
    rw [Merge.sections_stmts]
    rfl
  simp only [unitEvents, List.mem_append, not_or, refusal_notMem_containers_stmts, hraw, hmembers,
    hcode, hasEntry_stmts]

end Rust

/-! ### Backends -/

namespace Backend

variable (b : Backend) (p : Program)

theorem flattenAll_merge_singleton :
    Stmt.flattenAll (Program.merge [p]).1.stmts =
      (Merge.ofStmts (Stmt.flattenAll p.stmts)).stmts := by
  rw [Program.flattenAll_merge]
  simp [Program.flatStmts]

theorem generates_merge_iff : b.Generates (Program.merge [p]).1 ↔ b.Generates p := by
  rw [generates_iff, generates_iff]
  obtain ⟨language, config, services⟩ := b
  cases language with
  | csharp =>
    change _ ∉ CSharp.events config _ ↔ _ ∉ CSharp.events config _
    rw [CSharp.refusal_notMem_events, CSharp.refusal_notMem_events, Program.sections,
      flattenAll_merge_singleton, Merge.findNestedType?_stmts_eq_none_iff,
      CSharp.refusal_notMem_unitEvents_stmts]
    rfl
  | rust =>
    change _ ∉ Rust.events config _ ↔ _ ∉ Rust.events config _
    rw [Rust.refusal_notMem_events, Rust.refusal_notMem_events, Program.sections,
      flattenAll_merge_singleton, Merge.findNestedType?_stmts_eq_none_iff,
      Rust.refusal_notMem_unitEvents_stmts]
    rfl

theorem isSome_entryPoint?_merge :
    (b.entryPoint? (Program.merge [p]).1).isSome = (b.entryPoint? p).isSome := by
  obtain ⟨language, config, services⟩ := b
  cases language with
  | csharp =>
    dsimp only [entryPoint?]
    rw [Program.sections, flattenAll_merge_singleton]
    exact CSharp.isSome_entryPoint?_stmts config _
  | rust =>
    dsimp only [entryPoint?]
    rw [Program.sections, flattenAll_merge_singleton, Rust.hasEntry_stmts]
    rfl

/-- Generating a single program and generating it after merging it give both a unit or both none,
and both units have an entry point or none has. -/
theorem generateCombined_singleton :
    Outcome.AgreeOn (·.entryPoint.isSome) (b.generate p) (b.generateCombined [p]) := by
  rw [Outcome.agreeOn_iff]
  refine ⟨(b.generates_merge_iff p).symm, fun g g' hg hg' => ?_⟩
  rw [entryPoint_of_generate hg, ← isSome_entryPoint?_merge]
  exact congrArg Option.isSome (entryPoint_of_generate hg').symm

end Backend

end SourceGen
