import SourceGen.Compose.NestedType
import SourceGen.Proofs.LooseCode

/-!
# Units statement by statement

Each section of a unit holds the statements of one kind, in the order of the unit, and a type inside
a type is looked for in one statement after the other.

## Main definitions

* `Stmt.isContainer`, `Stmt.isMember`: the kinds of statement that are kept as they are.
* `Stmt.function?`, `Stmt.raw?`: what is kept of a statement of another kind.

## Main results

* `Sections.part_of`: a section is read off statement by statement.
* `Stmt.findNestedType?_eq_none_iff`: no statement has a type inside a type.
-/

namespace SourceGen

namespace Stmt

/-- The statement is a namespace, a type or a module. -/
def isContainer : Stmt → Bool
  | .namespaceDecl _ _ | .typeDecl _ _ | .enumDecl _ | .moduleDecl _ => true
  | _ => false

/-- The statement is a field or a property. -/
def isMember : Stmt → Bool
  | .fieldDecl _ | .propertyDecl _ => true
  | _ => false

/-- The function that a statement declares. -/
def function? : Stmt → Option Function
  | .functionDecl _ f => some f
  | _ => none

/-- The raw block that a statement is. -/
def raw? : Stmt → Option RawBlock
  | .raw block => some block
  | _ => none

end Stmt

namespace Sections

/-- A section is read off statement by statement if each statement adds at most one thing to it. -/
theorem part_of {β : Type} {part : Sections → List β} {f : Stmt → Option β} (hnil : part {} = [])
    (hcons : ∀ s sections, part (cons s sections) = (f s).toList ++ part sections)
    (ss : List Stmt) : part (Sections.of ss) = ss.filterMap f := by
  induction ss with
  | nil => exact hnil
  | cons s ss ih =>
    have hstep : part (Sections.of (s :: ss)) = (f s).toList ++ part (Sections.of ss) := hcons s _
    rw [hstep, ih, List.filterMap_cons]
    cases f s <;> rfl

theorem functions_of (ss : List Stmt) :
    (Sections.of ss).functions = ss.filterMap Stmt.function? :=
  part_of rfl (fun s _ => by cases s <;> rfl) ss

theorem raw_of (ss : List Stmt) : (Sections.of ss).raw = ss.filterMap Stmt.raw? :=
  part_of rfl (fun s _ => by cases s <;> rfl) ss

theorem containers_of (ss : List Stmt) :
    (Sections.of ss).containers = ss.filter Stmt.isContainer := by
  rw [← List.filterMap_eq_filter]
  exact part_of rfl (fun s _ => by cases s <;> rfl) ss

theorem members_of (ss : List Stmt) : (Sections.of ss).members = ss.filter Stmt.isMember := by
  rw [← List.filterMap_eq_filter]
  exact part_of rfl (fun s _ => by cases s <;> rfl) ss

variable {ss : List Stmt} {s : Stmt} {f : Function} {block : RawBlock}

theorem mem_of_mem_containers (h : s ∈ (Sections.of ss).containers) : s ∈ ss := by
  rw [containers_of] at h
  exact (List.mem_filter.mp h).1

theorem mem_of_mem_members (h : s ∈ (Sections.of ss).members) : s ∈ ss := by
  rw [members_of] at h
  exact (List.mem_filter.mp h).1

theorem mem_of_mem_loose (h : s ∈ (Sections.of ss).loose) : s ∈ ss := by
  rw [loose_of] at h
  exact (List.mem_filter.mp h).1

theorem exists_mem_of_mem_functions (h : f ∈ (Sections.of ss).functions) :
    ∃ kind, .functionDecl kind f ∈ ss := by
  rw [functions_of] at h
  obtain ⟨s, hs, hf⟩ := List.mem_filterMap.mp h
  cases s with
  | functionDecl kind g =>
    obtain rfl : g = f := Option.some.inj hf
    exact ⟨kind, hs⟩
  | _ => cases hf

theorem mem_of_mem_raw (h : block ∈ (Sections.of ss).raw) : .raw block ∈ ss := by
  rw [raw_of] at h
  obtain ⟨s, hs, hblock⟩ := List.mem_filterMap.mp h
  cases s with
  | raw other =>
    obtain rfl : other = block := Option.some.inj hblock
    exact hs
  | _ => cases hblock

end Sections

/-! ### Nested types -/

theorem Stmt.findNestedType?_eq_findSome? (ss : List Stmt) :
    Stmt.findNestedType? ss = ss.findSome? Stmt.nestedType? := by
  induction ss with
  | nil => rfl
  | cons s ss ih =>
    rw [Stmt.findNestedType?, List.findSome?_cons, ih]
    cases s.nestedType? <;> rfl

theorem Stmt.findNestedType?_eq_none_iff {ss : List Stmt} :
    Stmt.findNestedType? ss = none ↔ ∀ s ∈ ss, s.nestedType? = none := by
  rw [Stmt.findNestedType?_eq_findSome?, List.findSome?_eq_none_iff]

end SourceGen
