import Mathlib.Data.List.Induction
import SourceGen.Proofs.StagedMerge

/-!
# What a merged unit consists of

A merged unit has the statements of its units, with their includes opened, and no others. Of the
imports and aliases the first of each key is kept, all namespaces of a name become one, and all else
is kept as it is, grouped by kind. What is said about the unit here looks at one list, that of all
statements, and at what stands where in it.

## Main definitions

* `withNewKey`: the items of a list with a key that none before them has.
* `Stmt.gathering`: a namespace with the members of all namespaces of its name.
* `Stmt.aliasConflict?`: the warning about an alias that contradicts the first one of its name.

## Main results

* `Program.merge_keeps`: the statements of a merged unit and its warnings.
-/

namespace SourceGen

/-! ### Items with a new key -/

section NewKeys

variable {α β : Type} {key : α → Option String}

/-- The items with a key that no item before them has. -/
def withNewKey (key : α → Option String) (xs : List α) : List α :=
  xs.zipIdx.filterMap fun p : α × Nat =>
    if (key p.1).isSome ∧ ∀ y ∈ xs.take p.2, key y ≠ key p.1 then some p.1 else none

theorem withNewKey_append_singleton (xs : List α) (x : α) :
    withNewKey key (xs ++ [x]) = withNewKey key xs ++
      if (key x).isSome ∧ ∀ y ∈ xs, key y ≠ key x then [x] else [] := by
  rw [withNewKey, List.zipIdx_append, List.filterMap_append]
  congr 1
  · -- Nothing that stands in front of an item comes after it.
    refine List.filterMap_congr fun p hp => ?_
    have hp : p.2 < 0 + xs.length := by simpa using List.snd_lt_of_mem_zipIdx hp
    rw [List.take_append_of_le_length (by omega)]
  · have hall : (xs ++ [x]).take xs.length = xs := List.take_left
    rw [List.zipIdx_singleton, Nat.zero_add, List.filterMap_cons, List.filterMap_nil]
    dsimp only
    rw [hall]
    by_cases hnew : (key x).isSome ∧ ∀ y ∈ xs, key y ≠ key x
    · rw [if_pos hnew, if_pos hnew]
    · rw [if_neg hnew, if_neg hnew]

/-- What is made from the items with a new key is made from the first of each key. -/
theorem withNewKey_eq_firsts {read : α → Option β} {make : β → α} {name : β → String}
    (hread : ∀ x b, read x = some b → x = make b) (xs : List α) :
    withNewKey (fun x => (read x).map name) xs =
      (firsts name (xs.filterMap read)).map make := by
  induction xs using List.reverseRecOn with
  | nil => rfl
  | append_singleton xs x ih =>
    rw [withNewKey_append_singleton, ih, List.filterMap_append]
    cases hx : read x with
    | none => simp [hx]
    | some b =>
      have hlacks : (∀ y ∈ xs, (read y).map name ≠ some (name b)) ↔
          lacks name (xs.filterMap read) b = true := by
        rw [lacks_iff]
        simp only [List.mem_filterMap, ne_eq, Option.map_eq_some_iff, not_exists, not_and]
        exact ⟨fun h c ⟨y, hy, hc⟩ => h y hy c hc, fun h y hy c hc => h c ⟨y, hy, hc⟩⟩
      rw [show [x].filterMap read = [b] by simp [hx], firsts_append_singleton]
      simp only [Option.map_some, Option.isSome_some, true_and, hlacks]
      split
      · rw [List.map_append, List.map_singleton, ← hread x b hx]
      · rw [List.append_nil]

/-- The first of each key have the keys, each once. -/
theorem map_firsts {name : β → String} (xs : List β) :
    (firsts name xs).map name = firsts id (xs.map name) := by
  induction xs with
  | nil => rfl
  | cons x xs ih =>
    rw [List.map_cons, firsts, firsts, ← ih, List.map_cons, List.filter_map]
    rfl

end NewKeys

namespace Stmt

/-! ### Keys of statements -/

/-- What makes an import the same as another. -/
def importKey? (s : Stmt) : Option String :=
  s.import?.map Import.key

/-- The name of a type alias. -/
def aliasName? (s : Stmt) : Option String :=
  s.alias?.map Alias.name

/-- The name of a namespace. -/
def spaceName? (s : Stmt) : Option String :=
  s.space?.map Prod.fst

/-- The members of all namespaces of one name. -/
def membersOf (name : String) (all : List Stmt) : List Stmt :=
  all.flatMap fun
    | .namespaceDecl other members => if other = name then members else []
    | _ => []

/-- A namespace with the members of all namespaces of its name. -/
def gathering (all : List Stmt) : Stmt → Stmt
  | .namespaceDecl name _ => .namespaceDecl name (membersOf name all)
  | s => s

theorem membersOf_eq_gathered (name : String) (all : List Stmt) :
    membersOf name all = Merge.gathered name (all.filterMap space?) := by
  induction all with
  | nil => rfl
  | cons s all ih =>
    rw [membersOf, List.flatMap_cons, ← membersOf, ih]
    cases s <;> rfl

/-- The first alias of a name. -/
def firstAlias? (name : String) (all : List Stmt) : Option Alias :=
  (all.filterMap alias?).find? (·.name == name)

/-- The warning about an alias whose target is not that of the first alias of its name. -/
def aliasConflict? (all : List Stmt) (s : Stmt) : Option Diagnostic := do
  let d ← s.alias?
  let kept ← firstAlias? d.name all
  if kept.target = d.target then none else some (Merge.conflict kept d)

theorem severity_of_aliasConflict? {all : List Stmt} {s : Stmt} {warning : Diagnostic}
    (h : s.aliasConflict? all = some warning) : warning.severity = .warning := by
  obtain ⟨d, -, h⟩ := Option.bind_eq_some_iff.mp h
  obtain ⟨kept, -, h⟩ := Option.bind_eq_some_iff.mp h
  split at h
  · cases h
  · cases h
    rfl

end Stmt

namespace Program

/-- The statements of a merged unit, and its diagnostics: a warning for each alias with another
target than the first alias of its name, and nothing else. -/
theorem merge_keeps (programs : List Program) :
    (merge programs).1.stmts =
      withNewKey Stmt.importKey? (flatStmts programs) ++
      withNewKey Stmt.aliasName? (flatStmts programs) ++
      (withNewKey Stmt.spaceName? (flatStmts programs)).map
        (Stmt.gathering (flatStmts programs)) ++
      Stmt.inGroup .types (flatStmts programs) ++ Stmt.inGroup .functions (flatStmts programs) ++
      Stmt.inGroup .members (flatStmts programs) ++ Stmt.inGroup .loose (flatStmts programs) ∧
    (merge programs).2 =
      (flatStmts programs).filterMap (Stmt.aliasConflict? (flatStmts programs)) ∧
    ∀ d ∈ (merge programs).2, d.severity = .warning := by
  -- Group by group, the merge keeps the statements with a new key.
  have himports : withNewKey Stmt.importKey? (flatStmts programs) =
      (Merge.ofStmts (flatStmts programs)).imports.map .importDecl :=
    withNewKey_eq_firsts (by rintro (_ | _) d h <;> cases h; rfl) _
  have haliases : withNewKey Stmt.aliasName? (flatStmts programs) =
      (Merge.ofStmts (flatStmts programs)).aliases.map .aliasDecl :=
    withNewKey_eq_firsts (by rintro (_ | _) d h <;> cases h; rfl) _
  have hspaces : (withNewKey Stmt.spaceName? (flatStmts programs)).map
        (Stmt.gathering (flatStmts programs)) =
      (Merge.ofStmts (flatStmts programs)).namespaces.map
        fun space => .namespaceDecl space.1 space.2 := by
    have hfirsts : withNewKey Stmt.spaceName? (flatStmts programs) =
        (firsts Prod.fst ((flatStmts programs).filterMap Stmt.space?)).map
          fun space => .namespaceDecl space.1 space.2 :=
      withNewKey_eq_firsts (by rintro (_ | _) d h <;> cases h; rfl) _
    rw [hfirsts, Merge.ofStmts, Merge.joined, ← map_firsts, List.map_map, List.map_map,
      List.map_map]
    refine List.map_congr_left fun space _ => ?_
    change Stmt.namespaceDecl space.1 (Stmt.membersOf space.1 _) = _
    rw [Stmt.membersOf_eq_gathered]
    rfl
  have hwarnings : (flatStmts programs).filterMap (Stmt.aliasConflict? (flatStmts programs)) =
      (Merge.ofStmts (flatStmts programs)).diagnostics := by
    rw [Merge.ofStmts, Merge.conflicts, List.filterMap_filterMap]
    refine List.filterMap_congr fun s _ => ?_
    rw [Stmt.aliasConflict?]
    cases s.alias? with
    | none => rfl
    | some d =>
      change (Stmt.firstAlias? d.name (flatStmts programs)).bind _ = Merge.conflict? _ d
      rw [Merge.conflict?, ← Stmt.firstAlias?]
      cases Stmt.firstAlias? d.name (flatStmts programs) <;> rfl
  rw [merge_eq, himports, haliases, hspaces, hwarnings]
  refine ⟨rfl, rfl, fun d hd => ?_⟩
  obtain ⟨s, -, hs⟩ := List.mem_filterMap.mp (hwarnings ▸ hd)
  exact Stmt.severity_of_aliasConflict? hs

end Program

end SourceGen
