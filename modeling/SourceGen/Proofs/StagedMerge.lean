import Mathlib.Data.List.Basic
import SourceGen.Compose.Merge

/-!
# Merging in stages

Adding statements one after the other has a closed form: each group of a merged unit is a function
of all statements. Imports and aliases keep the first of each key, namespaces of one name are
joined at the place of the first, and every other group is a part of the statements. Each of these
functions gives the same for the statements of merged units as for the statements they were merged
from, so it does not matter in how many stages units are merged.

## Main definitions

* `firsts`: the first of each key.
* `Merge.joined`: namespaces with those of one name joined.
* `Merge.ofStmts`: the groups of some statements, without a fold.

## Main results

* `Merge.addAll_eq_ofStmts`: the fold computes the closed form.
* `Merge.stmts_ofStmts_append`: merged statements give the same groups as the statements themselves.
* `Program.merge_in_stages`: merging merged units is merging all units at once.
-/

namespace SourceGen

/-! ### The first of each key -/

section Firsts

variable {α : Type} {key : α → String}

/-- The items whose key no earlier item has. -/
def firsts (key : α → String) : List α → List α
  | [] => []
  | x :: xs => x :: (firsts key xs).filter (key · != key x)

/-- No item has the key of `x`. -/
def lacks (key : α → String) (xs : List α) (x : α) : Bool :=
  !xs.any (key · == key x)

/-- A key is missing when no element has it. -/
theorem lacks_iff {xs : List α} {x : α} : lacks key xs x = true ↔ ∀ y ∈ xs, key y ≠ key x := by
  simp [lacks]

/-- A key is missing exactly when a search for it fails. -/
theorem lacks_eq_isNone_find? (xs : List α) (x : α) :
    lacks key xs x = (xs.find? (key · == key x)).isNone := by
  rw [Bool.eq_iff_iff, lacks_iff, Option.isNone_iff_eq_none, List.find?_eq_none]
  simp

/-- The first item with a key is among the first items. -/
theorem find?_firsts (xs : List α) (k : String) :
    (firsts key xs).find? (key · == k) = xs.find? (key · == k) := by
  induction xs with
  | nil => rfl
  | cons x xs ih =>
    rw [firsts]
    by_cases hx : key x = k
    · simp [hx]
    · have hcons : ∀ zs, (x :: zs).find? (key · == k) = zs.find? (key · == k) := by
        intro zs
        simp [hx]
      rw [hcons, hcons, ← ih, List.find?_filter]
      congr 1
      funext y
      by_cases hy : key y = k
      · simp [hy, Ne.symm hx]
      · simp [hy]

/-- The first items have all the keys. -/
theorem lacks_firsts (xs : List α) (x : α) : lacks key (firsts key xs) x = lacks key xs x := by
  rw [lacks_eq_isNone_find?, lacks_eq_isNone_find?, find?_firsts]

/-- The first elements of two lists are those of the first, then those of the second it lacks. -/
theorem firsts_append (xs ys : List α) :
    firsts key (xs ++ ys) = firsts key xs ++ (firsts key ys).filter (lacks key xs) := by
  induction xs with
  | nil =>
    have h : (firsts key ys).filter (lacks key []) = firsts key ys :=
      List.filter_eq_self.mpr fun _ _ => rfl
    rw [h]
    rfl
  | cons x xs ih =>
    simp only [List.cons_append, firsts, ih, List.filter_append, List.filter_filter]
    congr 3
    funext y
    simp [lacks, bne, Bool.beq_comm]

/-- One more element is kept when its key is new. -/
theorem firsts_append_singleton (xs : List α) (x : α) :
    firsts key (xs ++ [x]) = if lacks key xs x then firsts key xs ++ [x] else firsts key xs := by
  rw [firsts_append]
  cases h : lacks key xs x <;> simp [firsts, h]

/-- No two of the first items have the same key. -/
theorem pairwise_firsts (xs : List α) : (firsts key xs).Pairwise (key · ≠ key ·) := by
  induction xs with
  | nil => exact .nil
  | cons x xs ih =>
    rw [firsts, List.pairwise_cons]
    refine ⟨fun y hy => ?_, ih.filter _⟩
    have hne : key y ≠ key x := by simpa using (List.mem_filter.mp hy).2
    exact hne.symm

/-- Elements with different keys are all kept. -/
theorem firsts_eq_self {xs : List α} (h : xs.Pairwise (key · ≠ key ·)) : firsts key xs = xs := by
  induction h with
  | nil => rfl
  | cons hx _ ih =>
    rw [firsts, ih, List.filter_eq_self.mpr]
    intro y hy
    simpa using (hx y hy).symm

/-- It does not matter whether repeats are dropped in each part first. -/
theorem firsts_append_firsts (xs ys : List α) :
    firsts key (firsts key xs ++ firsts key ys) = firsts key (xs ++ ys) := by
  rw [firsts_append, firsts_append, firsts_eq_self (pairwise_firsts xs),
    firsts_eq_self (pairwise_firsts ys)]
  congr 2
  funext x
  exact lacks_firsts xs x

end Firsts

namespace Merge

/-! ### Namespaces -/

section Namespaces

variable {name : String} {spaces : List (String × List Stmt)}

/-- The members of all namespaces of one name. -/
def gathered (name : String) (spaces : List (String × List Stmt)) : List Stmt :=
  spaces.flatMap fun space => if space.1 = name then space.2 else []

/-- One namespace for each name, at the place of the first of them, with the members of all. -/
def joined (spaces : List (String × List Stmt)) : List (String × List Stmt) :=
  (firsts id (spaces.map Prod.fst)).map fun name => (name, gathered name spaces)

/-- The members gathered under a name are gathered in order. -/
theorem gathered_append (spaces others : List (String × List Stmt)) :
    gathered name (spaces ++ others) = gathered name spaces ++ gathered name others := by
  simp [gathered]

theorem gathered_eq_nil (h : name ∉ spaces.map Prod.fst) : gathered name spaces = [] := by
  rw [gathered, List.flatMap_eq_nil_iff]
  intro space hspace
  rw [if_neg]
  rintro rfl
  exact h (List.mem_map_of_mem hspace)

/-- Joining goes to the one namespace of the name, if there is one. -/
theorem joinNamespace_map {names : List String} {members : List Stmt} {f : String → List Stmt}
    (hnames : names.Nodup) :
    joinNamespace name members (names.map fun n => (n, f n)) =
      (names.map fun n => (n, f n ++ if n = name then members else [])) ++
        if name ∈ names then [] else [(name, members)] := by
  induction names with
  | nil => simp [joinNamespace]
  | cons n ns ih =>
    obtain ⟨hn, hns⟩ := List.nodup_cons.mp hnames
    rw [List.map_cons, joinNamespace]
    by_cases h : n = name
    · -- No other name is this one, so nothing else changes.
      subst h
      have hrest : (ns.map fun m => (m, f m ++ if m = n then members else [])) =
          ns.map fun m => (m, f m) := by
        refine List.map_congr_left fun m hm => ?_
        have hne : m ≠ n := by
          rintro rfl
          exact hn hm
        rw [if_neg hne, List.append_nil]
      simp [hrest]
    · rw [if_neg h, ih hns]
      simp [h, Ne.symm h]

/-- No name is kept twice. -/
theorem nodup_firsts_id (names : List String) : (firsts id names).Nodup :=
  pairwise_firsts names

theorem lacks_id (names : List String) (name : String) :
    lacks id names name = decide (name ∉ names) := by
  rw [Bool.eq_iff_iff, lacks_iff, decide_eq_true_iff]
  constructor
  · intro h hmem
    exact h name hmem rfl
  · rintro h n hn rfl
    exact h hn

/-- Every name is kept once. -/
theorem mem_firsts_id {names : List String} : name ∈ firsts id names ↔ name ∈ names := by
  have h : lacks id (firsts id names) name = lacks id names name := lacks_firsts names name
  rw [lacks_id, lacks_id, decide_eq_decide] at h
  exact not_iff_not.mp h

/-- Joining one more namespace is joining the longer list. -/
theorem joinNamespace_joined (name : String) (members : List Stmt)
    (spaces : List (String × List Stmt)) :
    joinNamespace name members (joined spaces) = joined (spaces ++ [(name, members)]) := by
  have hgathered : ∀ n, gathered n (spaces ++ [(name, members)]) =
      gathered n spaces ++ if n = name then members else [] := by
    intro n
    rw [gathered_append]
    simp [gathered, eq_comm]
  rw [joined, joinNamespace_map (nodup_firsts_id _), joined]
  simp only [hgathered, mem_firsts_id, List.map_append, List.map_cons, List.map_nil,
    firsts_append_singleton, lacks_id]
  by_cases h : name ∈ spaces.map Prod.fst
  · simp [h]
  · simp [h, gathered_eq_nil h]

/-- The joined namespaces have each name once, in the order of first appearance. -/
theorem map_fst_joined (spaces : List (String × List Stmt)) :
    (joined spaces).map Prod.fst = firsts id (spaces.map Prod.fst) := by
  simp [joined, Function.comp_def]

/-- Joining loses no member of a namespace. -/
theorem gathered_joined (name : String) (spaces : List (String × List Stmt)) :
    gathered name (joined spaces) = gathered name spaces := by
  have hone : ∀ names : List String, names.Nodup →
      gathered name (names.map fun n => (n, gathered n spaces)) =
        if name ∈ names then gathered name spaces else [] := by
    intro names hnames
    induction names with
    | nil => rfl
    | cons n ns ih =>
      obtain ⟨hn, hns⟩ := List.nodup_cons.mp hnames
      have hcons : gathered name ((n :: ns).map fun n => (n, gathered n spaces)) =
          (if n = name then gathered n spaces else []) ++
            gathered name (ns.map fun n => (n, gathered n spaces)) := rfl
      rw [hcons, ih hns]
      by_cases h : n = name
      · subst h
        simp [hn]
      · simp [h, Ne.symm h]
  rw [joined, hone _ (nodup_firsts_id _)]
  split
  · rfl
  · rename_i h
    exact (gathered_eq_nil fun hmem => h (mem_firsts_id.mpr hmem)).symm

/-- It does not matter whether the namespaces of each part are joined first. -/
theorem joined_append_joined (spaces others : List (String × List Stmt)) :
    joined (joined spaces ++ joined others) = joined (spaces ++ others) := by
  unfold joined
  rw [List.map_append, ← joined, ← joined, map_fst_joined, map_fst_joined, firsts_append_firsts,
    List.map_append]
  refine List.map_congr_left fun name _ => ?_
  rw [gathered_append, gathered_append, gathered_joined, gathered_joined]

end Namespaces

/-! ### Aliases -/

/-- The warning about an alias, if an alias of its name with another target comes first. -/
def conflict? (aliases : List Alias) (d : Alias) : Option Diagnostic :=
  match aliases.find? (·.name == d.name) with
  | some kept => if kept.target = d.target then none else some (conflict kept d)
  | none => none

/-- The warnings about all aliases that contradict the first one of their name. -/
def conflicts (aliases : List Alias) : List Diagnostic :=
  aliases.filterMap (conflict? aliases)

/-- One more alias adds at most one conflict. -/
theorem conflicts_append_singleton (aliases : List Alias) (d : Alias) :
    conflicts (aliases ++ [d]) = conflicts aliases ++ (conflict? aliases d).toList := by
  -- A new alias at the end is the first of its name only for itself.
  have hearlier : ∀ e ∈ aliases, conflict? (aliases ++ [d]) e = conflict? aliases e := by
    intro e he
    have hfound : (aliases.find? (·.name == e.name)).isSome := by
      rw [List.find?_isSome]
      exact ⟨e, he, by simp⟩
    rw [conflict?, List.find?_append, Option.or_of_isSome hfound, conflict?]
  have hnew : conflict? (aliases ++ [d]) d = conflict? aliases d := by
    rw [conflict?, List.find?_append, conflict?]
    cases h : aliases.find? (·.name == d.name) <;> simp
  rw [conflicts, List.filterMap_append, List.filterMap_congr hearlier, conflicts]
  cases h : conflict? aliases d <;> simp [hnew, h]

end Merge

/-! ### All groups -/

/-- The group of a merged unit that a statement belongs to. -/
inductive MergeGroup where
  | imports | aliases | namespaces | types | functions | members | loose
  deriving DecidableEq, Repr

namespace Stmt

/-- The group of a statement. -/
def mergeGroup : Stmt → MergeGroup
  | .importDecl _ => .imports
  | .aliasDecl _ => .aliases
  | .namespaceDecl _ _ => .namespaces
  | .typeDecl _ _ | .enumDecl _ | .moduleDecl _ => .types
  | .functionDecl _ _ => .functions
  | .fieldDecl _ | .propertyDecl _ => .members
  | _ => .loose

/-- The statements of one group. -/
def inGroup (group : MergeGroup) (ss : List Stmt) : List Stmt :=
  ss.filter (·.mergeGroup = group)

/-- The import that a statement is. -/
def import? : Stmt → Option Import
  | .importDecl d => some d
  | _ => none

/-- The alias that a statement is. -/
def alias? : Stmt → Option Alias
  | .aliasDecl d => some d
  | _ => none

/-- The namespace that a statement is, as its name and its members. -/
def space? : Stmt → Option (String × List Stmt)
  | .namespaceDecl name members => some (name, members)
  | _ => none

/-- One more statement joins its own group. -/
theorem inGroup_append_singleton (group : MergeGroup) (ss : List Stmt) (s : Stmt) :
    inGroup group (ss ++ [s]) = inGroup group ss ++ if s.mergeGroup = group then [s] else [] := by
  rw [inGroup, List.filter_append, List.filter_singleton]
  simp only [inGroup, Bool.cond_decide]

end Stmt

namespace Merge

/-- The groups of some statements, each read off all of them at once. -/
def ofStmts (ss : List Stmt) : Merge where
  imports := firsts Import.key (ss.filterMap Stmt.import?)
  aliases := firsts Alias.name (ss.filterMap Stmt.alias?)
  namespaces := joined (ss.filterMap Stmt.space?)
  types := Stmt.inGroup .types ss
  functions := Stmt.inGroup .functions ss
  members := Stmt.inGroup .members ss
  loose := Stmt.inGroup .loose ss
  diagnostics := conflicts (ss.filterMap Stmt.alias?)

/-- Adding an import is merging one more statement. -/
theorem addImport_ofStmts (ss : List Stmt) (d : Import) :
    (ofStmts ss).addImport d = ofStmts (ss ++ [.importDecl d]) := by
  have hany : (ofStmts ss).imports.any (·.key == d.key) =
      !lacks Import.key (ss.filterMap Stmt.import?) d := by
    rw [← lacks_firsts, lacks, Bool.not_not]
    rfl
  rw [addImport, hany]
  cases h : lacks Import.key (ss.filterMap Stmt.import?) d <;>
    simp [ofStmts, List.filterMap_cons, Stmt.import?, Stmt.alias?, Stmt.space?,
      firsts_append_singleton, h, Stmt.inGroup_append_singleton, Stmt.mergeGroup]

/-- Adding an alias is merging one more statement. -/
theorem addAlias_ofStmts (ss : List Stmt) (d : Alias) :
    (ofStmts ss).addAlias d = ofStmts (ss ++ [.aliasDecl d]) := by
  have hfind : (ofStmts ss).aliases.find? (·.name == d.name) =
      (ss.filterMap Stmt.alias?).find? (·.name == d.name) :=
    find?_firsts _ _
  rw [addAlias, hfind]
  cases h : (ss.filterMap Stmt.alias?).find? (·.name == d.name) with
  | none =>
    simp [ofStmts, List.filterMap_cons, Stmt.import?, Stmt.alias?, Stmt.space?,
      firsts_append_singleton, lacks_eq_isNone_find?, h, conflicts_append_singleton, conflict?,
      Stmt.inGroup_append_singleton, Stmt.mergeGroup]
  | some kept =>
    by_cases htarget : kept.target = d.target <;>
      simp [ofStmts, List.filterMap_cons, Stmt.import?, Stmt.alias?, Stmt.space?,
        firsts_append_singleton, lacks_eq_isNone_find?, h, conflicts_append_singleton, conflict?,
        htarget, Stmt.inGroup_append_singleton, Stmt.mergeGroup]

/-- What is no import, alias or namespace goes to the end of its group. -/
theorem ofStmts_append_singleton (ss : List Stmt) {s : Stmt} (himport : s.import? = none)
    (halias : s.alias? = none) (hspace : s.space? = none) :
    ofStmts (ss ++ [s]) =
      { ofStmts ss with
        types := (ofStmts ss).types ++ if s.mergeGroup = .types then [s] else []
        functions := (ofStmts ss).functions ++ if s.mergeGroup = .functions then [s] else []
        members := (ofStmts ss).members ++ if s.mergeGroup = .members then [s] else []
        loose := (ofStmts ss).loose ++ if s.mergeGroup = .loose then [s] else [] } := by
  simp [ofStmts, himport, halias, hspace, Stmt.inGroup_append_singleton]

/-- One more statement at the end changes the groups as adding it does. -/
theorem add_ofStmts (ss : List Stmt) (s : Stmt) : (ofStmts ss).add s = ofStmts (ss ++ [s]) := by
  cases s with
  | importDecl d => exact addImport_ofStmts ss d
  | aliasDecl d => exact addAlias_ofStmts ss d
  | namespaceDecl name members =>
    simp [add, ofStmts, List.filterMap_cons, Stmt.import?, Stmt.alias?, Stmt.space?,
      joinNamespace_joined, Stmt.inGroup_append_singleton, Stmt.mergeGroup]
  | _ =>
    rw [ofStmts_append_singleton ss rfl rfl rfl]
    simp only [add, Stmt.mergeGroup, reduceCtorEq, if_true, if_false, List.append_nil]

/-- Adding statements one by one is merging the longer list. -/
theorem addAll_ofStmts (ss ts : List Stmt) : (ofStmts ss).addAll ts = ofStmts (ss ++ ts) := by
  induction ts generalizing ss with
  | nil => simp [addAll]
  | cons t ts ih =>
    have hstep : (ofStmts ss).addAll (t :: ts) = ((ofStmts ss).add t).addAll ts := rfl
    rw [hstep, add_ofStmts, ih, List.append_assoc, List.singleton_append]

/-- Adding statements one after the other to nothing gives their groups. -/
theorem addAll_eq_ofStmts (ss : List Stmt) : addAll {} ss = ofStmts ss :=
  addAll_ofStmts [] ss

/-! ### The statements of merged units -/

/-- What is read off one group is found nowhere else. -/
theorem filterMap_inGroup {β : Type} {f : Stmt → Option β} {group home : MergeGroup}
    (h : ∀ s : Stmt, s.mergeGroup ≠ home → f s = none) (hgroup : group ≠ home) (ss : List Stmt) :
    (Stmt.inGroup group ss).filterMap f = [] := by
  rw [List.filterMap_eq_nil_iff]
  intro s hs
  have hs : s.mergeGroup = group := by simpa using (List.mem_filter.mp hs).2
  exact h s (hs ▸ hgroup)

theorem import?_eq_none (s : Stmt) (h : s.mergeGroup ≠ .imports) : s.import? = none := by
  cases s with
  | importDecl d => exact absurd rfl h
  | _ => rfl

theorem alias?_eq_none (s : Stmt) (h : s.mergeGroup ≠ .aliases) : s.alias? = none := by
  cases s with
  | aliasDecl d => exact absurd rfl h
  | _ => rfl

theorem space?_eq_none (s : Stmt) (h : s.mergeGroup ≠ .namespaces) : s.space? = none := by
  cases s with
  | namespaceDecl name members => exact absurd rfl h
  | _ => rfl

/-- The imports of a merged program are those of the merge. -/
theorem filterMap_import?_stmts (ss : List Stmt) :
    (ofStmts ss).stmts.filterMap Stmt.import? = (ofStmts ss).imports := by
  simp [stmts, ofStmts, List.filterMap_map, Function.comp_def, Stmt.import?,
    filterMap_inGroup import?_eq_none]

/-- The aliases of a merged program are those of the merge. -/
theorem filterMap_alias?_stmts (ss : List Stmt) :
    (ofStmts ss).stmts.filterMap Stmt.alias? = (ofStmts ss).aliases := by
  simp [stmts, ofStmts, List.filterMap_map, Function.comp_def, Stmt.alias?,
    filterMap_inGroup alias?_eq_none]

/-- The namespaces of a merged program are those of the merge. -/
theorem filterMap_space?_stmts (ss : List Stmt) :
    (ofStmts ss).stmts.filterMap Stmt.space? = (ofStmts ss).namespaces := by
  simp [stmts, ofStmts, List.filterMap_map, Function.comp_def, Stmt.space?,
    filterMap_inGroup space?_eq_none]

/-- A group is read off in order. -/
theorem inGroup_append (group : MergeGroup) (ss ts : List Stmt) :
    Stmt.inGroup group (ss ++ ts) = Stmt.inGroup group ss ++ Stmt.inGroup group ts :=
  List.filter_append ss ts

/-- Groups are disjoint. -/
theorem inGroup_inGroup (group other : MergeGroup) (ss : List Stmt) :
    Stmt.inGroup group (Stmt.inGroup other ss) =
      if group = other then Stmt.inGroup other ss else [] := by
  unfold Stmt.inGroup
  rw [List.filter_filter]
  split
  · rename_i h
    simp [h]
  · rename_i h
    rw [List.filter_eq_nil_iff]
    intro s _
    simp only [Bool.and_eq_true, decide_eq_true_eq, not_and]
    rintro rfl
    exact fun h' => h h'

/-- Statements made for one group are in no other. -/
theorem inGroup_map {α : Type} {f : α → Stmt} {group other : MergeGroup}
    (hf : ∀ a, (f a).mergeGroup = other) (hgroup : group ≠ other) (as : List α) :
    Stmt.inGroup group (as.map f) = [] := by
  rw [Stmt.inGroup, List.filter_eq_nil_iff]
  intro s hs
  obtain ⟨a, -, rfl⟩ := List.mem_map.mp hs
  simp [hf, Ne.symm hgroup]

/-- A group of plain statements is found again among the statements of a merged unit. -/
theorem inGroup_stmts {group : MergeGroup}
    (h : group ∉ [.imports, .aliases, .namespaces]) (ss : List Stmt) :
    Stmt.inGroup group (ofStmts ss).stmts = Stmt.inGroup group ss := by
  simp only [List.mem_cons, List.not_mem_nil, or_false, not_or] at h
  obtain ⟨himports, haliases, hnamespaces⟩ := h
  have himport : ∀ d, (Stmt.importDecl d).mergeGroup = .imports := fun _ => rfl
  have halias : ∀ d, (Stmt.aliasDecl d).mergeGroup = .aliases := fun _ => rfl
  simp only [stmts, inGroup_append, inGroup_map himport himports, inGroup_map halias haliases,
    List.nil_append]
  rw [inGroup_map ?hspace hnamespaces, List.nil_append]
  case hspace => exact fun _ => rfl
  cases group with
  | imports => exact absurd rfl himports
  | aliases => exact absurd rfl haliases
  | namespaces => exact absurd rfl hnamespaces
  | _ => simp [ofStmts, inGroup_inGroup]

/-- The statements of merged units have the same groups as the statements they were merged from. -/
theorem stmts_ofStmts_append (ss ts : List Stmt) :
    (ofStmts ((ofStmts ss).stmts ++ (ofStmts ts).stmts)).stmts = (ofStmts (ss ++ ts)).stmts := by
  have himports : (ofStmts ((ofStmts ss).stmts ++ (ofStmts ts).stmts)).imports =
      (ofStmts (ss ++ ts)).imports := by
    change firsts _ (List.filterMap _ _) = firsts _ (List.filterMap _ _)
    rw [List.filterMap_append, List.filterMap_append, filterMap_import?_stmts,
      filterMap_import?_stmts]
    exact firsts_append_firsts _ _
  have haliases : (ofStmts ((ofStmts ss).stmts ++ (ofStmts ts).stmts)).aliases =
      (ofStmts (ss ++ ts)).aliases := by
    change firsts _ (List.filterMap _ _) = firsts _ (List.filterMap _ _)
    rw [List.filterMap_append, List.filterMap_append, filterMap_alias?_stmts,
      filterMap_alias?_stmts]
    exact firsts_append_firsts _ _
  have hnamespaces : (ofStmts ((ofStmts ss).stmts ++ (ofStmts ts).stmts)).namespaces =
      (ofStmts (ss ++ ts)).namespaces := by
    change joined (List.filterMap _ _) = joined (List.filterMap _ _)
    rw [List.filterMap_append, List.filterMap_append, filterMap_space?_stmts,
      filterMap_space?_stmts]
    exact joined_append_joined _ _
  -- The other groups keep every statement, in order.
  have hgroup : ∀ group ∉ [MergeGroup.imports, .aliases, .namespaces],
      Stmt.inGroup group ((ofStmts ss).stmts ++ (ofStmts ts).stmts) =
        Stmt.inGroup group (ss ++ ts) := by
    intro group h
    rw [inGroup_append, inGroup_stmts h, inGroup_stmts h, inGroup_append]
  have htypes : (ofStmts ((ofStmts ss).stmts ++ (ofStmts ts).stmts)).types =
      (ofStmts (ss ++ ts)).types := hgroup .types (by decide)
  have hfunctions : (ofStmts ((ofStmts ss).stmts ++ (ofStmts ts).stmts)).functions =
      (ofStmts (ss ++ ts)).functions := hgroup .functions (by decide)
  have hmembers : (ofStmts ((ofStmts ss).stmts ++ (ofStmts ts).stmts)).members =
      (ofStmts (ss ++ ts)).members := hgroup .members (by decide)
  have hloose : (ofStmts ((ofStmts ss).stmts ++ (ofStmts ts).stmts)).loose =
      (ofStmts (ss ++ ts)).loose := hgroup .loose (by decide)
  rw [stmts, himports, haliases, hnamespaces, htypes, hfunctions, hmembers, hloose, stmts]

/-- No statement of a merged unit is an include. -/
theorem isInclude_of_mem_stmts {ss : List Stmt} (h : ∀ s ∈ ss, s.isInclude = false) :
    ∀ s ∈ (ofStmts ss).stmts, s.isInclude = false := by
  have hgroup : ∀ group, ∀ s ∈ Stmt.inGroup group ss, s.isInclude = false :=
    fun group s hs => h s (List.mem_filter.mp hs).1
  intro s hs
  simp only [stmts, List.mem_append, List.mem_map] at hs
  rcases hs with (((((⟨d, -, rfl⟩ | ⟨d, -, rfl⟩) | ⟨d, -, rfl⟩) | hs) | hs) | hs) | hs
  · rfl
  · rfl
  · rfl
  · exact hgroup .types s hs
  · exact hgroup .functions s hs
  · exact hgroup .members s hs
  · exact hgroup .loose s hs

end Merge

/-! ### Programs -/

namespace Stmt

mutual

/-- Nothing that a statement stands for is an include. -/
theorem isInclude_of_mem_flatten : ∀ (s : Stmt), ∀ t ∈ s.flatten, t.isInclude = false
  | .includeDecl _ stmts => by
    rw [flatten]
    exact isInclude_of_mem_flattenAll stmts
  | .importDecl _ | .aliasDecl _ | .namespaceDecl _ _ | .typeDecl _ _ | .enumDecl _ | .moduleDecl _
  | .functionDecl _ _ | .fieldDecl _ | .propertyDecl _ | .binding _ | .ifThen _ _ _
  | .whileLoop _ _ | .forLoop _ _ _ _ | .forEach _ _ _ _ | .ret _ | .breakLoop | .continueLoop
  | .matchOn _ _ | .switchOn _ _ | .expr _ | .raw _ => by
    intro t ht
    rw [flatten.eq_def, List.mem_singleton] at ht
    rw [ht]
    rfl

/-- No include is left after flattening. -/
theorem isInclude_of_mem_flattenAll : ∀ (ss : List Stmt), ∀ t ∈ flattenAll ss, t.isInclude = false
  | [] => by
    rw [flattenAll]
    simp
  | s :: ss => by
    rw [flattenAll]
    intro t ht
    rcases List.mem_append.mp ht with ht | ht
    · exact isInclude_of_mem_flatten s t ht
    · exact isInclude_of_mem_flattenAll ss t ht

end

/-- Statements without includes stand for themselves. -/
theorem flattenAll_eq_self {ss : List Stmt} (h : ∀ s ∈ ss, s.isInclude = false) :
    flattenAll ss = ss := by
  induction ss with
  | nil => rfl
  | cons s ss ih =>
    obtain ⟨hs, hss⟩ := List.forall_mem_cons.mp h
    have hflat : s.flatten = [s] := by
      cases s with
      | includeDecl path stmts => simp [isInclude] at hs
      | _ => rfl
    rw [flattenAll, hflat, ih hss, List.singleton_append]

end Stmt

namespace Program

/-- All statements of some units, with their includes opened. -/
def flatStmts (programs : List Program) : List Stmt :=
  programs.flatMap fun p => Stmt.flattenAll p.stmts

theorem isInclude_of_mem_flatStmts (programs : List Program) :
    ∀ s ∈ flatStmts programs, s.isInclude = false := by
  intro s hs
  obtain ⟨p, -, hp⟩ := List.mem_flatMap.mp hs
  exact Stmt.isInclude_of_mem_flattenAll p.stmts s hp

/-- Merging programs is merging their flattened statements. -/
theorem merge_eq (programs : List Program) :
    merge programs = (⟨(Merge.ofStmts (flatStmts programs)).stmts⟩,
      (Merge.ofStmts (flatStmts programs)).diagnostics) := by
  rw [merge, mergeGroups, Merge.addAll_eq_ofStmts]
  rfl

/-- A merged unit has no includes left to open. -/
theorem flattenAll_merge (programs : List Program) :
    Stmt.flattenAll (merge programs).1.stmts = (Merge.ofStmts (flatStmts programs)).stmts := by
  rw [merge_eq]
  exact Stmt.flattenAll_eq_self
    (Merge.isInclude_of_mem_stmts (isInclude_of_mem_flatStmts programs))

/-- Merging merged units gives the same unit as merging everything at once, and a merged unit stays
as it is when it is merged alone. -/
theorem merge_in_stages (ps qs : List Program) :
    (merge [(merge ps).1, (merge qs).1]).1 = (merge (ps ++ qs)).1 ∧
      (merge [(merge ps).1]).1 = (merge ps).1 := by
  -- A merged program is read back as the groups it was written from, so the second merge adds two
  -- grouped lists.
  have htwo : flatStmts [(merge ps).1, (merge qs).1] =
      (Merge.ofStmts (flatStmts ps)).stmts ++ (Merge.ofStmts (flatStmts qs)).stmts := by
    simp [flatStmts, flattenAll_merge]
  have hone : flatStmts [(merge ps).1] =
      (Merge.ofStmts (flatStmts ps)).stmts ++ (Merge.ofStmts []).stmts := by
    have hempty : (Merge.ofStmts []).stmts = [] := rfl
    simp [flatStmts, flattenAll_merge, hempty]
  have happend : flatStmts (ps ++ qs) = flatStmts ps ++ flatStmts qs := by
    simp [flatStmts]
  constructor
  · rw [merge_eq [_, _], htwo, Merge.stmts_ofStmts_append, merge_eq (ps ++ qs), happend]
  · rw [merge_eq [_], hone, Merge.stmts_ofStmts_append, List.append_nil, merge_eq ps]

end Program

end SourceGen
