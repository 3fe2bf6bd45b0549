import SourceGen.CSharp.Types
import SourceGen.Proofs.TypeCensus
import SourceGen.Proofs.Yields
import SourceGen.Rust.Types

/-!
# Failed type lookups

Both targets spell a normal reference from its head and from the spellings of its arguments. A
reference that they cannot look up gets a warning and the catch-all, and its arguments are not
looked at. So the warnings of one spelling are about the outermost references that fail, from left
to right.

## Main definitions

* `TypeRef.at?`: the reference at a path.
* `TypeRef.IsOutermost`: a reference fails, and none around it does.
* `TypeRef.outermost`: all of these, from left to right.
* `TypeDialect`: what decides how references are spelled in a target.
* `TypeDialect.Reports`: a run spells a reference and warns about each of these once.

## Main results

* `TypeRef.mem_outermost`, `TypeRef.pairwise_outermost`: the list is complete and in order.
* `TypeDialect.reports_gen`: what a run over a reference spells and reports.
* `failed_lookups_reported`: the same for both targets.
-/

namespace SourceGen

/-! ### References inside a reference -/

namespace TypeRef

/-- The reference at a path; each number of the path picks an argument. -/
def at? : TypeRef → List Nat → Option TypeRef
  | t, [] => some t
  | t, i :: path => t.args[i]?.bind fun arg => arg.at? path

@[simp]
theorem at?_nil (t : TypeRef) : t.at? [] = some t := by
  rw [at?]

theorem at?_cons (t : TypeRef) (i : Nat) (path : List Nat) :
    t.at? (i :: path) = t.args[i]?.bind fun arg => arg.at? path := by
  rw [at?]

variable (fails : TypeRef → Bool)

/-- The reference at the path fails, and none around it does. -/
def IsOutermost (t : TypeRef) (path : List Nat) (node : TypeRef) : Prop :=
  t.at? path = some node ∧ fails node ∧
    ∀ above outer, above <+: path → above ≠ path → t.at? above = some outer → fails outer = false

mutual

/-- The failing references around which none fails, with their paths, from left to right. -/
def outermost : TypeRef → List (List Nat × TypeRef)
  | ⟨name, args⟩ =>
    if fails ⟨name, args⟩ then [([], ⟨name, args⟩)] else outermostArgs 0 args

/-- Those in the arguments from the `i`th on. -/
def outermostArgs (i : Nat) : List TypeRef → List (List Nat × TypeRef)
  | [] => []
  | t :: ts => (outermost t).map (fun found => (i :: found.1, found.2)) ++ outermostArgs (i + 1) ts

end

variable {fails}

/-- A failing reference is the only outermost one in it. -/
theorem isOutermost_of_fails {t node : TypeRef} {path : List Nat} (h : fails t = true) :
    IsOutermost fails t path node ↔ path = [] ∧ node = t := by
  constructor
  · rintro ⟨hnode, -, hlast⟩
    cases path with
    | nil => exact ⟨rfl, by simpa using hnode.symm⟩
    | cons i rest =>
      have htop := hlast [] t List.nil_prefix (List.cons_ne_nil i rest).symm (at?_nil t)
      simp [h] at htop
  · rintro ⟨rfl, rfl⟩
    refine ⟨at?_nil _, h, fun above outer habove hne => ?_⟩
    exact absurd (List.prefix_nil.mp habove) hne

/-- The outermost failing references in a reference that does not fail are those in its
arguments. -/
theorem isOutermost_of_not_fails {t node : TypeRef} {path : List Nat} (h : fails t = false) :
    IsOutermost fails t path node ↔
      ∃ i rest arg, path = i :: rest ∧ t.args[i]? = some arg ∧ IsOutermost fails arg rest node := by
  constructor
  · rintro ⟨hnode, hfails, hlast⟩
    cases path with
    | nil =>
      obtain rfl : t = node := by simpa using hnode
      simp [h] at hfails
    | cons i rest =>
      rw [at?_cons] at hnode
      obtain ⟨arg, harg, hnode⟩ := Option.bind_eq_some_iff.mp hnode
      refine ⟨i, rest, arg, rfl, harg, hnode, hfails, fun above outer habove hne houter => ?_⟩
      refine hlast (i :: above) outer (List.cons_prefix_cons.mpr ⟨rfl, habove⟩)
        (by simpa using hne) ?_
      rw [at?_cons, harg]
      exact houter
  · rintro ⟨i, rest, arg, rfl, harg, hnode, hfails, hlast⟩
    refine ⟨by rw [at?_cons, harg]; exact hnode, hfails, fun above outer habove hne houter => ?_⟩
    cases above with
    | nil =>
      obtain rfl : t = outer := by simpa using houter
      exact h
    | cons j above =>
      obtain ⟨rfl, hinner⟩ := List.cons_prefix_cons.mp habove
      rw [at?_cons, harg] at houter
      exact hlast above outer hinner (by simpa using hne) houter

mutual

/-- The list has exactly the outermost failing references. -/
theorem mem_outermost {path : List Nat} {node : TypeRef} :
    ∀ t : TypeRef, (path, node) ∈ outermost fails t ↔ IsOutermost fails t path node
  | ⟨name, args⟩ => by
    rw [outermost]
    cases h : fails ⟨name, args⟩ with
    | true =>
      rw [if_pos rfl, isOutermost_of_fails h, List.mem_singleton, Prod.mk.injEq]
    | false =>
      rw [if_neg Bool.false_ne_true, mem_outermostArgs, isOutermost_of_not_fails h]
      simp only [Nat.zero_add]

theorem mem_outermostArgs {path : List Nat} {node : TypeRef} :
    ∀ {i : Nat} (ts : List TypeRef), (path, node) ∈ outermostArgs fails i ts ↔
      ∃ k rest t, path = (i + k) :: rest ∧ ts[k]? = some t ∧ IsOutermost fails t rest node
  | i, [] => by simp [outermostArgs]
  | i, t :: ts => by
    rw [outermostArgs, List.mem_append, mem_outermostArgs ts, List.mem_map]
    constructor
    · rintro (⟨⟨rest, inner⟩, hfound, heq⟩ | ⟨k, rest, u, rfl, hu, hfound⟩)
      · cases heq
        exact ⟨0, rest, t, rfl, rfl, (mem_outermost t).mp hfound⟩
      · exact ⟨k + 1, rest, u, by rw [Nat.add_right_comm, Nat.add_assoc], hu, hfound⟩
    · rintro ⟨k, rest, u, rfl, hu, hfound⟩
      cases k with
      | zero =>
        cases hu
        exact .inl ⟨(rest, node), (mem_outermost t).mpr hfound, rfl⟩
      | succ k =>
        exact .inr ⟨k, rest, u, by rw [Nat.add_right_comm, Nat.add_assoc], hu, hfound⟩

end

mutual

/-- The list goes from left to right. -/
theorem pairwise_outermost :
    ∀ t : TypeRef, (outermost fails t).Pairwise fun one other => one.1 < other.1
  | ⟨name, args⟩ => by
    rw [outermost]
    split
    · exact List.pairwise_singleton _ _
    · exact pairwise_outermostArgs 0 args

theorem pairwise_outermostArgs :
    ∀ (i : Nat) (ts : List TypeRef),
      (outermostArgs fails i ts).Pairwise fun one other => one.1 < other.1
  | _, [] => List.Pairwise.nil
  | i, t :: ts => by
    rw [outermostArgs, List.pairwise_append, List.pairwise_map]
    refine ⟨(pairwise_outermost t).imp fun h => List.cons_lt_cons_iff.mpr (.inr ⟨rfl, h⟩),
      pairwise_outermostArgs (i + 1) ts, ?_⟩
    rintro one hone ⟨path, node⟩ hother
    obtain ⟨found, -, rfl⟩ := List.mem_map.mp hone
    obtain ⟨k, rest, u, rfl, -⟩ := (mem_outermostArgs ts).mp hother
    exact List.cons_lt_cons_iff.mpr (.inl (by omega))

end

end TypeRef

namespace TypeRef

variable {generics : List (List GenericParam)} {known : KnownTypes} {type : TypeRef}

/-- A parameter has no arguments. -/
theorem args_of_classify_param {name : String} (h : classify generics known type = .param name) :
    type.args = [] := by
  obtain ⟨own, args⟩ := type
  rw [classify] at h
  grind

/-- A primitive type has no arguments. -/
theorem args_of_classify_primitive {p : Primitive}
    (h : classify generics known type = .primitive p) : type.args = [] := by
  obtain ⟨own, args⟩ := type
  rw [classify] at h
  grind

end TypeRef

/-! ### Spelling a reference -/

/-- What decides how references are spelled in a scope of a target. -/
structure TypeDialect where
  /-- The generic parameters in scope. -/
  generics : List (List GenericParam)
  known : KnownTypes
  /-- The spellings of names from outside the unit. -/
  resolve : String → Option String
  primitive : Primitive → String
  /-- A container with enough arguments. -/
  container : Container → List String → String
  /-- A qualified name. -/
  path : List Char → List Char
  /-- What a container is imported from. -/
  home? : Container → Option String
  catchAll : String
  /-- What to do about an unknown type. -/
  hint : String

namespace TypeDialect

variable (d : TypeDialect)

/-- The look-up of a normal reference fails: nothing is known about its name, neither in the unit
nor outside. -/
def fails (type : TypeRef) : Bool :=
  match type.classify d.generics d.known with
  | .unresolved name _ => (d.resolve name).isNone
  | _ => false

/-- The spelling of a normal reference that is found, from those of its arguments. -/
def build (type : TypeRef) (args : List String) : String :=
  match type.classify d.generics d.known with
  | .param name => name
  | .primitive type => d.primitive type
  | .container type _ => d.container type (type.fill args d.catchAll)
  | .declared name _ => name ++ Text.angled args
  | .qualified name _ => String.ofList (d.path name.toList) ++ Text.angled args
  | .unresolved name _ => (d.resolve name).getD d.catchAll ++ Text.angled args

/-- What a normal reference is imported from. -/
def needed? (type : TypeRef) : Option String :=
  match type.classify d.generics d.known with
  | .container type _ => d.home? type
  | _ => none

/-- The warning about a reference that cannot be looked up. It names the reference. -/
def warning (type : TypeRef) : Diagnostic :=
  (Diagnostic.warning
    ("unknown type `" ++ type.display ++ "`; using `" ++ d.catchAll ++ "`")).withHint d.hint

mutual

/-- The spelling of a normal reference: the catch-all stands for what cannot be looked up. -/
def spell : TypeRef → String
  | ⟨name, args⟩ =>
    if d.fails ⟨name, args⟩ then d.catchAll else d.build ⟨name, args⟩ (spellAll args)

/-- The spellings of normal references. -/
def spellAll : List TypeRef → List String
  | [] => []
  | t :: ts => spell t :: spellAll ts

end

mutual

/-- Spells a normal reference and records what that takes. -/
def gen : TypeRef → Gen String
  | ⟨name, args⟩ =>
    if d.fails ⟨name, args⟩ then do
      Gen.report (d.warning ⟨name, args⟩)
      return d.catchAll
    else do
      let spelled ← genAll args
      if let some needed := d.needed? ⟨name, args⟩ then
        Gen.requireImport needed
      return d.build ⟨name, args⟩ spelled

/-- Spells normal references, from left to right. -/
def genAll : List TypeRef → Gen (List String)
  | [] => return []
  | t :: ts => return (← gen t) :: (← genAll ts)

end

variable {d}

/-- A run over a reference, shape by shape. -/
theorem gen_eq (name : String) (args : List TypeRef) :
    d.gen ⟨name, args⟩ =
      match TypeRef.classify d.generics d.known ⟨name, args⟩ with
      | .param name => return name
      | .primitive type => return d.primitive type
      | .container type _ => do
        let mapped ← d.genAll args
        if let some needed := d.home? type then
          Gen.requireImport needed
        return d.container type (type.fill mapped d.catchAll)
      | .declared name _ => return name ++ Text.angled (← d.genAll args)
      | .qualified name _ =>
        return String.ofList (d.path name.toList) ++ Text.angled (← d.genAll args)
      | .unresolved name _ =>
        match d.resolve name with
        | some spelling => return spelling ++ Text.angled (← d.genAll args)
        | none => do
          Gen.report (d.warning ⟨name, args⟩)
          return d.catchAll := by
  rw [gen]
  cases hshape : TypeRef.classify d.generics d.known ⟨name, args⟩ with
  | param own =>
    cases TypeRef.args_of_classify_param hshape
    simp [fails, build, needed?, hshape, genAll]
  | primitive p =>
    cases TypeRef.args_of_classify_primitive hshape
    simp [fails, build, needed?, hshape, genAll]
  | container c inner =>
    cases hneeded : d.home? c with
    | some needed => simp [fails, build, needed?, hshape, hneeded]
    | none => simp [fails, build, needed?, hshape, hneeded]
  | declared own inner => simp [fails, build, needed?, hshape]
  | qualified own inner => simp [fails, build, needed?, hshape]
  | unresolved own inner =>
    cases TypeRef.eq_of_classify_unresolved hshape
    cases hresolved : d.resolve name with
    | some spelling => simp [fails, build, needed?, hshape, hresolved]
    | none => simp [fails, hshape, hresolved]

variable (d)

/-- From every journal, the run spells the reference and warns exactly once about each of its
outermost failing references, from left to right. Their spelling is the catch-all. -/
def Reports (x : Gen String) (t : TypeRef) : Prop :=
  ∀ j : Journal, ∃ (failing : List (List Nat × TypeRef)) (imports : List String),
    (∀ path node, (path, node) ∈ failing ↔ t.IsOutermost d.fails path node) ∧
    (failing.Pairwise fun one other => one.1 < other.1) ∧
    (∀ found ∈ failing, d.spell found.2 = d.catchAll) ∧
    x.Yields j (d.spell t)
      { j with
        diagnostics := j.diagnostics ++ failing.map fun found => d.warning found.2
        imports }

variable {d}

theorem spell_of_fails {t : TypeRef} (h : d.fails t) : d.spell t = d.catchAll := by
  obtain ⟨name, args⟩ := t
  rw [spell, if_pos h]

mutual

/-- A run reports the outermost failing references. -/
theorem yields_gen :
    ∀ (t : TypeRef) (j : Journal), ∃ imports, (d.gen t).Yields j (d.spell t)
      { j with
        diagnostics := j.diagnostics ++ (t.outermost d.fails).map fun found => d.warning found.2
        imports }
  | ⟨name, args⟩, j => by
    rw [gen, spell, TypeRef.outermost]
    cases d.fails ⟨name, args⟩ with
    | true =>
      exact ⟨j.imports, Gen.yields_bind.mpr
        ⟨(), _, Gen.yields_report.mpr rfl, Gen.yields_pure.mpr ⟨rfl, rfl⟩⟩⟩
    | false =>
      simp only [if_neg Bool.false_ne_true]
      obtain ⟨imports, hargs⟩ := yields_genAll args 0 j
      cases hneeded : d.needed? ⟨name, args⟩ with
      | none => exact ⟨imports, Gen.yields_bind.mpr ⟨_, _, hargs, by simp⟩⟩
      | some needed =>
        exact ⟨Journal.insertSorted needed imports, Gen.yields_bind.mpr ⟨_, _, hargs,
          Gen.yields_bind.mpr ⟨(), _, Gen.yields_requireImport.mpr rfl,
            Gen.yields_pure.mpr ⟨rfl, rfl⟩⟩⟩⟩

theorem yields_genAll :
    ∀ (ts : List TypeRef) (i : Nat) (j : Journal), ∃ imports, (d.genAll ts).Yields j (d.spellAll ts)
      { j with
        diagnostics := j.diagnostics ++
          (TypeRef.outermostArgs d.fails i ts).map fun found => d.warning found.2
        imports }
  | [], _, j => by
    rw [genAll, spellAll, TypeRef.outermostArgs]
    exact ⟨j.imports, by simp⟩
  | t :: ts, i, j => by
    rw [genAll, spellAll, TypeRef.outermostArgs]
    obtain ⟨imports, hhead⟩ := yields_gen t j
    obtain ⟨imports', htail⟩ := yields_genAll ts (i + 1) _
    refine ⟨imports', Gen.yields_bind.mpr ⟨_, _, hhead, Gen.yields_bind.mpr ⟨_, _, htail, ?_⟩⟩⟩
    simp [Function.comp_def]

end

theorem reports_gen (t : TypeRef) : d.Reports (d.gen t) t := by
  intro j
  obtain ⟨imports, hrun⟩ := yields_gen t j
  refine ⟨t.outermost d.fails, imports, fun path node => TypeRef.mem_outermost t,
    TypeRef.pairwise_outermost t, fun found hfound => ?_, hrun⟩
  exact spell_of_fails ((TypeRef.mem_outermost t).mp hfound).2.1

end TypeDialect

/-! ### The two targets -/

namespace CSharp

/-- How references are spelled in C#. -/
def typeDialect (env : Env) (scope : Scope) : TypeDialect where
  generics := scope.generics
  known := env.known
  resolve := env.resolver.resolve
  primitive := primitive
  container := containerSpelling
  path := dotted
  home? := containerNamespace?
  catchAll := catchAll
  hint := "declare the type in this unit or import its namespace"

variable {env : Env} {scope : Scope}

mutual

theorem mapNormal_eq_gen :
    ∀ type : TypeRef, mapNormal env scope type = (typeDialect env scope).gen type
  | ⟨name, args⟩ => by
    rw [mapNormal, mapNormalAll_eq_genAll args, TypeDialect.gen_eq]
    rfl

theorem mapNormalAll_eq_genAll :
    ∀ types : List TypeRef, mapNormalAll env scope types = (typeDialect env scope).genAll types
  | [] => by rw [mapNormalAll, TypeDialect.genAll]
  | t :: ts => by
    rw [mapNormalAll, TypeDialect.genAll, mapNormal_eq_gen t, mapNormalAll_eq_genAll ts]

end

end CSharp

namespace Rust

/-- How references are spelled in Rust. No name is known from outside the unit. -/
def typeDialect (known : KnownTypes) (scope : Scope) : TypeDialect where
  generics := scope.generics
  known := known
  resolve _ := none
  primitive := primitive
  container := containerSpelling
  path := coloned
  home? := containerImport?
  catchAll := catchAll
  hint := "declare the type in this unit or refer to it by its full path"

variable {known : KnownTypes} {scope : Scope}

mutual

theorem mapNormal_eq_gen :
    ∀ type : TypeRef, mapNormal known scope type = (typeDialect known scope).gen type
  | ⟨name, args⟩ => by
    rw [mapNormal, mapNormalAll_eq_genAll args, TypeDialect.gen_eq]
    cases hshape : TypeRef.classify scope.generics known ⟨name, args⟩ with
    | unresolved own inner =>
      cases TypeRef.eq_of_classify_unresolved hshape
      simp only [typeDialect, hshape]
      rfl
    | container =>
      rw [show TypeRef.classify (typeDialect known scope).generics
        (typeDialect known scope).known ⟨name, args⟩ = _ from hshape]
      rfl
    | param | primitive | declared | qualified => simp only [typeDialect, hshape]

theorem mapNormalAll_eq_genAll :
    ∀ types : List TypeRef, mapNormalAll known scope types = (typeDialect known scope).genAll types
  | [] => by rw [mapNormalAll, TypeDialect.genAll]
  | t :: ts => by
    rw [mapNormalAll, TypeDialect.genAll, mapNormal_eq_gen t, mapNormalAll_eq_genAll ts]

end

end Rust

/-- In both targets every run over a reference succeeds with the spelling that has the catch-all in
place of each failing look-up, and comes with one warning for each of these look-ups, from left to
right. A look-up below another that fails is not made. -/
theorem failed_lookups_reported :
    (∀ (env : CSharp.Env) (scope : Scope) (type : TypeRef),
      (CSharp.typeDialect env scope).Reports (CSharp.mapType env scope type) type.normalize) ∧
    (∀ (known : KnownTypes) (scope : Scope) (type : TypeRef),
      (Rust.typeDialect known scope).Reports (Rust.mapType known scope type) type.normalize) := by
  constructor
  · intro env scope type
    rw [CSharp.mapType, CSharp.mapNormal_eq_gen]
    exact TypeDialect.reports_gen _
  · intro known scope type
    rw [Rust.mapType, Rust.mapNormal_eq_gen]
    exact TypeDialect.reports_gen _

/-- The second argument fails as a whole, so its own argument is not looked up. -/
example :
    TypeRef.outermost (Rust.typeDialect {} {}).fails
        ⟨"map", [⟨"Zz", []⟩, ⟨"Yy", [⟨"Zz", []⟩]⟩]⟩ =
      [([0], ⟨"Zz", []⟩), ([1], ⟨"Yy", [⟨"Zz", []⟩]⟩)] := by
  decide +kernel

end SourceGen
