import Mathlib.Data.List.Nodup
import SourceGen.Proofs.UnitSections
import SourceGen.Rust.Trait

/-!
# Shapes of traits

The shapes of the interfaces of a unit are collected in two rounds: first each interface gives the
shape of its own members, then each class or struct raises the receivers of the methods it changes
itself in, in every interface that it lists. A receiver is never lowered, so the second round only
matters through the methods that some listing type changes itself in.

## Main definitions

* `Stmt.allDeclaredTypes`: the types with members that a unit declares, wherever it does.
* `Rust.unitReceiver`: the receiver of a method by what the whole unit does with it.

## Main results

* `Rust.required?_collectTraits`, `Rust.agreed?_collectTraits`: what an interface requires.
* `Rust.agreed?_collectTraits_of_mem`: the receiver that the implementations of a method agree on.
-/

namespace SourceGen

namespace Rust

/-! ### Raised receivers -/

/-- The receiver once it is known whether some body changes the object: a shared one is raised. -/
def Receiver.raise (changes : Bool) : Receiver → Receiver
  | .shared => if changes then .exclusive else .shared
  | r => r

@[simp] theorem Receiver.raise_false : Receiver.raise false = id := by
  funext r
  cases r <;> rfl

/-- A receiver is raised once it is raised at all. -/
theorem Receiver.raise_raise (a b : Bool) (r : Receiver) :
    (r.raise a).raise b = r.raise (a || b) := by
  cases r <;> cases a <;> cases b <;> rfl

/-- What is looked up after a change of the values is the changed value. -/
theorem lookup_map_values {α : Type} (entries : List (String × α)) (f : String × α → String × α)
    (hf : ∀ entry, (f entry).1 = entry.1) (key : String) :
    (entries.map f).lookup key = (entries.lookup key).map fun value => (f (key, value)).2 := by
  induction entries with
  | nil => rfl
  | cons entry entries ih =>
    obtain ⟨other, value⟩ := entry
    rw [List.map_cons, List.lookup_cons, List.lookup_cons, hf, ih]
    by_cases h : key = other
    · simp [h]
    · have hne : (key == other) = false := by simpa using h
      rw [hne]

namespace TraitShape

variable (shape : TraitShape)

/-- Requiring one method to be exclusive raises that method's receiver and no other. -/
theorem receiver?_requireExclusive (method m : String) :
    (shape.requireExclusive method).receiver? m =
      (shape.receiver? m).map (Receiver.raise (m == method)) := by
  have hlookup := lookup_map_values shape.methods (fun entry =>
    if entry.1 = method ∧ entry.2 = .shared then (entry.1, .exclusive) else entry)
    (by intro entry; split <;> rfl) m
  refine hlookup.trans (congrArg (Option.map · _) (funext fun receiver => ?_))
  cases receiver <;> by_cases h : m = method <;> simp [h, Receiver.raise]

/-- Requiring several methods raises their receivers. -/
theorem receiver?_requireExclusive_foldl (methods : List String) (m : String) :
    (methods.foldl requireExclusive shape).receiver? m =
      (shape.receiver? m).map (Receiver.raise (methods.contains m)) := by
  induction methods generalizing shape with
  | nil => simp
  | cons method methods ih =>
    rw [List.foldl_cons, ih, receiver?_requireExclusive, Option.map_map, List.contains_cons]
    congr 1
    funext r
    exact r.raise_raise _ _

/-- Properties stay as they were. -/
theorem properties_requireExclusive_foldl (methods : List String) :
    (methods.foldl requireExclusive shape).properties = shape.properties := by
  induction methods generalizing shape with
  | nil => rfl
  | cons method methods ih => rw [List.foldl_cons, ih, requireExclusive]

end TraitShape

/-! ### One type at a time -/

namespace Traits

variable (traits : Traits)

/-- An inserted trait is found under its own name. -/
theorem lookup_insert (name : String) (shape : TraitShape) (other : String) :
    (traits.insert name shape).lookup other =
      if other = name then some shape else traits.lookup other := by
  rw [insert, List.lookup_cons]
  by_cases h : other = name
  · simp [h]
  · have hne : (other == name) = false := by simpa using h
    rw [hne, if_neg h]
    dsimp only
    induction traits with
    | nil => rfl
    | cons entry traits ih =>
      obtain ⟨key, shape'⟩ := entry
      rw [List.filter_cons]
      by_cases hkey : key = name
      · have hother : (other == key) = false := by simpa [hkey] using h
        rw [if_neg (by simp [hkey]), ih, List.lookup_cons, hother]
      · rw [if_pos (by simpa using hkey), List.lookup_cons, List.lookup_cons, ih]

/-- An adjusted trait is found adjusted under its own name. -/
theorem lookup_adjust (name : String) (f : TraitShape → TraitShape) (other : String) :
    (traits.adjust name f).lookup other =
      (traits.lookup other).map fun shape => if other = name then f shape else shape := by
  have hlookup := lookup_map_values traits (fun entry =>
    if entry.1 = name then (entry.1, f entry.2) else entry)
    (by intro entry; split <;> rfl) other
  refine hlookup.trans (congrArg (Option.map · _) (funext fun shape => ?_))
  by_cases h : other = name <;> simp [h]

/-- The receiver that the implementations of a method of an interface agree on. -/
def agreed? (name method : String) : Option Receiver :=
  (traits.lookup name).bind (·.receiver? method)

/-- The properties that an interface requires. -/
def required? (name : String) : Option (List (String × Bool)) :=
  (traits.lookup name).map (·.properties)

end Traits

end Rust

/-! ### Members -/

/-- The property that a statement declares. -/
def Stmt.property? : Stmt → Option Property
  | .propertyDecl p => some p
  | _ => none

/-- The functions among some members. -/
def Stmt.functionsOf (members : List Stmt) : List Function :=
  members.filterMap Stmt.function?

/-- The properties among some members. -/
def Stmt.propertiesOf (members : List Stmt) : List Property :=
  members.filterMap Stmt.property?

theorem Stmt.mem_functionsOf {members : List Stmt} {f : Function} :
    f ∈ functionsOf members ↔ ∃ kind, .functionDecl kind f ∈ members := by
  rw [functionsOf, List.mem_filterMap]
  constructor
  · rintro ⟨s, hs, hf⟩
    cases s with
    | functionDecl kind g =>
      obtain rfl : g = f := Option.some.inj hf
      exact ⟨kind, hs⟩
    | _ => cases hf
  · rintro ⟨kind, hs⟩
    exact ⟨_, hs, rfl⟩

theorem Stmt.mem_propertiesOf {members : List Stmt} {p : Property} :
    p ∈ propertiesOf members ↔ .propertyDecl p ∈ members := by
  rw [propertiesOf, List.mem_filterMap]
  constructor
  · rintro ⟨s, hs, hp⟩
    cases s with
    | propertyDecl q =>
      obtain rfl : q = p := Option.some.inj hp
      exact hs
    | _ => cases hp
  · intro hs
    exact ⟨_, hs, rfl⟩

/-- The function belongs to its type and not to a value. -/
def Function.belongsToType (f : Function) : Bool :=
  f.isStatic || f.hasModifier .static

/-- The type lists another one of the given name, as its base or among its interfaces. -/
def TypeDecl.lists (d : TypeDecl) (name : String) : Bool :=
  (d.base.toList ++ d.interfaces).any (·.name == name)

/-- The body of a method of the given name changes the object it is called on. -/
def TypeDecl.changes (d : TypeDecl) (method : String) : Bool :=
  (Stmt.functionsOf d.members).any fun f =>
    f.name == method && (!f.belongsToType && f.body.any Stmt.anyAssignsThis)

namespace Rust

/-- A method is exclusive exactly when it is an instance method and assigns through `this`. -/
theorem receiverOf_eq_exclusive_iff (f : Function) :
    receiverOf f = .exclusive ↔ (!f.belongsToType && f.body.any Stmt.anyAssignsThis) = true := by
  unfold receiverOf Function.belongsToType
  cases f.isStatic || f.hasModifier .static <;> cases f.body.any Stmt.anyAssignsThis <;> simp

/-- The changing methods of a type are those it changes something in. -/
theorem contains_changingMethods (d : TypeDecl) (method : String) :
    (changingMethods d.members).contains method = d.changes method := by
  rw [TypeDecl.changes, Stmt.functionsOf, changingMethods, Bool.eq_iff_iff, List.contains_iff_mem,
    List.mem_filterMap, List.any_filterMap, List.any_eq_true]
  refine exists_congr fun s => and_congr_right fun _ => ?_
  cases s with
  | functionDecl kind f =>
    rw [Stmt.function?]
    dsimp only
    rw [Bool.and_eq_true, beq_iff_eq, ← receiverOf_eq_exclusive_iff]
    split <;> simp_all
  | _ => simp [Stmt.function?]

variable (traits : Traits)

/-- A type raises the methods it changes something in, in the traits it lists. -/
theorem agreed?_adjustFor (d : TypeDecl) (name method : String) :
    (adjustFor traits d).agreed? name method =
      (traits.agreed? name method).map (Receiver.raise (d.lists name && d.changes method)) := by
  unfold adjustFor TypeDecl.lists
  generalize d.base.toList ++ d.interfaces = listed
  induction listed generalizing traits with
  | nil => simp
  | cons t ts ih =>
    rw [List.foldl_cons, ih]
    unfold Traits.agreed?
    rw [Traits.lookup_adjust, List.any_cons]
    cases traits.lookup name with
    | none => rfl
    | some shape =>
      rw [Option.map_some, Option.bind_some, Option.bind_some]
      by_cases h : name = t.name
      · rw [if_pos h, TraitShape.receiver?_requireExclusive_foldl, contains_changingMethods,
          Option.map_map]
        congr 1
        funext r
        rw [Function.comp_apply, Receiver.raise_raise]
        cases d.changes method <;> simp [h]
      · have hne : (t.name == name) = false := by simpa using Ne.symm h
        rw [if_neg h, hne, Bool.false_or]

/-- Adjusting a trait asks for no other members. -/
theorem required?_adjustFor (d : TypeDecl) (name : String) :
    (adjustFor traits d).required? name = traits.required? name := by
  unfold adjustFor
  generalize d.base.toList ++ d.interfaces = listed
  induction listed generalizing traits with
  | nil => rfl
  | cons t ts ih =>
    rw [List.foldl_cons, ih, Traits.required?, Traits.lookup_adjust, Option.map_map,
      Traits.required?]
    congr 1
    funext shape
    rw [Function.comp_apply]
    split
    · exact shape.properties_requireExclusive_foldl _
    · rfl

end Rust

/-! ### The types of a unit -/

namespace Stmt

mutual

/-- The types with members that a statement declares, also inside namespaces, modules and
includes. -/
def declaredTypes : Stmt → List (TypeKind × TypeDecl)
  | .namespaceDecl _ decls => allDeclaredTypes decls
  | .moduleDecl ⟨_, _, _, decls⟩ => allDeclaredTypes decls
  | .includeDecl _ decls => allDeclaredTypes decls
  | .typeDecl kind decl => [(kind, decl)]
  | _ => []

/-- The types with members that some statements declare. -/
def allDeclaredTypes : List Stmt → List (TypeKind × TypeDecl)
  | [] => []
  | s :: ss => s.declaredTypes ++ allDeclaredTypes ss

end

mutual

/-- The statement is an include, or a namespace or module with an include in it. -/
def holdsInclude : Stmt → Bool
  | .includeDecl _ _ => true
  | .namespaceDecl _ decls => anyHoldsInclude decls
  | .moduleDecl ⟨_, _, _, decls⟩ => anyHoldsInclude decls
  | _ => false

/-- One of the statements holds an include. -/
def anyHoldsInclude : List Stmt → Bool
  | [] => false
  | s :: ss => s.holdsInclude || anyHoldsInclude ss

end

end Stmt

/-- The interfaces among some types. -/
def TypeDecl.interfacesOf (types : List (TypeKind × TypeDecl)) : List TypeDecl :=
  types.filterMap fun (kind, d) => if kind = .interface then some d else none

@[simp] theorem TypeDecl.interfacesOf_cons (kind : TypeKind) (d : TypeDecl)
    (types : List (TypeKind × TypeDecl)) :
    interfacesOf ((kind, d) :: types) =
      if kind = .interface then d :: interfacesOf types else interfacesOf types := by
  rw [interfacesOf, List.filterMap_cons]
  dsimp only
  split <;> rename_i h <;> split at h <;> simp_all [interfacesOf]

theorem TypeDecl.mem_interfacesOf {types : List (TypeKind × TypeDecl)} {d : TypeDecl} :
    d ∈ interfacesOf types ↔ (.interface, d) ∈ types := by
  simp only [interfacesOf, List.mem_filterMap, Option.ite_none_right_eq_some, Option.some.injEq,
    Prod.exists]
  constructor
  · rintro ⟨kind, d', hmem, rfl, rfl⟩
    exact hmem
  · intro hmem
    exact ⟨_, _, hmem, rfl, rfl⟩

namespace Rust

mutual

/-- The types found without opening includes are declared types. -/
theorem sublist_typesIn : ∀ s : Stmt, (typesIn s).Sublist s.declaredTypes
  | .namespaceDecl _ decls => by
    rw [typesIn, Stmt.declaredTypes]
    exact sublist_allTypesIn decls
  | .moduleDecl ⟨_, _, _, decls⟩ => by
    rw [typesIn, Stmt.declaredTypes]
    exact sublist_allTypesIn decls
  | .typeDecl kind decl => by
    rw [typesIn, Stmt.declaredTypes]
  | .includeDecl _ _ | .importDecl _ | .aliasDecl _ | .enumDecl _ | .functionDecl _ _
  | .fieldDecl _ | .propertyDecl _ | .binding _ | .ifThen _ _ _ | .whileLoop _ _
  | .forLoop _ _ _ _ | .forEach _ _ _ _ | .ret _ | .breakLoop | .continueLoop | .matchOn _ _
  | .switchOn _ _ | .expr _ | .raw _ => by simp only [typesIn, List.nil_sublist]

/-- The types that shapes are collected from are declared. -/
theorem sublist_allTypesIn : ∀ ss : List Stmt, (allTypesIn ss).Sublist (Stmt.allDeclaredTypes ss)
  | [] => by rw [allTypesIn, Stmt.allDeclaredTypes]
  | s :: ss => by
    rw [allTypesIn, Stmt.allDeclaredTypes]
    exact (sublist_typesIn s).append (sublist_allTypesIn ss)

end

mutual

/-- Without an include inside, all declared types are found. -/
theorem typesIn_eq : ∀ s : Stmt, s.holdsInclude = false → typesIn s = s.declaredTypes
  | .namespaceDecl _ decls, h => by
    rw [typesIn, Stmt.declaredTypes, allTypesIn_eq decls h]
  | .moduleDecl ⟨_, _, _, decls⟩, h => by
    rw [typesIn, Stmt.declaredTypes, allTypesIn_eq decls h]
  | .typeDecl kind decl, _ => by
    rw [typesIn, Stmt.declaredTypes]
  | .importDecl _, _ | .aliasDecl _, _ | .enumDecl _, _ | .functionDecl _ _, _
  | .fieldDecl _, _ | .propertyDecl _, _ | .binding _, _ | .ifThen _ _ _, _ | .whileLoop _ _, _
  | .forLoop _ _ _ _, _ | .forEach _ _ _ _, _ | .ret _, _ | .breakLoop, _ | .continueLoop, _
  | .matchOn _ _, _ | .switchOn _ _, _ | .expr _, _ | .raw _, _ => by
    simp only [typesIn, Stmt.declaredTypes]

/-- Without includes in namespaces and modules, shapes are collected from all types. -/
theorem allTypesIn_eq :
    ∀ ss : List Stmt, Stmt.anyHoldsInclude ss = false → allTypesIn ss = Stmt.allDeclaredTypes ss
  | [], _ => by rw [allTypesIn, Stmt.allDeclaredTypes]
  | s :: ss, h => by
    rw [Stmt.anyHoldsInclude, Bool.or_eq_false_iff] at h
    rw [allTypesIn, Stmt.allDeclaredTypes, typesIn_eq s h.1, allTypesIn_eq ss h.2]

end

/-! ### The two rounds -/

/-- The shapes of the interfaces among some types by themselves. -/
def declareAll (traits : Traits) (types : List (TypeKind × TypeDecl)) : Traits :=
  types.foldl
    (fun traits (kind, d) =>
      if kind = .interface then Traits.insert traits d.name (TraitShape.ofMembers d.members)
      else traits)
    traits

/-- What the classes and structs among some types ask of the interfaces they list. -/
def adjustAll (traits : Traits) (types : List (TypeKind × TypeDecl)) : Traits :=
  types.foldl (fun traits (kind, d) => if kind = .interface then traits else adjustFor traits d)
    traits

/-- The traits are declared in a first pass over the types and adjusted in a second. -/
theorem collectTraits_eq (ss : List Stmt) :
    collectTraits ss = adjustAll (declareAll [] (allTypesIn ss)) (allTypesIn ss) :=
  rfl

variable {types : List (TypeKind × TypeDecl)} {name : String}

/-- A name no interface has is left as it was. -/
theorem lookup_declareAll_of_notMem (traits : Traits)
    (h : name ∉ (TypeDecl.interfacesOf types).map (·.name)) :
    (declareAll traits types).lookup name = traits.lookup name := by
  induction types generalizing traits with
  | nil => rfl
  | cons entry types ih =>
    obtain ⟨kind, d⟩ := entry
    rw [TypeDecl.interfacesOf_cons] at h
    rw [declareAll, List.foldl_cons]
    dsimp only
    by_cases hkind : kind = .interface
    · rw [if_pos hkind, List.map_cons, List.mem_cons, not_or] at h
      rw [if_pos hkind]
      refine (ih _ h.2).trans ?_
      rw [Traits.lookup_insert, if_neg h.1]
    · rw [if_neg hkind] at h
      rw [if_neg hkind]
      exact ih _ h

/-- Among interfaces of different names, each one has the shape of its own members. -/
theorem lookup_declareAll_of_mem (traits : Traits)
    (hnames : ((TypeDecl.interfacesOf types).map (·.name)).Nodup) {d : TypeDecl}
    (hd : d ∈ TypeDecl.interfacesOf types) :
    (declareAll traits types).lookup d.name = some (TraitShape.ofMembers d.members) := by
  induction types generalizing traits with
  | nil => cases hd
  | cons entry types ih =>
    obtain ⟨kind, d'⟩ := entry
    rw [TypeDecl.interfacesOf_cons] at hd hnames
    rw [declareAll, List.foldl_cons]
    dsimp only
    by_cases hkind : kind = .interface
    · rw [if_pos hkind] at hd hnames
      rw [if_pos hkind]
      rw [List.map_cons, List.nodup_cons] at hnames
      rcases List.mem_cons.mp hd with rfl | hd
      · refine (lookup_declareAll_of_notMem _ hnames.1).trans ?_
        rw [Traits.lookup_insert, if_pos rfl]
      · exact ih _ hnames.2 hd
    · rw [if_neg hkind] at hd hnames
      rw [if_neg hkind]
      exact ih _ hnames hd

/-- Some class or struct among the types lists the interface and has a method of the given name that
changes the object it is called on. -/
def someChanges (types : List (TypeKind × TypeDecl)) (name method : String) : Bool :=
  types.any fun (kind, d) =>
    decide (kind ≠ .interface) && (d.lists name && d.changes method)

/-- All types together raise the methods one of them changes something in. -/
theorem agreed?_adjustAll (traits : Traits) (method : String) :
    (adjustAll traits types).agreed? name method =
      (traits.agreed? name method).map (Receiver.raise (someChanges types name method)) := by
  induction types generalizing traits with
  | nil => simp [adjustAll, someChanges]
  | cons entry types ih =>
    obtain ⟨kind, d⟩ := entry
    rw [adjustAll, List.foldl_cons, someChanges, List.any_cons]
    refine (ih _).trans ?_
    dsimp only
    by_cases hkind : kind = .interface
    · simp [hkind, someChanges]
    · rw [if_neg hkind, agreed?_adjustFor, Option.map_map]
      congr 1
      funext r
      rw [Function.comp_apply, Receiver.raise_raise]
      simp [hkind, someChanges]

/-- Adjusting the traits asks for no other members. -/
theorem required?_adjustAll (traits : Traits) :
    (adjustAll traits types).required? name = traits.required? name := by
  induction types generalizing traits with
  | nil => rfl
  | cons entry types ih =>
    obtain ⟨kind, d⟩ := entry
    rw [adjustAll, List.foldl_cons]
    refine (ih _).trans ?_
    dsimp only
    split
    · rfl
    · exact required?_adjustFor traits d name

/-! ### What an interface asks for by itself -/

/-- The receiver of a method of an interface by what the whole unit does with it: none for a static
method, an exclusive one if its own body or that of an implementation changes the object, and else a
shared one. -/
def unitReceiver (types : List (TypeKind × TypeDecl)) (d : TypeDecl) (f : Function) : Receiver :=
  if f.belongsToType then .none
  else if f.body.any Stmt.anyAssignsThis || someChanges types d.name f.name then .exclusive
  else .shared

/-- The receiver in an impl, raised, is the one the whole unit agrees on. -/
theorem raise_receiverOf (d : TypeDecl) (f : Function) :
    (receiverOf f).raise (someChanges types d.name f.name) = unitReceiver types d f := by
  unfold receiverOf unitReceiver Function.belongsToType
  cases f.isStatic || f.hasModifier .static
  · cases f.body.any Stmt.anyAssignsThis <;> rfl
  · rfl

namespace TraitShape

variable (members : List Stmt)

/-- A trait asks for its methods with the receivers of its own bodies. -/
theorem methods_ofMembers : (ofMembers members).methods =
    (Stmt.functionsOf members).map fun f => (f.name, receiverOf f) := by
  rw [Stmt.functionsOf, List.map_filterMap]
  exact List.filterMap_congr fun s _ => by cases s <;> rfl

/-- A trait asks for its properties, with a setter where one is declared. -/
theorem properties_ofMembers : (ofMembers members).properties =
    (Stmt.propertiesOf members).map fun p => (p.name, p.accessors.any isSetter) := by
  rw [Stmt.propertiesOf, List.map_filterMap]
  exact List.filterMap_congr fun s _ => by cases s <;> rfl

theorem isSome_receiver?_ofMembers {method : String} :
    ((ofMembers members).receiver? method).isSome = true ↔
      ∃ f ∈ Stmt.functionsOf members, f.name = method := by
  rw [receiver?, methods_ofMembers]
  induction Stmt.functionsOf members with
  | nil => simp
  | cons f fs ih =>
    rw [List.map_cons, List.lookup_cons, List.exists_mem_cons_iff, ← ih]
    by_cases h : method = f.name
    · simp [h]
    · have hne : (method == f.name) = false := by simpa using h
      simp [hne, Ne.symm h]

/-- Among methods of different names, each one has the receiver it needs by itself. -/
theorem receiver?_ofMembers (hnames : ((Stmt.functionsOf members).map (·.name)).Nodup)
    {f : Function} (hf : f ∈ Stmt.functionsOf members) :
    (ofMembers members).receiver? f.name = some (receiverOf f) := by
  rw [receiver?, methods_ofMembers]
  generalize Stmt.functionsOf members = fs at hnames hf ⊢
  induction fs with
  | nil => cases hf
  | cons f' fs ih =>
    rw [List.map_cons, List.nodup_cons] at hnames
    rw [List.map_cons, List.lookup_cons]
    rcases List.mem_cons.mp hf with rfl | hf
    · simp
    · have hne : (f.name == f'.name) = false := by
        rw [beq_eq_false_iff_ne]
        intro h
        exact hnames.1 (h ▸ List.mem_map_of_mem hf)
      rw [hne]
      exact ih hnames.2 hf

end TraitShape

/-! ### The collected shapes -/

variable {ss : List Stmt}

/-- Nothing is asked for under a name no interface has. -/
theorem required?_collectTraits_of_notMem
    (h : name ∉ (TypeDecl.interfacesOf (allTypesIn ss)).map (·.name)) :
    (collectTraits ss).required? name = none := by
  rw [collectTraits_eq, required?_adjustAll, Traits.required?, lookup_declareAll_of_notMem _ h]
  rfl

/-- A name that no interface has stands for nothing. -/
theorem lookup_collectTraits_of_notMem
    (h : name ∉ (TypeDecl.interfacesOf (allTypesIn ss)).map (·.name)) :
    (collectTraits ss).lookup name = none :=
  Option.map_eq_none_iff.mp (required?_collectTraits_of_notMem h)

section Distinct

variable (hnames : ((TypeDecl.interfacesOf (allTypesIn ss)).map (·.name)).Nodup) {d : TypeDecl}
  (hd : d ∈ TypeDecl.interfacesOf (allTypesIn ss))

include hnames hd

/-- The properties that an interface requires are its own. -/
theorem required?_collectTraits :
    (collectTraits ss).required? d.name = some (TraitShape.ofMembers d.members).properties := by
  rw [collectTraits_eq, required?_adjustAll, Traits.required?,
    lookup_declareAll_of_mem _ hnames hd, Option.map_some]

/-- The methods that an interface requires are its own, with raised receivers. -/
theorem agreed?_collectTraits (method : String) :
    (collectTraits ss).agreed? d.name method =
      ((TraitShape.ofMembers d.members).receiver? method).map
        (Receiver.raise (someChanges (allTypesIn ss) d.name method)) := by
  rw [collectTraits_eq, agreed?_adjustAll, Traits.agreed?, lookup_declareAll_of_mem _ hnames hd,
    Option.bind_some]

/-- Among methods of different names, the receiver that all implementations of one agree on is that
of the whole unit. -/
theorem agreed?_collectTraits_of_mem
    (hmethods : ((Stmt.functionsOf d.members).map (·.name)).Nodup) {f : Function}
    (hf : f ∈ Stmt.functionsOf d.members) :
    (collectTraits ss).agreed? d.name f.name = some (unitReceiver (allTypesIn ss) d f) := by
  rw [agreed?_collectTraits hnames hd, TraitShape.receiver?_ofMembers _ hmethods hf,
    Option.map_some, raise_receiverOf]

end Distinct

end Rust

end SourceGen
