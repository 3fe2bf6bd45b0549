import SourceGen.Proofs.Rust.Signatures

/-!
# Members of classes and structs

A class or struct is written as a struct, an inherent implementation and one implementation for each
interface of the unit that it lists. Every unmarked member goes to one place: a field or a property
without accessor bodies becomes a field, which `new` initializes, and a method becomes one function,
in the implementation of the first interface that declares its name, or in the inherent one.

## Main definitions

* `Rust.functionHeads`, `Rust.Defines`: the functions that a body defines.
* `Rust.isStored`, `Rust.StoredAs`: the members that become fields, and these fields.
* `Rust.homeOf?`, `Rust.methodsAt`: the implementation that a method goes to.
* `Rust.IsNew`, `Rust.IsInherent`, `Rust.IsImplAt`: the blocks of a type.

## Main results

* `Rust.forall₂_fields`: the fields of a type are its stored members, in their order.
* `Rust.perm_methodsAt`: each method is in one implementation.
* `Rust.members_placed`: the code of a class or struct.
-/

namespace SourceGen

namespace Rust

open Fragment (text)

variable {env : Env} {place : Place}

/-! ### Functions in a body -/

/-- The head of the function that an item defines. -/
def functionHead? : Code → Option String
  | .block .function [.text head] _ _ => some head
  | _ => none

/-- The heads of the functions that the items define. -/
def functionHeads (cs : List Code) : List String :=
  cs.filterMap functionHead?

/-- Code without a function head defines none. -/
theorem functionHeads_eq_nil {cs : List Code} (h : ∀ c ∈ cs, functionHead? c = none) :
    functionHeads cs = [] :=
  List.filterMap_eq_nil_iff.mpr h

/-- Decorations are no function heads. -/
theorem functionHead?_of_isDecoration {c : Code} (h : isDecoration c = true) :
    functionHead? c = none := by
  cases c <;> simp_all [isDecoration, functionHead?]

/-- The items define functions with these visibilities and signatures, and no other functions. -/
def Defines (sigs : List (String × Signature)) (cs : List Code) : Prop :=
  List.Forall₂ (fun s head => ∃ tail, s.2.IsHead tail ∧ head = s.1 ++ tail) sigs (functionHeads cs)

namespace Defines

variable {sigs sigs' : List (String × Signature)} {cs ds : List Code}

/-- Definitions in two parts are definitions in order. -/
theorem append (h : Defines sigs cs) (h' : Defines sigs' ds) :
    Defines (sigs ++ sigs') (cs ++ ds) := by
  rw [Defines, functionHeads, List.filterMap_append]
  exact List.rel_append h h'

theorem of_none (h : ∀ c ∈ cs, functionHead? c = none) : Defines [] cs := by
  rw [Defines, functionHeads_eq_nil h]
  exact .nil

/-- A function block defines its head. -/
theorem definition {visibility tail : String} {s : Signature} (h : s.IsHead tail)
    (body : List Code) :
    Defines [(visibility, s)] [.block .function (text (visibility ++ tail)) body ""] :=
  .cons ⟨tail, h, rfl⟩ .nil

/-- Definitions of many parts are definitions in order. -/
theorem flatMap {α : Type} {sigs : α → List (String × Signature)} {code : α → List Code}
    (h : ∀ x, Defines (sigs x) (code x)) (xs : List α) :
    Defines (xs.flatMap sigs) (xs.flatMap code) := by
  induction xs with
  | nil => exact .nil
  | cons x xs ih =>
    rw [List.flatMap_cons, List.flatMap_cons]
    exact (h x).append ih

end Defines

/-! ### What the parts of a type define -/

/-- A method defines one function, unless it is left out. -/
theorem defines_function {options : FunctionOptions} (hname : options.name = none)
    (hbody : options.requireBody = true) (prologue : Place → Gen (List Code)) (f : Function) :
    (function env place options prologue f).Always
      (Defines
        (if f.isWritten then [(options.visibility, ⟨.method f, options.receiver⟩)] else [])) := by
  refine (always_function hname prologue f).mono fun cs hcs => ?_
  split at hcs
  · rename_i hwritten
    rw [if_pos hwritten]
    obtain ⟨lines, c, rfl, hlines, tail, htail, ⟨body, rfl⟩ | ⟨hdeclared, -⟩⟩ := hcs
    · have hlines := Defines.of_none fun c hc => functionHead?_of_isDecoration (hlines c hc)
      exact hlines.append (.definition htail body)
    · rw [hbody] at hdeclared
      cases hdeclared
  · rename_i hwritten
    rw [if_neg hwritten, hcs]
    exact .nil

/-- The functions of several methods, in their order. -/
def methodDefinitions (options : Function → FunctionOptions) (fs : List Function) :
    List (String × Signature) :=
  (fs.filter (·.isWritten)).map fun f => ((options f).visibility, ⟨.method f, (options f).receiver⟩)

theorem methodDefinitions_cons (options : Function → FunctionOptions) (f : Function)
    (fs : List Function) :
    methodDefinitions options (f :: fs) =
      (if f.isWritten then [((options f).visibility, ⟨.method f, (options f).receiver⟩)] else []) ++
        methodDefinitions options fs := by
  cases hwritten : f.isWritten <;> simp [methodDefinitions, hwritten]

/-- How the methods of the inherent implementation are written. -/
def inherentOptions (f : Function) : FunctionOptions :=
  { visibility := visibility f.modifiers true, receiver := receiverOf f }

/-- How the methods of the implementation of a trait are written. -/
def traitOptions (env : Env) (trait : String) (f : Function) : FunctionOptions :=
  { visibility := "", receiver := agreedReceiver env trait f }

/-- Inherent methods define exactly the written methods, in order. -/
theorem defines_inherentMethods (fs : List Function) :
    (inherentMethods env place fs).Always (Defines (methodDefinitions inherentOptions fs)) := by
  induction fs with
  | nil => exact .pure .nil
  | cons f fs ih =>
    rw [methodDefinitions_cons]
    exact .bind (defines_function rfl rfl _ f) fun cs hcs => .bind ih fun ds hds =>
      .pure (hcs.append hds)

/-- Trait methods define exactly the written methods, in order. -/
theorem defines_traitMethods (trait : String) (fs : List Function) :
    (traitMethods env place trait fs).Always
      (Defines (methodDefinitions (traitOptions env trait) fs)) := by
  induction fs with
  | nil => exact .pure .nil
  | cons f fs ih =>
    rw [methodDefinitions_cons]
    exact .bind (defines_function rfl rfl _ f) fun cs hcs => .bind ih fun ds hds =>
      .pure (hcs.append hds)

/-- The function of an accessor. In a trait its receiver is shared. -/
def accessorDefinition (inTrait : Bool) (shown name : String) (a : Accessor) : String × Signature :=
  (shown,
    if TraitShape.isSetter a then ⟨.setter name, .exclusive⟩
    else ⟨.getter name, if !inTrait && a.body.any Stmt.anyAssignsThis then .exclusive else .shared⟩)

/-- The functions of a property: one for each accessor with a body. -/
def accessorDefinitions (inTrait : Bool) (p : Property) : List (String × Signature) :=
  (p.accessors.filter (·.body.isSome)).map
    (accessorDefinition inTrait (if inTrait then "" else visibility p.modifiers false) p.name)

/-- An accessor with a body has a head of its own. -/
theorem isHead_accessorDefinition (inTrait : Bool) (shown name type : String) {a : Accessor}
    {body : List Stmt} (ha : a.body = some body) :
    ∃ tail, (accessorDefinition inTrait shown name a).2.IsHead tail ∧
      (if TraitShape.isSetter a then
        shown ++ "fn set_" ++ name ++ "(&mut self, value: " ++ type ++ ")"
      else
        shown ++ "fn " ++ ident name ++ "(" ++
          (if !inTrait && Stmt.anyAssignsThis body then "&mut self" else "&self") ++
            ") -> " ++ type) = shown ++ tail := by
  unfold accessorDefinition
  rw [ha, Option.any_some]
  split
  · exact ⟨_, Signature.isHead_setter name type, by simp only [String.append_assoc]⟩
  · split
    · exact ⟨_, Signature.isHead_getterBy rfl name type, by simp only [String.append_assoc]⟩
    · exact ⟨_, Signature.isHead_getterBy rfl name type, by simp only [String.append_assoc]⟩

/-- Accessors define exactly those with a body, in order. -/
theorem defines_accessorBodies (inTrait : Bool) (shown name type : String)
    (accessors : List Accessor) :
    (accessorBodies env place inTrait shown name type accessors).Always
      (Defines
        ((accessors.filter (·.body.isSome)).map (accessorDefinition inTrait shown name))) := by
  induction accessors with
  | nil => exact .pure .nil
  | cons a accessors ih =>
    rw [accessorBodies, List.filter_cons]
    cases ha : a.body with
    | none =>
      rw [if_neg (by simp)]
      exact ih
    | some body =>
      rw [if_pos (by simp), List.map_cons]
      exact .after fun code => .bind ih fun ds hds => .pure
        (.cons (isHead_accessorDefinition inTrait shown name type ha) hds)

/-- The functions of properties with accessor bodies. -/
theorem defines_accessorCodes (inTrait : Bool) (ps : List Property) :
    (accessorCodes env place inTrait ps).Always
      (Defines (ps.flatMap (accessorDefinitions inTrait))) := by
  induction ps with
  | nil => exact .pure .nil
  | cons p ps ih =>
    have hp : (accessorCode env place inTrait p).Always (Defines (accessorDefinitions inTrait p)) :=
      .after fun type => defines_accessorBodies inTrait _ p.name type p.accessors
    exact .bind hp fun cs hcs => .bind ih fun ds hds => .pure (hcs.append hds)

/-- The functions of a property that the trait requires over a field. -/
def backedDefinitions (setter : Bool) (name : String) : List (String × Signature) :=
  (propertySignatures setter name).map ("", ·)

/-- A field seen through a trait defines its getter, and its setter where there is one. -/
theorem defines_backedAccessors (f : FieldSpec) (setter : Bool) :
    Defines (backedDefinitions setter f.name) (backedAccessors f setter) := by
  have hgetter := Signature.isHead_getter f.name f.type
  have hsetter := Signature.isHead_setter f.name f.type
  cases setter with
  | true => exact .cons ⟨_, hgetter, rfl⟩ (.cons ⟨_, hsetter, rfl⟩ .nil)
  | false => exact .cons ⟨_, hgetter, rfl⟩ .nil

/-- Constants define no function. -/
theorem functionHeads_constCodes (fs : List Field) :
    (constCodes env place fs).Always (functionHeads · = []) := by
  induction fs with
  | nil => exact .pure rfl
  | cons f fs ih =>
    have hf : (constCode env place f).Always (functionHeads · = []) := by
      unfold constCode
      split
      · exact .after fun _ => .pure rfl
      · exact .after fun _ => .after fun _ => .pure rfl
    refine .bind hf fun cs hcs => .bind ih fun ds hds => .pure ?_
    rw [functionHeads, List.filterMap_append]
    exact List.append_eq_nil_iff.mpr ⟨hcs, hds⟩

/-- Raw blocks are text. -/
theorem functionHeads_rawCodes (raws : List RawBlock) :
    (target.rawCodes raws).Always (functionHeads · = []) := by
  induction raws with
  | nil => exact .pure rfl
  | cons raw raws ih =>
    have hraw : (target.rawCode raw).Always (functionHeads · = []) := by
      refine Gen.Ensures.always fun n => (target.ensures_rawCode raw n).mono fun m cs hcs => ?_
      obtain rfl | rfl := hcs.2 <;> rfl
    refine .bind hraw fun cs hcs => .bind ih fun ds hds => .pure ?_
    rw [functionHeads, List.filterMap_append]
    exact List.append_eq_nil_iff.mpr ⟨hcs, hds⟩

/-! ### Fields -/

/-- The member is kept in each value of the type: an unmarked field that is not static or constant,
or an unmarked property without accessor bodies. -/
def isStored : Stmt → Bool
  | .fieldDecl f => (Marker.of? f.attributes).isNone && !isStaticField f
  | .propertyDecl p => (Marker.of? p.attributes).isNone && p.isAuto
  | _ => false

/-- The field that a member becomes: with its visibility, its name, the spelling of its type and its
initializer. -/
def StoredAs (env : Env) (place : Place) (s : Stmt) (spec : FieldSpec) : Prop :=
  match s with
  | .fieldDecl f =>
    spec = ⟨visibility f.modifiers false, f.name, spec.type, f.initializer, false⟩ ∧
      ∃ i k, (typeOr env place.toScope f.name f.type f.initializer).Yields i spec.type k
  | .propertyDecl p =>
    spec = ⟨visibility p.modifiers false, p.name, spec.type, p.initializer, true⟩ ∧
      ∃ i k, (typeOr env place.toScope p.name p.type p.initializer).Yields i spec.type k
  | _ => False

/-- A skipped member is no stored field. -/
theorem isStored_of_memberSkipped {s : Stmt} (h : memberSkipped s = true) : isStored s = false := by
  cases s with
  | fieldDecl f =>
    have hmarked : (Marker.of? f.attributes).isSome = true := h
    rw [isStored, Option.isNone_eq_false_iff.mpr hmarked, Bool.false_and]
  | propertyDecl p =>
    have hmarked : (Marker.of? p.attributes).isSome = true := h
    rw [isStored, Option.isNone_eq_false_iff.mpr hmarked, Bool.false_and]
  | _ => rfl

/-- The fields of a type are its stored members, in their order. -/
theorem forall₂_fields {owner : String} (hasConstructor : Bool) (members : List Stmt) :
    (structParts env place owner hasConstructor members).Always fun parts =>
      List.Forall₂ (StoredAs env place) (members.filter isStored) parts.fields := by
  induction members generalizing hasConstructor with
  | nil => exact .pure .nil
  | cons s ss ih =>
    unfold structParts
    refine .bind (always_memberMarked s) fun skipped hskipped => ?_
    rw [List.filter_cons]
    split
    · rename_i hmarked
      rw [isStored_of_memberSkipped (hskipped ▸ hmarked), if_neg Bool.false_ne_true]
      exact ih hasConstructor
    -- Of the members that are kept, fields that are not static and automatic properties are stored.
    rename_i hunmarked
    have hkept : memberSkipped s = false := by rw [← hskipped]; simpa using hunmarked
    cases s with
    | fieldDecl f =>
      have hstored : isStored (.fieldDecl f) = !isStaticField f := by
        simp_all [memberSkipped, isStored]
      dsimp only
      split
      · rename_i hstatic
        rw [if_neg (by simp [hstored, hstatic])]
        exact .bind (ih hasConstructor) fun rest hrest => .pure hrest
      · rename_i hstatic
        rw [if_pos (by simp [hstored, hstatic])]
        exact .bind (Gen.always_yields _) fun type htype => .bind (ih hasConstructor)
          fun rest hrest => .pure (.cons ⟨rfl, htype⟩ hrest)
    | propertyDecl p =>
      have hstored : isStored (.propertyDecl p) = p.isAuto := by
        simp_all [memberSkipped, isStored]
      dsimp only
      split
      · rename_i hauto
        rw [if_pos (by simp [hstored, hauto])]
        exact .bind (Gen.always_yields _) fun type htype => .bind (ih hasConstructor)
          fun rest hrest => .pure (.cons ⟨rfl, htype⟩ hrest)
      · rename_i hauto
        rw [if_neg (by simp [hstored, hauto])]
        exact .bind (ih hasConstructor) fun rest hrest => .pure hrest
    | functionDecl kind f =>
      dsimp only
      split
      · split
        · exact .after fun _ => ih true
        · exact .bind (ih true) fun rest hrest => .pure hrest
      · exact .bind (ih hasConstructor) fun rest hrest => .pure hrest
    | raw block => exact .bind (ih hasConstructor) fun rest hrest => .pure hrest
    | _ => exact .after fun _ => ih hasConstructor

/-- The place of the code in `new`. -/
def newPlace (d : TypeDecl) : Place :=
  { Place.ofType d.name d.generics with inConstructor := true, inStatic := true }

/-- The line gives a field its first value: that of its initializer, or its default. -/
def IsValueOf (env : Env) (place : Place) (spec : FieldSpec) (c : Code) : Prop :=
  ∃ (value : Option Fragment) (i k : Journal), (ownedOption env place spec.init).Yields i value k ∧
    c = .line (text (ident spec.name ++ ": ") ++ value.getD (text "Default::default()") ++ text ",")

theorem forall₂_fieldValues (specs : List FieldSpec) :
    (fieldValues env place specs).Always (List.Forall₂ (IsValueOf env place) specs) := by
  induction specs with
  | nil => exact .pure .nil
  | cons spec specs ih =>
    exact .bind (Gen.always_yields _) fun value hvalue => .bind ih fun cs hcs =>
      .pure (.cons ⟨value, hvalue.choose, hvalue.choose_spec.choose,
        hvalue.choose_spec.choose_spec, rfl⟩ hcs)

/-- The item is the function `new`, which starts with a value of the type that has these fields. -/
def IsNew (env : Env) (d : TypeDecl) (specs : List FieldSpec) (c : Code) : Prop :=
  ∃ (shown params opening suffix : String) (values rest : List Code),
    c = .block .function (text (shown ++ "fn new(" ++ params ++ ") -> Self"))
      (.block .plain (text opening) values suffix :: rest) "" ∧
    (opening = "Self" ∨ opening = "let mut instance = Self") ∧
    List.Forall₂ (IsValueOf env (newPlace d)) specs values

/-- The constructor is the function `new` with the values of the fields. -/
theorem isNew_constructorCode (d : TypeDecl) (constructor : Option Function)
    (specs : List FieldSpec) :
    (constructorCode env (Place.ofType d.name d.generics) constructor specs).Always
      (IsNew env d specs) := by
  unfold constructorCode
  refine .after fun params => ?_
  extract_lets shown inner head
  refine .bind (forall₂_fieldValues specs) fun values hvalues => ?_
  split
  · exact .pure ⟨_, _, _, _, values, _, rfl, .inl rfl, hvalues⟩
  · exact .after fun code => .pure ⟨_, _, _, _, values, _, rfl, .inr rfl, hvalues⟩

/-! ### Where methods go -/

/-- The place of the first implemented interface whose shape declares a method of this name. -/
def homeOf? (env : Env) (d : TypeDecl) (f : Function) : Option Nat :=
  (implemented env d).findIdx? fun trait =>
    (env.traits.lookup trait.name).any fun shape => shape.methods.any (·.1 == f.name)

theorem isSome_receiver? (shape : TraitShape) (method : String) :
    (shape.receiver? method).isSome = shape.methods.any (·.1 == method) := by
  rw [TraitShape.receiver?]
  induction shape.methods with
  | nil => rfl
  | cons entry entries ih =>
    obtain ⟨name, receiver⟩ := entry
    rw [List.lookup_cons, List.any_cons, Bool.beq_comm (a := name)]
    cases method == name with
    | true => rfl
    | false => exact ih

/-- A method goes to the first implemented trait that asks for it. -/
theorem methodOwner?_implemented (d : TypeDecl) (f : Function) :
    methodOwner? env (implemented env d) f = homeOf? env d f := by
  simp only [methodOwner?, traitOwner?, homeOf?, isSome_receiver?]

/-- The methods of a type. -/
def ownMethods (d : TypeDecl) : List Function :=
  (Stmt.functionsOf d.members).filter fun f => !f.isConstructor

/-- The methods in the implementation of the interface at a place, or in the inherent one. -/
def methodsAt (env : Env) (d : TypeDecl) (home : Option Nat) : List Function :=
  (ownMethods d).filter fun f => homeOf? env d f == home

/-- Every method is in one implementation, and no implementation has another. -/
theorem perm_methodsAt (d : TypeDecl) :
    (methodsAt env d none ++ (List.range (implemented env d).length).flatMap fun index =>
      methodsAt env d (some index)).Perm (ownMethods d) := by
  -- The homes below `n` and the inherent implementation have the methods at home there.
  have hbelow : ∀ n : Nat,
      (methodsAt env d none ++
          (List.range n).flatMap fun index => methodsAt env d (some index)).Perm
        ((ownMethods d).filter fun f => (homeOf? env d f).all (· < n)) := by
    intro n
    induction n with
    | zero =>
      rw [List.range_zero, List.flatMap_nil, List.append_nil, methodsAt]
      refine .of_eq (List.filter_congr fun f _ => ?_)
      cases homeOf? env d f <;> simp
    | succ n ih =>
      have hsplit := List.filter_append_perm (fun f => (homeOf? env d f).all (· < n))
        ((ownMethods d).filter fun f => (homeOf? env d f).all (· < n + 1))
      rw [List.filter_filter, List.filter_filter] at hsplit
      rw [List.range_succ, List.flatMap_append, List.flatMap_singleton, ← List.append_assoc]
      refine (ih.append_right _).trans (.trans (.of_eq ?_) hsplit)
      congr 1
      · refine List.filter_congr fun f _ => ?_
        cases homeOf? env d f with
        | none => rfl
        | some home => grind
      · refine List.filter_congr fun f _ => ?_
        cases homeOf? env d f with
        | none => rfl
        | some home => grind
  refine (hbelow _).trans (.of_eq (List.filter_eq_self.mpr fun f _ => ?_))
  cases hhome : homeOf? env d f with
  | none => rfl
  | some home => simpa using (List.findIdx?_eq_some_iff_getElem.mp hhome).1

/-! ### Blocks -/

/-- The functions of the implementation of the interface at place `index`. -/
def implDefinitions (env : Env) (d : TypeDecl) (index : Nat) (trait : String) :
    List (String × Signature) :=
  ((sharedProperties env (implemented env d) index true d.members).map (·.name)).flatMap
      (fun name => backedDefinitions ((env.traits.lookup trait).any (·.hasSetter name)) name) ++
    (sharedProperties env (implemented env d) index false d.members).flatMap
      (accessorDefinitions true) ++
    methodDefinitions (traitOptions env trait) (methodsAt env d (some index))

/-- The functions of the inherent implementation behind `new`. -/
def inherentDefinitions (env : Env) (d : TypeDecl) : List (String × Signature) :=
  ((Stmt.propertiesOf d.members).filter fun p =>
      keepsProperty false p && (propertyOwner? env (implemented env d) p.name).isNone).flatMap
      (accessorDefinitions false) ++
    methodDefinitions inherentOptions (methodsAt env d none)

/-- The block is the implementation of an interface for the type, with the functions at home
there. -/
def IsImplAt (env : Env) (d : TypeDecl) (listed : TypeRef × Nat) (c : Code) : Prop :=
  ∃ (bounds spelling : String) (body : List Code) (i k : Journal),
    (mapType env.known (Place.ofType d.name d.generics).toScope listed.1).Yields i spelling k ∧
    c = .block .plain (text ("impl" ++ bounds ++ " " ++ spelling ++ " for " ++ ident d.name ++
      genericArgs d.generics)) body "" ∧
    Defines (implDefinitions env d listed.2 listed.1.name) body

/-- The block is the inherent implementation of the type, with `new` and the functions at home
there. -/
def IsInherent (env : Env) (d : TypeDecl) (specs : List FieldSpec) (c : Code) : Prop :=
  ∃ (bounds : String) (before after : List Code) (new : Code),
    c = .block .plain (text ("impl" ++ bounds ++ " " ++ ident d.name ++ genericArgs d.generics))
      (before ++ new :: after) "" ∧
    functionHeads before = [] ∧ IsNew env d specs new ∧ Defines (inherentDefinitions env d) after

variable {parts : StructParts} {d : TypeDecl} {bounds : String}

/-- The planned accessors are the kept properties, in order. -/
theorem accessors_of_untyped (hparts : parts.untyped = plannedParts false d.members) :
    parts.accessors = (Stmt.propertiesOf d.members).filter (keepsProperty false) := by
  rw [← accessors_plannedParts false, ← hparts, StructParts.untyped]

/-- The planned methods of one home are the kept functions of that home. -/
theorem methods_of_untyped (hparts : parts.untyped = plannedParts false d.members)
    (home : Option Nat) :
    (parts.methods.filter fun f => methodOwner? env (implemented env d) f == home) =
      methodsAt env d home := by
  have hmethods : parts.methods = ownMethods d := by
    rw [ownMethods, ← methods_plannedParts false, ← hparts, StructParts.untyped]
  simp only [hmethods, methodsAt, methodOwner?_implemented]

/-- The impl of a trait holds exactly the members planned for it. -/
theorem isImplAt_traitImpl (hparts : parts.untyped = plannedParts false d.members) (index : Nat)
    (trait : TypeRef) :
    (traitImpl env (Place.ofType d.name d.generics) d.name bounds (genericArgs d.generics)
      (implemented env d) parts index trait).Always fun cs =>
        ∃ c, cs = [.blank, c] ∧ IsImplAt env d (trait, index) c := by
  refine .bind (Gen.always_yields _) fun spelling hspelling => ?_
  extract_lets backed getters
  obtain ⟨i, k, hspelling⟩ := hspelling
  have hbacked : Defines (((sharedProperties env (implemented env d) index true d.members).map
      (·.name)).flatMap fun name =>
        backedDefinitions ((env.traits.lookup trait.name).any (·.hasSetter name)) name)
      getters := by
    have hnames := backed_of_untyped hparts fun name =>
      propertyOwner? env (implemented env d) name == some index
    rw [sharedProperties, ← hnames, List.flatMap_map]
    exact .flatMap (fun f => defines_backedAccessors f _) backed
  have hshared : parts.accessors.filter
      (fun p => propertyOwner? env (implemented env d) p.name == some index) =
        sharedProperties env (implemented env d) index false d.members := by
    rw [accessors_of_untyped hparts, List.filter_filter, sharedProperties]
    simp only [Bool.and_comm]
  rw [hshared, methods_of_untyped hparts]
  exact .bind (defines_accessorCodes true _) fun accessors haccessors =>
    .bind (defines_traitMethods trait.name _) fun methods hmethods =>
      .pure ⟨_, rfl, bounds, spelling, _, i, k, hspelling, rfl,
        (hbacked.append haccessors).append hmethods⟩

theorem forall₂_traitImpls (hparts : parts.untyped = plannedParts false d.members)
    (traits : List TypeRef) (index : Nat) :
    (traitImpls env (Place.ofType d.name d.generics) d.name bounds (genericArgs d.generics)
      (implemented env d) parts index traits).Always fun cs =>
        ∃ impls : List Code, cs = impls.flatMap (fun c => [.blank, c]) ∧
          List.Forall₂ (IsImplAt env d) (traits.zipIdx index) impls := by
  induction traits generalizing index with
  | nil => exact .pure ⟨[], rfl, .nil⟩
  | cons trait traits ih =>
    refine .bind (isImplAt_traitImpl hparts index trait) fun cs hcs => .bind (ih (index + 1))
      fun ds hds => .pure ?_
    obtain ⟨c, rfl, hc⟩ := hcs
    obtain ⟨impls, rfl, himpls⟩ := hds
    exact ⟨c :: impls, rfl, .cons hc himpls⟩

/-! ### The type -/

theorem isDecoration_comment (shown : String) : isDecoration (.comment (text shown)) = true := by
  simp [Code.comment, isDecoration, text, Text.startsWith]

/-- What is written for the base is decoration. -/
theorem isDecoration_baseTraits (owner : String) (base : Option TypeRef) :
    (baseTraits env owner base).Always fun r => ∀ c ∈ r.2, isDecoration c = true := by
  unfold baseTraits
  split
  · exact .pure nofun
  · split
    · exact .pure nofun
    · exact .after fun _ => .pure (by simp [isDecoration_comment])

/-- What is written for the listed traits is decoration. -/
theorem isDecoration_listedTraits (owner : String) (ts : List TypeRef) :
    (listedTraits env owner ts).Always fun r => ∀ c ∈ r.2, isDecoration c = true := by
  induction ts with
  | nil => exact .pure nofun
  | cons t ts ih =>
    rw [listedTraits]
    split
    · exact .bind ih fun r hr => .pure hr
    · exact .after fun _ => .bind ih fun r hr => .pure
        (List.forall_mem_cons.mpr ⟨isDecoration_comment _, hr⟩)

theorem isDecoration_deriveLine (attributes : List Attribute) (specs : List FieldSpec) :
    ∀ c ∈ deriveLine attributes specs, isDecoration c = true := by
  unfold deriveLine
  split
  · exact nofun
  · simp [Code.text, text, isDecoration, Text.startsWith]

/-- The code is the struct of the type, then its implementations, behind attributes and comments. -/
def PlacesMembers (env : Env) (d : TypeDecl) (cs : List Code) : Prop :=
  ∃ (front : List Code) (bounds : String) (fields : List FieldSpec) (inherent : Code)
    (impls : List Code),
    cs = front ++ structBlock (visibility d.modifiers true ++ "struct " ++ ident d.name ++ bounds)
      fields :: .blank :: inherent :: impls.flatMap (fun c => [.blank, c]) ∧
    (∀ c ∈ front, isDecoration c = true) ∧
    List.Forall₂ (StoredAs env (Place.ofType d.name d.generics)) (d.members.filter isStored)
      fields ∧
    IsInherent env d fields inherent ∧
    List.Forall₂ (IsImplAt env d) (implemented env d).zipIdx impls

/-- The members of a class or struct that is not left out are placed. -/
theorem placesMembers_structCode (hunmarked : (Marker.of? d.attributes).isSome = false) :
    (structCode env d).Always (PlacesMembers env d) := by
  unfold structCode
  refine .bind (target.always_skipMarked _ _ _) fun skipped hskipped => ?_
  rw [hskipped, hunmarked, if_neg Bool.false_ne_true]
  extract_lets place args
  refine .bind ((always_structParts _ _).and (forall₂_fields false d.members))
    fun parts hparts => ?_
  obtain ⟨hparts, hfields⟩ := hparts
  refine .bind ((always_baseTraits _ _).and (isDecoration_baseTraits _ _)) fun base hbase => ?_
  refine .bind ((always_listedTraits _ _).and (isDecoration_listedTraits _ _))
    fun listed hlisted => ?_
  have htraits : base.1 ++ listed.1 = implemented env d := by
    rw [hbase.1, hlisted.1, implemented, List.filter_append]
  dsimp only
  rw [htraits]
  refine .bind (isDecoration_attributeLines _) fun lines hlines => .after fun bounds => ?_
  refine .bind (functionHeads_constCodes _) fun consts hconsts => ?_
  refine .bind (isNew_constructorCode d _ _) fun new hnew => ?_
  -- Members without an owner among the traits stay in the inherent part.
  have haccessors : parts.accessors.filter
      (fun p => (propertyOwner? env (implemented env d) p.name).isNone) =
        (Stmt.propertiesOf d.members).filter fun p =>
          keepsProperty false p && (propertyOwner? env (implemented env d) p.name).isNone := by
    rw [accessors_of_untyped hparts, List.filter_filter]
    simp only [Bool.and_comm]
  have hmethods : parts.methods.filter
      (fun f => (methodOwner? env (implemented env d) f).isNone) = methodsAt env d none := by
    rw [← methods_of_untyped hparts]
    exact List.filter_congr fun f _ => by cases methodOwner? env (implemented env d) f <;> rfl
  rw [haccessors, hmethods]
  refine .bind (defines_accessorCodes false _) fun accessors haccessors => ?_
  refine .bind (defines_inherentMethods _) fun methods hmethods => ?_
  refine .bind (functionHeads_rawCodes _) fun raws hraws => ?_
  refine .bind (forall₂_traitImpls hparts _ 0) fun impls himpls => .pure ?_
  obtain ⟨impls, rfl, himpls⟩ := himpls
  have hafter : Defines (inherentDefinitions env d) (accessors ++ methods ++ raws) := by
    rw [Defines, functionHeads, List.filterMap_append, ← functionHeads, ← functionHeads, hraws,
      List.append_nil]
    exact haccessors.append hmethods
  -- The inherent part has the constants, the constructor and then the members.
  have hinherent : IsInherent env d parts.fields
      (.block .plain (text ("impl" ++ bounds ++ " " ++ ident d.name ++ args))
        (consts ++ new :: accessors ++ methods ++ raws) "") :=
    ⟨bounds, consts, accessors ++ methods ++ raws, new, by simp [args], hconsts, hnew, hafter⟩
  refine ⟨.separator :: base.2 ++ listed.2 ++ lines ++ deriveLine d.attributes parts.fields, bounds,
    parts.fields, _, impls, by simp, ?_, hfields, hinherent, himpls⟩
  simp only [List.mem_append, List.mem_cons]
  rintro c ((((rfl | hc) | hc) | hc) | hc)
  · rfl
  · exact hbase.2 c hc
  · exact hlisted.2 c hc
  · exact hlines c hc
  · exact isDecoration_deriveLine _ _ c hc

/-- The code of a class or struct that is not left out has one field for each stored member, and
`new` gives each of these a value, both in the order of the members. Each method that is written is
one function in one implementation: that of the first interface that declares its name, or the
inherent one. -/
theorem members_placed (hunmarked : (Marker.of? d.attributes).isSome = false) {cs : List Code}
    {j k : Journal} (h : (structCode env d).Yields j cs k) :
    PlacesMembers env d cs ∧
      (methodsAt env d none ++ (List.range (implemented env d).length).flatMap fun index =>
        methodsAt env d (some index)).Perm (ownMethods d) :=
  ⟨placesMembers_structCode hunmarked h, perm_methodsAt d⟩

/-- A unit with an interface that asks for `area`. -/
def shapeEnv : Env :=
  { config := {}, known := { types := ["Shape"], interfaces := ["Shape"] },
    traits := [("Shape", { methods := [("area", .shared)] })] }

/-- A class with a stored field, a static one and a property, which implements the interface. -/
def circle : TypeDecl :=
  ⟨"Circle", [], [], [], none, [.named "Shape"],
    [.functionDecl .method ⟨"area", [], some (.named "int"), [], [], [],
        some [.ret (some (.member .this "radius"))], false, false⟩,
      .fieldDecl ⟨"radius", some (.named "int"), [], [], none⟩,
      .fieldDecl ⟨"sides", some (.named "int"), [.static], [], some (.literal (.number "0"))⟩,
      .propertyDecl ⟨"name", some (.named "string"), [], [], [⟨.get, [], none⟩], none⟩,
      .functionDecl .method ⟨"grow", [], none, [], [], [],
        some [.expr (.assign (.member .this "radius") .plusEqual (.literal (.number "1")))],
        false, false⟩]⟩

/-- A class with an interface, a method of its own, a property and a field is placed in full. -/
theorem circle_members_placed :
    (Marker.of? circle.attributes).isSome = false ∧
      (∃ cs k, (structCode shapeEnv circle).Yields {} cs k ∧ PlacesMembers shapeEnv circle cs) ∧
      (circle.members.filter isStored).length = 2 ∧
      (methodsAt shapeEnv circle none).map (·.name) = ["grow"] ∧
      (methodsAt shapeEnv circle (some 0)).map (·.name) = ["area"] := by
  have hok : (structCode shapeEnv circle).run'.1.isOk = true := by decide +kernel
  cases hresult : (structCode shapeEnv circle).run'.1 with
  | error e =>
    rw [hresult] at hok
    cases hok
  | ok cs =>
    have h : (structCode shapeEnv circle).Yields {} cs (structCode shapeEnv circle).run'.2 :=
      Prod.ext hresult rfl
    exact ⟨rfl, ⟨cs, _, h, (members_placed rfl h).1⟩, by decide, by decide, by decide⟩

end Rust

end SourceGen
