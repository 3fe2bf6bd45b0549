import SourceGen.Proofs.Rust.BodyAlike
import SourceGen.Proofs.Rust.ItemTraps

/-!
# Runs over Rust items

The members of a class are shared out among its implementations, and which member goes where depends
on the traits of the unit. But every member is written once, so the events of a class and the
imports that it requires are those of its members together.

## Main definitions

* `Rust.structEvents`, `Rust.traitEvents`: the events of the members of a type.
* `Rust.itemEvents`: the events of an item.
* `Rust.plannedParts`: what becomes of the members of a type.

## Main results

* `Rust.alike_structCode`: runs over a class or struct.
* `Rust.alike_items`: runs over items.
-/

namespace SourceGen

namespace Rust

/-! ### Events of declarations -/

/-- The events of the members of a class or struct. Only the first constructor is written. -/
def structEvents (hasConstructor : Bool) : List Stmt → List Event
  | [] => []
  | s :: ss =>
    if memberSkipped s then structEvents hasConstructor ss
    else
      match s with
      | .fieldDecl f => f.events false ++ structEvents hasConstructor ss
      | .propertyDecl p => p.events false ++ structEvents hasConstructor ss
      | .functionDecl _ f =>
        if f.isConstructor then
          (if hasConstructor then [] else Stmt.blockEvents false f.body) ++ structEvents true ss
        else f.events false [] ++ structEvents hasConstructor ss
      | .raw block => block.events ++ structEvents hasConstructor ss
      | _ => structEvents hasConstructor ss

/-- The events of the members of an interface. -/
def traitEvents (members : List Stmt) : List Event :=
  members.flatMap fun
    | .functionDecl _ f => f.events false []
    | _ => []

mutual

/-- The events of an item; a field may only stand in a module, a property nowhere. -/
def itemEvents (host : Host) : Stmt → List Event
  | .namespaceDecl _ decls => allItemEvents .space decls
  | .typeDecl .interface decl => unmarkedEvents false decl.attributes (traitEvents decl.members)
  | .typeDecl _ decl => unmarkedEvents false decl.attributes (structEvents false decl.members)
  | .enumDecl decl => unmarkedEvents false decl.attributes (decl.events false)
  | .moduleDecl ⟨_, _, attributes, decls⟩ =>
    unmarkedEvents false attributes (allItemEvents .module decls)
  | .functionDecl _ decl => decl.events false []
  | .fieldDecl decl =>
    if host = .module then
      if (Marker.of? decl.attributes).isSome then [] else decl.events false
    else [.refusal]
  | .propertyDecl _ => [.refusal]
  | .includeDecl _ decls => allItemEvents host decls
  | .raw block => block.events
  | _ => []

/-- The events of items. -/
def allItemEvents (host : Host) : List Stmt → List Event
  | [] => []
  | s :: ss => itemEvents host s ++ allItemEvents host ss

end

/-- Items have their events one by one. -/
theorem allItemEvents_eq_flatMap (host : Host) (ss : List Stmt) :
    allItemEvents host ss = ss.flatMap (itemEvents host) := by
  induction ss with
  | nil => rw [allItemEvents, List.flatMap_nil]
  | cons s ss ih => rw [allItemEvents, List.flatMap_cons, ih]

variable {env env' : Env} {place place' : Place}

/-! ### What becomes of members -/

/-- The sorted members without the spellings of their types. -/
def StructParts.untyped (parts : StructParts) : StructParts :=
  { parts with fields := parts.fields.map fun f => { f with type := "" } }

/-- What becomes of the members of a type, whose constructor may have been seen already. -/
def plannedParts (hasConstructor : Bool) : List Stmt → StructParts
  | [] => {}
  | s :: ss =>
    if memberSkipped s then plannedParts hasConstructor ss
    else
      match s with
      | .fieldDecl f =>
        let rest := plannedParts hasConstructor ss
        if isStaticField f then { rest with consts := f :: rest.consts }
        else
          let spec : FieldSpec := ⟨visibility f.modifiers false, f.name, "", f.initializer, false⟩
          { rest with fields := spec :: rest.fields }
      | .propertyDecl p =>
        let rest := plannedParts hasConstructor ss
        if p.isAuto then
          let spec : FieldSpec := ⟨visibility p.modifiers false, p.name, "", p.initializer, true⟩
          { rest with fields := spec :: rest.fields }
        else { rest with accessors := p :: rest.accessors }
      | .functionDecl _ f =>
        if f.isConstructor then
          let rest := plannedParts true ss
          if hasConstructor then rest else { rest with constructor := some f }
        else
          let rest := plannedParts hasConstructor ss
          { rest with methods := f :: rest.methods }
      | .raw block =>
        let rest := plannedParts hasConstructor ss
        { rest with raws := block :: rest.raws }
      | _ => plannedParts hasConstructor ss

/-- The parts of a struct are planned from its members alone. -/
theorem always_structParts {owner : String} (hasConstructor : Bool) (members : List Stmt) :
    (structParts env place owner hasConstructor members).Always
      (·.untyped = plannedParts hasConstructor members) := by
  induction members generalizing hasConstructor with
  | nil => exact .pure rfl
  | cons s ss ih =>
    unfold structParts plannedParts
    refine .bind (always_memberMarked s) fun skipped hskipped => ?_
    rw [← hskipped]
    split
    · exact ih hasConstructor
    cases s with
    | fieldDecl f =>
      dsimp only
      split
      · exact .bind (ih hasConstructor) fun rest hrest => .pure (by rw [← hrest]; rfl)
      · refine .after fun type => ?_
        exact .bind (ih hasConstructor) fun rest hrest => .pure (by rw [← hrest]; rfl)
    | propertyDecl p =>
      dsimp only
      split
      · refine .after fun type => ?_
        exact .bind (ih hasConstructor) fun rest hrest => .pure (by rw [← hrest]; rfl)
      · exact .bind (ih hasConstructor) fun rest hrest => .pure (by rw [← hrest]; rfl)
    | functionDecl kind f =>
      dsimp only
      split
      · split
        · exact .after fun _ => ih true
        · exact .bind (ih true) fun rest hrest => .pure (by rw [← hrest]; rfl)
      · exact .bind (ih hasConstructor) fun rest hrest => .pure (by rw [← hrest]; rfl)
    | raw block => exact .bind (ih hasConstructor) fun rest hrest => .pure (by rw [← hrest]; rfl)
    | _ => exact .after fun _ => ih hasConstructor

theorem alike_memberMarked (s : Stmt) :
    Gen.Alike target [] (memberMarked s) (memberMarked s) := by
  cases s with
  | fieldDecl f => exact target.alike_skipMarked _ _ _
  | propertyDecl p => exact target.alike_skipMarked _ _ _
  | functionDecl kind f =>
    rw [memberMarked]
    split
    · exact target.alike_skipMarked _ _ _
    · exact .pure _ _
  | _ => exact .pure _ _

/-- Planning the parts of a struct is no event. -/
theorem alike_structParts (h : SameTypes env env' place.toScope place'.toScope) (owner : String)
    (hasConstructor : Bool) (members : List Stmt) :
    Gen.Alike target [] (structParts env place owner hasConstructor members)
      (structParts env' place' owner hasConstructor members) := by
  induction members generalizing hasConstructor with
  | nil => exact .pure _ _
  | cons s ss ih =>
    unfold structParts
    refine .bind_of_always (alike_memberMarked s) (always_memberMarked s) (always_memberMarked s)
      fun skipped skipped' hskipped hskipped' => ?_
    rw [hskipped, hskipped']
    split
    · exact ih hasConstructor
    cases s with
    | fieldDecl f =>
      dsimp only
      split
      · exact (ih hasConstructor).map _ _
      · exact .after (alike_typeOr h _ _ _) fun _ _ => (ih hasConstructor).map _ _
    | propertyDecl p =>
      dsimp only
      split
      · exact .after (alike_typeOr h _ _ _) fun _ _ => (ih hasConstructor).map _ _
      · exact (ih hasConstructor).map _ _
    | functionDecl kind f =>
      dsimp only
      split
      · split
        · exact .after (.note rfl rfl rfl) fun _ _ => ih true
        · exact (ih true).map _ _
      · exact (ih hasConstructor).map _ _
    | raw block => exact (ih hasConstructor).map _ _
    | _ =>
      exact .after (.note rfl rfl rfl) fun _ _ => ih hasConstructor

/-- The events of the accessors of a property. -/
def accessorEvents (p : Property) : List Event :=
  p.accessors.flatMap (Accessor.events false)

/-- The events of the initializers and of the constructor. -/
def StructParts.valueEvents (parts : StructParts) : List Event :=
  parts.consts.flatMap (Field.events false) ++
    (parts.fields.flatMap (fun f => Expr.optionEvents false f.init) ++
      Stmt.blockEvents false (parts.constructor.bind (·.body)))

/-- The events of what stands in the implementations besides. -/
def StructParts.implEvents (parts : StructParts) : List Event :=
  parts.accessors.flatMap accessorEvents ++
    (parts.methods.flatMap (Function.events false []) ++ parts.raws.flatMap RawBlock.events)

/-- The spellings of types have no events. -/
theorem StructParts.valueEvents_untyped (parts : StructParts) :
    parts.untyped.valueEvents = parts.valueEvents := by
  simp [valueEvents, untyped, List.flatMap_map]

/-- Parts that differ in the spellings of types only. -/
theorem StructParts.of_untyped_eq {parts parts' : StructParts}
    (h : parts'.untyped = parts.untyped) :
    parts' = { parts with fields := parts'.fields } ∧
      parts.fields.map (·.init) = parts'.fields.map (·.init) := by
  obtain ⟨fields, consts, constructor, methods, accessors, raws⟩ := parts
  obtain ⟨fields', consts', constructor', methods', accessors', raws'⟩ := parts'
  simp only [untyped, StructParts.mk.injEq] at h
  obtain ⟨hfields, rfl, rfl, rfl, rfl, rfl⟩ := h
  have hinits := congrArg (List.map (·.init)) hfields
  simp only [List.map_map] at hinits
  exact ⟨rfl, hinits.symm⟩

/-- Only the first constructor is kept. -/
theorem constructor_plannedParts (members : List Stmt) :
    (plannedParts true members).constructor = none := by
  induction members with
  | nil => rfl
  | cons s ss ih =>
    unfold plannedParts
    split
    · exact ih
    cases s with
    | fieldDecl f | propertyDecl p | functionDecl kind f =>
      dsimp only
      split
      · exact ih
      · exact ih
    | _ => exact ih

/-- Sorting the members loses none that is written. -/
theorem mem_events_plannedParts {event : Event} (hasConstructor : Bool) (members : List Stmt) :
    event ∈ (plannedParts hasConstructor members).valueEvents ++
        (plannedParts hasConstructor members).implEvents ↔
      event ∈ structEvents hasConstructor members := by
  induction members generalizing hasConstructor with
  | nil =>
    simp [plannedParts, structEvents, StructParts.valueEvents, StructParts.implEvents,
      Stmt.blockEvents]
  | cons s ss ih =>
    -- Each member adds its events to one part; the sums differ in their order only.
    unfold plannedParts structEvents
    split
    · exact ih hasConstructor
    cases s with
    | fieldDecl f =>
      dsimp only
      split
      · simp only [StructParts.valueEvents, StructParts.implEvents, List.flatMap_cons,
          List.mem_append, ← ih hasConstructor, or_assoc]
      · simp only [StructParts.valueEvents, StructParts.implEvents, List.flatMap_cons,
          List.mem_append, ← ih hasConstructor, Field.events]
        exact .of_eq (by ac_rfl)
    | propertyDecl p =>
      dsimp only [Property.events]
      split
      · simp only [StructParts.valueEvents, StructParts.implEvents, List.flatMap_cons,
          List.mem_append, ← ih hasConstructor]
        exact .of_eq (by ac_rfl)
      · simp only [StructParts.valueEvents, StructParts.implEvents, List.flatMap_cons,
          List.mem_append, ← ih hasConstructor, accessorEvents]
        exact .of_eq (by ac_rfl)
    | functionDecl kind f =>
      dsimp only
      split
      · split
        · exact ih true
        · simp only [StructParts.valueEvents, StructParts.implEvents, List.mem_append, ← ih true,
            constructor_plannedParts, Option.bind_some, Option.bind_none, Stmt.blockEvents,
            List.not_mem_nil, or_false]
          exact .of_eq (by ac_rfl)
      · simp only [StructParts.valueEvents, StructParts.implEvents, List.flatMap_cons,
          List.mem_append, ← ih hasConstructor]
        exact .of_eq (by ac_rfl)
    | raw block =>
      dsimp only
      simp only [StructParts.valueEvents, StructParts.implEvents, List.flatMap_cons,
        List.mem_append, ← ih hasConstructor]
      exact .of_eq (by ac_rfl)
    | _ => exact ih hasConstructor

/-! ### Values -/

/-- A constant has the events of its field. -/
theorem alike_constCode (h : SameTypes env env' place.toScope place'.toScope) (f : Field) :
    Gen.Alike target (f.events false) (constCode env place f) (constCode env' place' f) := by
  rw [Field.events]
  unfold constCode
  split
  · rename_i hnone
    rw [hnone, Expr.optionEvents]
    exact .after (.note rfl rfl rfl) fun _ _ => .pure _ _
  · rename_i init hinit
    rw [hinit, Expr.optionEvents]
    exact .after (alike_typeOr h _ _ _) fun _ _ => (alike_expr h .value init).map _ _

theorem alike_constCodes (h : SameTypes env env' place.toScope place'.toScope)
    (fs : List Field) :
    Gen.Alike target (fs.flatMap (Field.events false)) (constCodes env place fs)
      (constCodes env' place' fs) := by
  induction fs with
  | nil => exact .pure _ _
  | cons f fs ih =>
    rw [List.flatMap_cons]
    exact .bind (alike_constCode h f) fun _ _ => ih.map _ _

/-- The values of the fields are written alike when the fields have the same ones. -/
theorem alike_fieldValues (h : SameTypes env env' place.toScope place'.toScope)
    {fs fs' : List FieldSpec} (hinits : fs.map (·.init) = fs'.map (·.init)) :
    Gen.Alike target (fs.flatMap fun f => Expr.optionEvents false f.init) (fieldValues env place fs)
      (fieldValues env' place' fs') := by
  induction fs generalizing fs' with
  | nil =>
    obtain rfl : fs' = [] := by simpa using hinits.symm
    exact .pure _ _
  | cons f fs ih =>
    cases fs' with
    | nil => simp at hinits
    | cons f' fs' =>
      simp only [List.map_cons, List.cons.injEq] at hinits
      obtain ⟨hinit, hinits⟩ := hinits
      rw [List.flatMap_cons, fieldValues, fieldValues, ← hinit]
      exact .bind (alike_ownedOption h f.init) fun _ _ => (ih hinits).map _ _

/-- A constructor has the events of the values and of its body. -/
theorem alike_constructorCode (h : SameTypes env env' place.toScope place'.toScope)
    (constructor : Option Function) {fields fields' : List FieldSpec}
    (hinits : fields.map (·.init) = fields'.map (·.init)) :
    Gen.Alike target (fields.flatMap (fun f => Expr.optionEvents false f.init) ++
        Stmt.blockEvents false (constructor.bind (·.body)))
      (constructorCode env place constructor fields)
      (constructorCode env' place' constructor fields') := by
  unfold constructorCode
  refine .after (alike_parameters h _) fun _ _ => ?_
  extract_lets shown inner head inner' head'
  have hinner : SameTypes env env' inner.toScope inner'.toScope :=
    ⟨h.known, h.classGenerics, h.functionGenerics⟩
  refine .bind (alike_fieldValues hinner hinits) fun _ _ => ?_
  cases constructor.bind (·.body) with
  | none => exact .pure _ _
  | some body =>
    rw [Stmt.blockEvents, Option.getD_some]
    cases body with
    | nil => exact .pure _ _
    | cons s ss => exact (alike_stmts hinner (s :: ss)).map _ _

/-! ### Implementations -/

theorem alike_accessorBodies (h : SameTypes env env' place.toScope place'.toScope)
    (inTrait inTrait' : Bool) (shown shown' name type type' : String) (accessors : List Accessor) :
    Gen.Alike target (accessors.flatMap (Accessor.events false))
      (accessorBodies env place inTrait shown name type accessors)
      (accessorBodies env' place' inTrait' shown' name type' accessors) := by
  induction accessors with
  | nil => exact .pure _ _
  | cons a accessors ih =>
    obtain ⟨kind, modifiers, body⟩ := a
    rw [List.flatMap_cons, Accessor.events, accessorBodies, accessorBodies]
    cases body with
    | none =>
      rw [Stmt.blockEvents]
      exact ih
    | some body =>
      rw [Stmt.blockEvents]
      exact .bind (alike_stmts h body).hide fun _ _ => ih.map _ _

/-- Accessors have the events of their bodies, in a trait and outside. -/
theorem alike_accessorCode (h : SameTypes env env' place.toScope place'.toScope)
    (inTrait inTrait' : Bool) (p : Property) :
    Gen.Alike target (accessorEvents p) (accessorCode env place inTrait p)
      (accessorCode env' place' inTrait' p) :=
  .after (alike_typeOr h _ _ _) fun _ _ => alike_accessorBodies h _ _ _ _ _ _ _ _

/-- The imports that accessors, methods and listed types require, wherever they are written. -/
structure ImplNeeds (env : Env) (place : Place) (accessor : Property → String → Prop)
    (method : Function → String → Prop) (trait : TypeRef → String → Prop) : Prop where
  accessor : ∀ inTrait p,
    Gen.Acts target (accessorEvents p) (accessor p) (accessorCode env place inTrait p)
  method : ∀ options : FunctionOptions, options.returns = none → ∀ f,
    Gen.Acts target (f.events false []) (method f)
      (function env place options (fun _ => return []) f)
  trait : ∀ t, Gen.Acts target [] (trait t) (mapType env.known place.toScope t)

/-- Places where types mean the same require the same imports. -/
theorem SameTypes.implNeeds (h : SameTypes env env' place.toScope place'.toScope) :
    ImplNeeds env' place' (fun p => (accessorCode env place false p).Needs)
      (fun f => (function env place {} (fun _ => return []) f).Needs)
      (fun t => (mapType env.known place.toScope t).Needs) where
  accessor inTrait p := (alike_accessorCode h false inTrait p).acts_needs
  method options hreturns f :=
    (alike_function h (by rw [hreturns]) [] (fun _ _ _ => .pure _ _) f).acts_needs
  trait t := (alike_mapType h t).acts_needs

/-- The events of the members in the implementation of the trait at place `index`. -/
def sharedEvents (env : Env) (traits : List TypeRef) (parts : StructParts) (index : Nat) :
    List Event :=
  (parts.accessors.filter fun p => propertyOwner? env traits p.name == some index).flatMap
      accessorEvents ++
    (parts.methods.filter fun f => methodOwner? env traits f == some index).flatMap
      (Function.events false [])

/-- The imports of the members in the implementation of the trait at place `index`. -/
def SharedNeeds (env : Env) (traits : List TypeRef) (parts : StructParts)
    (accessor : Property → String → Prop) (method : Function → String → Prop) (index : Nat)
    (name : String) : Prop :=
  (∃ p ∈ parts.accessors.filter fun p => propertyOwner? env traits p.name == some index,
      accessor p name) ∨
    ∃ f ∈ parts.methods.filter fun f => methodOwner? env traits f == some index, method f name

/-- What is shared out among the places below `n` and a rest is all there. -/
theorem exists_mem_shared {α : Type} (xs : List α) (P : α → Prop) (owner : α → Option Nat)
    (n : Nat) (h : ∀ x i, owner x = some i → i < n) :
    ((∃ x ∈ xs.filter fun x => (owner x).isNone, P x) ∨
      ∃ i ∈ List.range' 0 n, ∃ x ∈ xs.filter fun x => owner x == some i, P x) ↔ ∃ x ∈ xs, P x := by
  classical
  have hany := Bool.eq_iff_iff.mp (any_shared xs (fun x => decide (P x)) owner n h)
  simpa only [Bool.or_eq_true, List.any_eq_true, decide_eq_true_eq] using hany

section Implementations

variable {accessor : Property → String → Prop} {method : Function → String → Prop}
  {trait : TypeRef → String → Prop} (h : ImplNeeds env place accessor method trait)

include h

/-- Accessors need the imports of their types and bodies. -/
theorem acts_accessorCodes (inTrait : Bool) (ps : List Property) :
    Gen.Acts target (ps.flatMap accessorEvents) (fun name => ∃ p ∈ ps, accessor p name)
      (accessorCodes env place inTrait ps) := by
  induction ps with
  | nil => exact (Gen.Acts.pure _).congr (by simp) (by simp)
  | cons p ps ih =>
    rw [List.flatMap_cons]
    exact (Gen.Acts.bind (h.accessor inTrait p) fun _ => ih.map _).congr (by simp) (by simp)

/-- Inherent methods need the imports of their own signatures and bodies. -/
theorem acts_inherentMethods (fs : List Function) :
    Gen.Acts target (fs.flatMap (Function.events false [])) (fun name => ∃ f ∈ fs, method f name)
      (inherentMethods env place fs) := by
  induction fs with
  | nil => exact (Gen.Acts.pure _).congr (by simp) (by simp)
  | cons f fs ih =>
    rw [List.flatMap_cons]
    exact (Gen.Acts.bind (h.method _ rfl f) fun _ => ih.map _).congr (by simp) (by simp)

/-- The methods of a trait need the imports of their own signatures and bodies. -/
theorem acts_traitMethods (name : String) (fs : List Function) :
    Gen.Acts target (fs.flatMap (Function.events false [])) (fun name => ∃ f ∈ fs, method f name)
      (traitMethods env place name fs) := by
  induction fs with
  | nil => exact (Gen.Acts.pure _).congr (by simp) (by simp)
  | cons f fs ih =>
    rw [List.flatMap_cons]
    exact (Gen.Acts.bind (h.method _ rfl f) fun _ => ih.map _).congr (by simp) (by simp)

variable {traits : List TypeRef} {parts : StructParts} {owner bounds args : String}

/-- An impl needs the imports of its trait and of the members that fall to it. -/
theorem acts_traitImpl (index : Nat) (t : TypeRef) :
    Gen.Acts target (sharedEvents env traits parts index)
      (fun name => trait t name ∨ SharedNeeds env traits parts accessor method index name)
      (traitImpl env place owner bounds args traits parts index t) := by
  refine (Gen.Acts.bind (h.trait t) fun _ => Gen.Acts.bind (acts_accessorCodes h true _) fun _ =>
    (acts_traitMethods h t.name _).map _).congr (fun _ => ?_) fun _ => .rfl
  rfl

/-- The impls of a struct need what each of them needs. -/
theorem acts_traitImpls (index : Nat) (ts : List TypeRef) :
    Gen.Acts target ((List.range' index ts.length).flatMap (sharedEvents env traits parts))
      (fun name => (∃ t ∈ ts, trait t name) ∨
        ∃ i ∈ List.range' index ts.length, SharedNeeds env traits parts accessor method i name)
      (traitImpls env place owner bounds args traits parts index ts) := by
  induction ts generalizing index with
  | nil => exact (Gen.Acts.pure _).congr (by simp) (by simp)
  | cons t ts ih =>
    rw [List.length_cons, List.range'_succ, List.flatMap_cons]
    refine (Gen.Acts.bind (acts_traitImpl h index t) fun _ => (ih (index + 1)).map _).congr
      (fun _ => .rfl) fun name => ?_
    simp only [List.mem_cons, or_and_right, exists_or, exists_eq_left]
    exact .of_eq (by ac_rfl)

/-- Whatever goes into which implementation, all accessors and methods are written. -/
theorem acts_impls (traits : List TypeRef) (parts : StructParts)
    (finish : List Code → List Code → List Code → List Code → List Code) :
    Gen.Acts target parts.implEvents
      (fun name => (∃ p ∈ parts.accessors, accessor p name) ∨ (∃ f ∈ parts.methods, method f name) ∨
        ∃ t ∈ traits, trait t name)
      (do
        let accessors ← accessorCodes env place false
          (parts.accessors.filter fun p => (propertyOwner? env traits p.name).isNone)
        let methods ← inherentMethods env place
          (parts.methods.filter fun f => (methodOwner? env traits f).isNone)
        let raws ← target.rawCodes parts.raws
        let impls ← traitImpls env place owner bounds args traits parts 0 traits
        return finish accessors methods raws impls) := by
  refine (Gen.Acts.bind (acts_accessorCodes h false _) fun _ =>
    Gen.Acts.bind (acts_inherentMethods h _) fun _ =>
      Gen.Acts.bind (target.acts_rawCodes parts.raws) fun _ =>
        (acts_traitImpls h 0 traits).map _).congr (fun event => ?_) fun name => ?_
  · have haccessors := exists_mem_shared parts.accessors (event ∈ accessorEvents ·)
      (fun p => propertyOwner? env traits p.name) traits.length fun _ _ => lt_of_traitOwner?
    have hmethods := exists_mem_shared parts.methods (event ∈ Function.events false [] ·)
      (methodOwner? env traits) traits.length fun _ _ => lt_of_traitOwner?
    simp only [StructParts.implEvents, sharedEvents, List.mem_append, List.mem_flatMap,
      and_or_left, exists_or, ← haccessors, ← hmethods]
    exact .of_eq (by ac_rfl)
  · have haccessors := exists_mem_shared parts.accessors (accessor · name)
      (fun p => propertyOwner? env traits p.name) traits.length fun _ _ => lt_of_traitOwner?
    have hmethods := exists_mem_shared parts.methods (method · name)
      (methodOwner? env traits) traits.length fun _ _ => lt_of_traitOwner?
    simp only [SharedNeeds, and_or_left, exists_or, ← haccessors, ← hmethods, false_or]
    exact .of_eq (by ac_rfl)

end Implementations

theorem alike_baseTraits (h : env.known = env'.known) (owner : String) (base : Option TypeRef) :
    Gen.Alike target [] (baseTraits env owner base) (baseTraits env' owner base) := by
  cases base with
  | none => exact .pure _ _
  | some base =>
    rw [baseTraits, baseTraits, h]
    split
    · exact .pure _ _
    · exact .after (.note rfl rfl rfl) fun _ _ => .pure _ _

/-- A base is a trait exactly when it is a known interface. -/
theorem always_baseTraits (owner : String) (base : Option TypeRef) :
    (baseTraits env owner base).Always
      (·.1 = base.toList.filter (env.known.isInterface ·.name)) := by
  cases base with
  | none => exact .pure rfl
  | some base =>
    rw [baseTraits]
    split
    · rename_i h
      exact .pure (by simp [h])
    · rename_i h
      exact .after fun _ => .pure (by simp [h])

theorem alike_listedTraits (h : env.known = env'.known) (owner : String) (ts : List TypeRef) :
    Gen.Alike target [] (listedTraits env owner ts) (listedTraits env' owner ts) := by
  induction ts with
  | nil => exact .pure _ _
  | cons t ts ih =>
    rw [listedTraits, listedTraits, h]
    split
    · exact ih.map _ _
    · exact .after (.note rfl rfl rfl) fun _ _ => ih.map _ _

/-- The implemented traits are the listed interfaces, in order. -/
theorem always_listedTraits (owner : String) (ts : List TypeRef) :
    (listedTraits env owner ts).Always (·.1 = ts.filter (env.known.isInterface ·.name)) := by
  induction ts with
  | nil => exact .pure rfl
  | cons t ts ih =>
    rw [listedTraits]
    split
    · rename_i h
      exact .bind ih fun r hr => .pure (by simp [h, hr])
    · rename_i h
      exact .after fun _ => .bind ih fun r hr => .pure (by simp [h, hr])

/-- The traits of the unit do not matter for what a run over a class does. -/
theorem alike_structCode (h : env.known = env'.known) (d : TypeDecl) :
    Gen.Alike target (unmarkedEvents false d.attributes (structEvents false d.members))
      (structCode env d) (structCode env' d) := by
  refine target.alike_unlessMarked fun _ => ?_
  extract_lets place args
  have hplace : SameTypes env env' place.toScope place.toScope := ⟨h, rfl, rfl⟩
  refine .after_of_always (alike_structParts hplace _ _ _) (always_structParts _ _)
    (always_structParts _ _) fun parts parts' hparts hparts' => ?_
  refine .after_of_always (alike_baseTraits h _ _) (always_baseTraits _ _) (always_baseTraits _ _)
    fun base base' hbase hbase' => ?_
  refine .after_of_always (alike_listedTraits h _ _) (always_listedTraits _ _)
    (always_listedTraits _ _) fun listed listed' hlisted hlisted' => ?_
  rw [← h, ← hbase] at hbase'
  rw [← h, ← hlisted] at hlisted'
  dsimp only
  rw [hbase', hlisted']
  refine .bind (alike_attributeLines hplace d.attributes) fun _ _ => ?_
  refine .after (alike_genericParams hplace d.generics) fun _ _ => ?_
  -- Both runs sort the members in the same way, and the events are those of the sorted members.
  have hevents : ∀ event, event ∈ parts.valueEvents ++ parts.implEvents ↔
      event ∈ structEvents false d.members := by
    intro event
    rw [← mem_events_plannedParts, ← hparts, StructParts.valueEvents_untyped]
    rfl
  obtain ⟨hsame, hinits⟩ := StructParts.of_untyped_eq (hparts'.trans hparts.symm)
  generalize parts'.fields = fields at hsame hinits
  subst hsame
  refine Gen.Alike.congr ?_ hevents
  rw [StructParts.valueEvents, List.append_assoc]
  refine .bind (alike_constCodes hplace parts.consts) fun _ _ => ?_
  refine .bind (alike_constructorCode hplace parts.constructor hinits) fun _ _ => ?_
  have hself : SameTypes env env place.toScope place.toScope := ⟨rfl, rfl, rfl⟩
  exact ⟨_, acts_impls hself.implNeeds (base.1 ++ listed.1) parts _,
    acts_impls hplace.implNeeds (base.1 ++ listed.1) { parts with fields } _⟩

/-! ### Traits, enums and modules -/

/-- A marked function has no events. -/
theorem events_of_marker {before : List Event} {f : Function}
    (h : (Marker.of? f.attributes).isSome = true) : f.events false before = [] := by
  obtain ⟨name, params, returnType, generics, modifiers, attributes, body, isConstructor,
    isStatic⟩ := f
  rw [Function.events, if_pos h]

theorem alike_traitMembers (h : SameTypes env env' place.toScope place'.toScope) (owner : String)
    (members : List Stmt) :
    Gen.Alike target (traitEvents members) (traitMembers env place owner members)
      (traitMembers env' place' owner members) := by
  induction members with
  | nil => exact .pure _ _
  | cons s ss ih =>
    unfold traitMembers
    rw [traitEvents, List.flatMap_cons]
    refine .after_of_always (alike_memberMarked s) (always_memberMarked s) (always_memberMarked s)
      fun skipped skipped' hskipped hskipped' => ?_
    rw [hskipped, hskipped']
    by_cases hmark : memberSkipped s = true
    · rw [if_pos hmark, if_pos hmark]
      cases s with
      | functionDecl kind f =>
        have hmark : (Marker.of? f.attributes).isSome = true := (Bool.and_eq_true_iff.mp hmark).2
        dsimp only
        rw [events_of_marker hmark]
        exact ih
      | _ => exact ih
    · rw [if_neg hmark, if_neg hmark]
      cases s with
      | functionDecl kind f =>
        exact .bind (alike_function h (by rfl) [] (fun _ _ _ => .pure _ _) f) fun _ _ => ih.map _ _
      | propertyDecl p => exact .after (alike_typeOr h _ _ _) fun _ _ => ih.map _ _
      | _ =>
        exact .after (.note rfl rfl rfl) fun _ _ => ih

/-- A trait has the events of its members, unless it is marked. -/
theorem alike_traitCode (h : env.known = env'.known) (d : TypeDecl) :
    Gen.Alike target (unmarkedEvents false d.attributes (traitEvents d.members)) (traitCode env d)
      (traitCode env' d) := by
  refine target.alike_unlessMarked fun _ => ?_
  extract_lets outer place
  have hplace : SameTypes env env' place.toScope place.toScope := ⟨h, rfl, rfl⟩
  refine .bind (alike_attributeLines hplace d.attributes) fun _ _ => ?_
  refine .after (alike_mapTypes hplace _) fun _ _ => ?_
  refine .after (alike_genericParams hplace d.generics) fun _ _ => ?_
  exact (alike_traitMembers hplace d.name d.members).map _ _

theorem alike_variantLines (h : env.known = env'.known) (variants : List EnumVariant) :
    Gen.Alike target (variants.flatMap fun v => Expr.optionEvents false v.value)
      (variantLines env variants) (variantLines env' variants) := by
  have hplace : SameTypes env env' ({} : Place).toScope ({} : Place).toScope := ⟨h, rfl, rfl⟩
  induction variants with
  | nil => exact .pure _ _
  | cons v variants ih =>
    obtain ⟨name, value⟩ := v
    rw [List.flatMap_cons, variantLines, variantLines]
    cases value with
    | none =>
      rw [Expr.optionEvents]
      exact ih.map _ _
    | some value =>
      rw [Expr.optionEvents]
      exact .bind (alike_expr hplace .value value) fun _ _ => ih.map _ _

/-- An enumeration has the events of its variants, unless it is marked. -/
theorem alike_enumCode (h : env.known = env'.known) (d : EnumDecl) :
    Gen.Alike target (unmarkedEvents false d.attributes (d.events false)) (enumCode env d)
      (enumCode env' d) := by
  refine target.alike_unlessMarked fun _ => ?_
  have hplace : SameTypes env env' ({} : Place).toScope ({} : Place).toScope := ⟨h, rfl, rfl⟩
  exact .bind (alike_attributeLines hplace d.attributes) fun _ _ =>
    (alike_variantLines h d.variants).map _ _

mutual

/-- An item has the events read off its syntax, by induction on it. -/
theorem alike_item (h : env.known = env'.known) (place : Place) (host : Host) :
    ∀ s : Stmt,
      Gen.Alike target (itemEvents host s) (item env place host s) (item env' place host s)
  | .namespaceDecl name decls => by
    rw [itemEvents, item, item]
    exact (alike_separatedItems h decls).map _ _
  | .typeDecl .interface decl => by
    rw [itemEvents, item, item]
    exact alike_traitCode h decl
  | .typeDecl .cls decl | .typeDecl .struct decl => by
    simp only [itemEvents, item]
    exact alike_structCode h decl
  | .enumDecl decl => by
    rw [itemEvents, item, item]
    exact alike_enumCode h decl
  | .moduleDecl ⟨name, modifiers, attributes, decls⟩ => by
    rw [itemEvents, item, item]
    refine target.alike_unlessMarked fun _ => ?_
    extract_lets inner
    have hinner : SameTypes env env' inner.toScope inner.toScope := ⟨h, rfl, rfl⟩
    exact .bind (alike_attributeLines hinner attributes) fun _ _ =>
      (alike_items h inner .module decls).map _ _
  | .functionDecl _ decl => by
    rw [itemEvents, item, item]
    have hplace : SameTypes env env' place.toScope place.toScope := ⟨h, rfl, rfl⟩
    exact (alike_function hplace rfl [] (fun _ _ _ => .pure _ _) decl).map _ _
  | .fieldDecl decl => by
    rw [itemEvents, item, item]
    have hplace : SameTypes env env' place.toScope place.toScope := ⟨h, rfl, rfl⟩
    split
    · exact target.alike_unlessMarked fun _ => alike_constCode hplace decl
    · exact .fail _ _
  | .propertyDecl decl => by
    rw [itemEvents, item, item]
    exact .fail _ _
  | .importDecl decl => by
    simp only [itemEvents, item]
    exact .pure _ _
  | .aliasDecl decl => by
    simp only [itemEvents, item]
    have hplace : SameTypes env env' place.toScope place.toScope := ⟨h, rfl, rfl⟩
    exact .after ((alike_mapType hplace decl.target).map _ _) fun _ _ => .pure _ _
  | .includeDecl _ decls => by
    rw [itemEvents, item, item]
    exact alike_items h place host decls
  | .raw block => by
    rw [itemEvents, item, item]
    exact target.alike_rawCode block
  | .binding _ | .ifThen _ _ _ | .whileLoop _ _ | .forLoop _ _ _ _ | .forEach _ _ _ _ | .ret _
  | .breakLoop | .continueLoop | .matchOn _ _ | .switchOn _ _ | .expr _ => by
    simp only [itemEvents, item]
    exact .after (.note rfl rfl rfl) fun _ _ => .pure _ _

/-- The same of items. -/
theorem alike_items (h : env.known = env'.known) (place : Place) (host : Host) :
    ∀ ss : List Stmt,
      Gen.Alike target (allItemEvents host ss) (items env place host ss) (items env' place host ss)
  | [] => by
    rw [allItemEvents, items, items]
    exact .pure _ _
  | s :: ss => by
    rw [allItemEvents, items, items]
    exact .bind (alike_item h place host s) fun _ _ => (alike_items h place host ss).map _ _

theorem alike_separatedItems (h : env.known = env'.known) :
    ∀ ss : List Stmt,
      Gen.Alike target (allItemEvents .space ss) (separatedItems env ss) (separatedItems env' ss)
  | [] => by
    rw [allItemEvents, separatedItems, separatedItems]
    exact .pure _ _
  | s :: ss => by
    rw [allItemEvents, separatedItems, separatedItems]
    exact .bind (alike_item h {} .space s) fun _ _ => (alike_separatedItems h ss).map _ _

end

end Rust

end SourceGen
