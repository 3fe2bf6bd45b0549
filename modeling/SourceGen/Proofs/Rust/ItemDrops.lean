import Mathlib.Data.List.Forall2
import SourceGen.Proofs.Rust.BodyDrops
import SourceGen.Proofs.Rust.ItemAlike
import SourceGen.Rust.Declaration

/-!
# Rust items without some marked declarations

A marked member of a type or a module adds nothing but a report and a separator. What the interfaces
of the unit require may change without it, so which implementation the other members go to and which
receivers they take. As long as the traits that a type is asked about agree about the members that
are left in it, the items are written in the same way, up to separators.

## Main definitions

* `Rust.Traits.AgreeAbout`: traits that require the same of a member.
* `Stmt.traitQueries`: the members that traits are asked about.
* `Rust.StructParts.Drops`: the members of a type without some of them, by what becomes of them.

## Main results

* `Rust.mirrored_structCode`: structs without some members.
* `Rust.mirrored_traitCode`: traits without some members.
* `Rust.mirrored_items`: items without some declarations.
-/

namespace SourceGen

/-! ### What traits are asked about -/

/-- The name under which a trait may require the member. -/
def Stmt.memberName? : Stmt → Option String
  | .functionDecl _ f => some f.name
  | .propertyDecl p => some p.name
  | _ => none

/-- The interfaces that are asked about the members of a type: itself, or those that it lists. -/
def TypeDecl.askedTraits (kind : TypeKind) (d : TypeDecl) : List String :=
  if kind = .interface then [d.name] else (d.base.toList ++ d.interfaces).map (·.name)

mutual

/-- The interfaces that are asked about members of types in a statement, with their names. -/
def Stmt.traitQueries : Stmt → List (String × String)
  | .includeDecl _ ss | .namespaceDecl _ ss | .moduleDecl ⟨_, _, _, ss⟩ => Stmt.allTraitQueries ss
  | .typeDecl kind d =>
    (d.askedTraits kind).flatMap fun trait =>
      (d.members.filterMap Stmt.memberName?).map fun name => (trait, name)
  | _ => []

/-- The interfaces that are asked about members of types in some statements. -/
def Stmt.allTraitQueries : List Stmt → List (String × String)
  | [] => []
  | s :: ss => s.traitQueries ++ Stmt.allTraitQueries ss

end

namespace Rust

open Fragment (text)
open Gen (Blind Idle Mirrored)

/-- A trait requires the same under a name. -/
structure Traits.AgreeAbout (traits traits' : Traits) (trait name : String) : Prop where
  receiver? : (traits.lookup trait).bind (·.receiver? name) =
    (traits'.lookup trait).bind (·.receiver? name)
  hasProperty : (traits.lookup trait).any (·.hasProperty name) =
    (traits'.lookup trait).any (·.hasProperty name)
  hasSetter : (traits.lookup trait).any (·.hasSetter name) =
    (traits'.lookup trait).any (·.hasSetter name)

/-- All the given traits require the same under a name. -/
def Traits.AgreeOn (traits traits' : Traits) (asked : List String) (name : String) : Prop :=
  ∀ trait ∈ asked, traits.AgreeAbout traits' trait name

variable {env : Env} {traits : Traits} {asked : List String} {place : Place} {host : Host}
  {fns : Bool}

/-! ### What is read off a method -/

/-- The receiver of a kept method does not depend on the dropped declarations. -/
theorem receiverOf_eq {f g : Function} (h : f.Drops fns g) : receiverOf f = receiverOf g := by
  rw [receiverOf, receiverOf, h.body.any_assignsThis, Function.hasModifier, Function.hasModifier,
    h.head.isStatic, h.head.modifiers]

/-- Where the traits agree on a method, its receiver in an impl is the same. -/
theorem agreedReceiver_eq {f g : Function} (h : f.Drops fns g)
    (hagree : env.traits.AgreeOn traits asked g.name) {trait : String} (htrait : trait ∈ asked) :
    agreedReceiver env trait f = agreedReceiver (env.withTraits traits) trait g := by
  rw [agreedReceiver, agreedReceiver, receiverOf_eq h, h.head.name, (hagree trait htrait).receiver?]

section Owner

variable {listed : List TypeRef} (hlisted : ∀ t ∈ listed, t.name ∈ asked)

include hlisted

/-- Where the traits agree on what they ask for, a member has the same owner. -/
theorem traitOwner?_eq {requires : TraitShape → Bool}
    (h : ∀ trait ∈ asked, (env.traits.lookup trait).any requires =
      (traits.lookup trait).any requires) :
    traitOwner? env listed requires = traitOwner? (env.withTraits traits) listed requires := by
  induction listed with
  | nil => rfl
  | cons t ts ih =>
    obtain ⟨ht, hts⟩ := List.forall_mem_cons.mp hlisted
    have hrest := ih hts
    unfold traitOwner? at hrest ⊢
    rw [List.findIdx?_cons, List.findIdx?_cons, hrest, h t.name ht]

/-- A kept method goes to the same trait. -/
theorem methodOwner?_eq {f g : Function} (h : f.Drops fns g)
    (hagree : env.traits.AgreeOn traits asked g.name) :
    methodOwner? env listed f = methodOwner? (env.withTraits traits) listed g := by
  have hrequires : ∀ (traits : Traits) (trait : String),
      (traits.lookup trait).any (fun shape => (shape.receiver? g.name).isSome) =
        ((traits.lookup trait).bind (·.receiver? g.name)).isSome := fun traits trait => by
    cases traits.lookup trait <;> rfl
  rw [methodOwner?, methodOwner?, h.head.name]
  refine traitOwner?_eq hlisted fun trait htrait => ?_
  rw [hrequires, hrequires, (hagree trait htrait).receiver?]

/-- A kept property goes to the same trait. -/
theorem propertyOwner?_eq {name : String} (hagree : env.traits.AgreeOn traits asked name) :
    propertyOwner? env listed name = propertyOwner? (env.withTraits traits) listed name :=
  traitOwner?_eq hlisted fun trait htrait => (hagree trait htrait).hasProperty

end Owner

/-! ### The members of a struct -/

/-- The second field is the first one without some declarations in its value, and the traits agree
about it if it is a property. -/
structure FieldSpec.Drops (fns : Bool) (traits traits' : Traits) (asked : List String)
    (f g : FieldSpec) : Prop where
  visibility : f.visibility = g.visibility
  name : f.name = g.name
  type : f.type = g.type
  init : Expr.DropsOption fns f.init g.init
  isProperty : f.isProperty = g.isProperty
  agree : g.isProperty = true → traits.AgreeOn traits' asked g.name

/-- The second methods are the first ones without some marked ones, and the traits agree about what
is left. -/
def MethodsDrop (fns : Bool) (traits traits' : Traits) (asked : List String) :
    List Function → List Function → Prop
  | [] => fun gs => gs = []
  | f :: fs => fun gs =>
    fns = true ∧ f.marker.isSome = true ∧ MethodsDrop fns traits traits' asked fs gs ∨
    ∃ g hs, gs = g :: hs ∧ (f.Drops fns g ∧ traits.AgreeOn traits' asked g.name) ∧
      MethodsDrop fns traits traits' asked fs hs

/-- The second constructor is the first one without some declarations; either has statements. -/
def ConstructorDrops (fns : Bool) (f g : Function) : Prop :=
  f.Drops fns g ∧ (f.body.getD []).isEmpty = (g.body.getD []).isEmpty

/-- The second parts are the first ones without some declarations. -/
structure StructParts.Drops (fns : Bool) (traits traits' : Traits) (asked : List String)
    (a b : StructParts) : Prop where
  fields : List.Forall₂ (FieldSpec.Drops fns traits traits' asked) a.fields b.fields
  consts : List.Forall₂ (Field.Drops fns) a.consts b.consts
  constructor : Option.Rel (ConstructorDrops fns) a.constructor b.constructor
  methods : MethodsDrop fns traits traits' asked a.methods b.methods
  accessors : List.Forall₂ (fun p q => p.Drops fns q ∧ traits.AgreeOn traits' asked q.name)
    a.accessors b.accessors
  raws : a.raws = b.raws

theorem mirrored_memberMarked {s t : Stmt} (h : s.Drops fns t) :
    Mirrored Eq (memberMarked s) (memberMarked t) := by
  cases s with
  | fieldDecl f =>
    obtain ⟨_, rfl, h⟩ := h
    obtain ⟨_, _, _, _, _⟩ := f
    obtain ⟨_, _, rfl, has, -⟩ := h
    exact target.mirrored_skipMarked has.marker
  | propertyDecl p =>
    obtain ⟨_, rfl, h⟩ := h
    obtain ⟨_, _, _, _, _, _⟩ := p
    obtain ⟨_, _, _, rfl, has, -⟩ := h
    exact target.mirrored_skipMarked has.marker
  | functionDecl kind f =>
    obtain ⟨g, rfl, h⟩ := h
    rw [memberMarked, memberMarked, ← h.head.isConstructor]
    split
    · exact target.mirrored_skipMarked h.head.marker
    · exact .pure rfl
  | importDecl | aliasDecl | breakLoop | continueLoop | raw =>
    obtain rfl := h
    exact .pure rfl
  | includeDecl | namespaceDecl | typeDecl | enumDecl | moduleDecl | binding | ret | expr =>
    obtain ⟨_, rfl, _⟩ := h
    exact .pure rfl
  | whileLoop | forEach | matchOn | switchOn =>
    obtain ⟨_, _, rfl, _⟩ := h
    exact .pure rfl
  | ifThen =>
    obtain ⟨_, _, _, rfl, _⟩ := h
    exact .pure rfl
  | forLoop =>
    obtain ⟨_, _, _, _, rfl, _⟩ := h
    exact .pure rfl

/-- A dropped member is marked where members are sorted, unless it is a method, which is kept until
it is written. -/
theorem memberMarked_of_droppable {s : Stmt} (h : s.droppable fns = true) :
    Idle (· = true) (memberMarked s) ∨ ∃ kind f, s = .functionDecl kind f ∧ fns = true ∧
      f.marker.isSome = true ∧ f.isConstructor = false ∧ Idle (· = false) (memberMarked s) := by
  cases s with
  | fieldDecl | propertyDecl => exact .inl (target.idle_skipMarked h)
  | functionDecl kind f =>
    obtain ⟨hfns, hmarker⟩ := Bool.and_eq_true_iff.mp h
    rw [memberMarked]
    cases hconstructor : f.isConstructor with
    | true => exact .inl (target.idle_skipMarked hmarker)
    | false => exact .inr ⟨kind, f, rfl, hfns, hmarker, hconstructor, .pure rfl⟩
  | _ => cases h

/-- The parts of a struct are planned alike. -/
theorem mirrored_structParts (owner : String) : ∀ {ss ts : List Stmt} {hasConstructor : Bool},
    Stmt.DropsAll fns ss ts →
    (∀ name ∈ ts.filterMap Stmt.memberName?, env.traits.AgreeOn traits asked name) →
    Mirrored (StructParts.Drops fns env.traits traits asked)
      (structParts env place owner hasConstructor ss)
      (structParts (env.withTraits traits) place owner hasConstructor ts)
  | [], _, _ => by
    rintro rfl -
    exact .pure ⟨.nil, .nil, .none, rfl, .nil, rfl⟩
  | s :: ss, ts, hasConstructor => by
    rintro (⟨hs, h⟩ | ⟨t, us, rfl, hs, h⟩) hagree
    · -- Without the first member: a marked one is skipped, a marked function writes no method.
      have hrest : Mirrored _ (structParts env place owner hasConstructor ss) _ :=
        mirrored_structParts owner h hagree
      obtain hmarked | ⟨kind, f, rfl, hfns, hmarker, hconstructor, hmarked⟩ :=
        memberMarked_of_droppable hs
      · refine .idle hmarked fun skipped hskipped => ?_
        rw [if_pos hskipped]
        exact hrest
      · refine .idle hmarked fun skipped hskipped => ?_
        rw [if_neg (by simp [hskipped])]
        dsimp only
        rw [if_neg (by simp [hconstructor])]
        refine hrest.mapLeft fun a b hab => ?_
        exact { hab with methods := .inl ⟨hfns, hmarker, hab.methods⟩ }
    · -- With the first member, which goes to the same part of both structs.
      have hrest : ∀ hasConstructor, Mirrored (StructParts.Drops fns env.traits traits asked)
          (structParts env place owner hasConstructor ss)
          (structParts (env.withTraits traits) place owner hasConstructor us) :=
        fun _ => mirrored_structParts owner h fun name hname => hagree name
          (((List.sublist_cons_self t us).filterMap _).subset hname)
      refine .same (mirrored_memberMarked hs) fun skipped => ?_
      split
      · exact hrest _
      · cases s with
        | fieldDecl f =>
          obtain ⟨g, rfl, hf⟩ := hs
          obtain ⟨name, type, modifiers, as, o⟩ := f
          obtain ⟨as', o', rfl, has, ho⟩ := id hf
          dsimp only
          have hstatic : isStaticField ⟨name, type, modifiers, as, o⟩ =
            isStaticField ⟨name, type, modifiers, as', o'⟩ := rfl
          rw [hstatic]
          split
          · exact (hrest _).map fun a b hab => { hab with consts := .cons hf hab.consts }
          · refine .same (mirrored_typeOr name type ho) fun _ => ?_
            refine (hrest _).map fun a b hab => { hab with fields := .cons ?_ hab.fields }
            exact ⟨rfl, rfl, rfl, ho, rfl, nofun⟩
        | propertyDecl p =>
          obtain ⟨q, rfl, hp⟩ := hs
          have hauto := hp.isAuto
          obtain ⟨name, type, modifiers, as, accessors, o⟩ := p
          obtain ⟨as', accessors', o', rfl, has, haccessors, ho⟩ := id hp
          have hname : env.traits.AgreeOn traits asked name :=
            hagree name (by simp [Stmt.memberName?])
          dsimp only
          rw [hauto]
          split
          · refine .same (mirrored_typeOr name type ho) fun _ => ?_
            refine (hrest _).map fun a b hab => { hab with fields := .cons ?_ hab.fields }
            exact ⟨rfl, rfl, rfl, ho, rfl, fun _ => hname⟩
          · refine (hrest _).map fun a b hab => { hab with accessors := .cons ?_ hab.accessors }
            exact ⟨hp, hname⟩
        | functionDecl kind f =>
          obtain ⟨g, rfl, hf⟩ := hs
          have hname : env.traits.AgreeOn traits asked g.name :=
            hagree g.name (by simp [Stmt.memberName?])
          have hempty := hf.isEmpty_body
          rw [hf.head.isConstructor] at hempty
          dsimp only
          rw [hf.head.isConstructor]
          split
          · rename_i hconstructor
            split
            · exact .same (.report _ _) fun _ => hrest _
            · refine (hrest _).map fun a b hab => { hab with constructor := .some ?_ }
              exact ⟨hf, hempty hconstructor⟩
          · refine (hrest _).map fun a b hab => ?_
            exact { hab with methods := .inr ⟨g, _, rfl, ⟨hf, hname⟩, hab.methods⟩ }
        | raw block =>
          obtain rfl := hs
          exact (hrest _).map fun a b hab => { hab with raws := congrArg (block :: ·) hab.raws }
        | importDecl | aliasDecl | breakLoop | continueLoop =>
          obtain rfl := hs
          exact .same (.report _ _) fun _ => hrest _
        | includeDecl | namespaceDecl | typeDecl | enumDecl | moduleDecl | binding | ret | expr =>
          obtain ⟨_, rfl, _⟩ := hs
          exact .same (.report _ _) fun _ => hrest _
        | whileLoop | forEach | matchOn | switchOn =>
          obtain ⟨_, _, rfl, _⟩ := hs
          exact .same (.report _ _) fun _ => hrest _
        | ifThen =>
          obtain ⟨_, _, _, rfl, _⟩ := hs
          exact .same (.report _ _) fun _ => hrest _
        | forLoop =>
          obtain ⟨_, _, _, _, rfl, _⟩ := hs
          exact .same (.report _ _) fun _ => hrest _

/-! ### Listed types -/

theorem mirrored_baseTraits (owner : String) (base : Option TypeRef) :
    Mirrored Eq (baseTraits env owner base) (baseTraits (env.withTraits traits) owner base) := by
  cases base with
  | none => exact .pure rfl
  | some base =>
    rw [baseTraits, baseTraits]
    split
    · exact .pure rfl
    · exact .same (.report _ _) fun _ => .pure rfl

theorem mirrored_listedTraits (owner : String) (listed : List TypeRef) :
    Mirrored Eq (listedTraits env owner listed)
      (listedTraits (env.withTraits traits) owner listed) := by
  induction listed with
  | nil => exact .pure rfl
  | cons t ts ih =>
    rw [listedTraits, listedTraits]
    split
    · exact ih.mapEq _
    · exact .same (.report _ _) fun _ => ih.mapEq _

/-! ### The code of members -/

/-- A constant is written alike. -/
theorem mirrored_constCode {f g : Field} (h : f.Drops fns g) :
    Mirrored (Code.Same fns) (constCode env place f)
      (constCode (env.withTraits traits) place g) := by
  obtain ⟨name, type, modifiers, as, o⟩ := f
  obtain ⟨as', o', rfl, -, ho⟩ := h
  cases o with
  | none =>
    obtain rfl := ho
    exact .same (.report _ _) fun _ => .pure rfl
  | some init =>
    obtain ⟨init', rfl, hinit⟩ := id ho
    refine .same (mirrored_typeOr name type ho) fun _ => ?_
    rw [hinit.isStringLiteral]
    exact (mirrored_expr place .value hinit).map fun _ _ hf => by simp [hf]

theorem mirrored_constCodes {fs gs : List Field} (h : List.Forall₂ (Field.Drops fns) fs gs) :
    Mirrored (Code.Same fns) (constCodes env place fs)
      (constCodes (env.withTraits traits) place gs) := by
  induction h with
  | nil => exact .pure rfl
  | cons hf _ ih =>
    exact .bind (mirrored_constCode hf) fun _ _ hc => ih.map fun _ _ hd => by simp [hc, hd]

/-- The values of the fields are written alike. -/
theorem mirrored_fieldValues {fs gs : List FieldSpec}
    (h : List.Forall₂ (FieldSpec.Drops fns env.traits traits asked) fs gs) :
    Mirrored (Code.Same fns) (fieldValues env place fs)
      (fieldValues (env.withTraits traits) place gs) := by
  induction h with
  | nil => exact .pure rfl
  | cons hf _ ih =>
    refine .bind (mirrored_ownedOption place hf.init) fun o o' ho => ?_
    exact ih.map fun _ _ hc => by simp [hf.name, ho, hc]

/-- A constructor is written alike. -/
theorem mirrored_constructorCode {c c' : Option Function}
    (hc : Option.Rel (ConstructorDrops fns) c c') {fs gs : List FieldSpec}
    (hfields : List.Forall₂ (FieldSpec.Drops fns env.traits traits asked) fs gs) :
    Mirrored (fun code code' => code.thin fns = code'.thin fns)
      (constructorCode env place c fs)
      (constructorCode (env.withTraits traits) place c' gs) := by
  have hparams : Parameter.DropsAll fns (c.elim [] (·.params)) (c'.elim [] (·.params)) := by
    -- Both structs have a constructor or neither has.
    cases hc with
    | none => rfl
    | some h => exact h.1.params
  have hshown : c.elim "pub " (fun f => visibility f.modifiers true) =
      c'.elim "pub " fun f => visibility f.modifiers true := by
    cases hc with
    | none => rfl
    | some h => exact congrArg (visibility · true) h.1.head.modifiers
  have hbody : Stmt.DropsAll fns ((c.bind (·.body)).getD []) ((c'.bind (·.body)).getD []) ∧
      ((c.bind (·.body)).getD []).isEmpty = ((c'.bind (·.body)).getD []).isEmpty := by
    cases hc with
    | none => exact ⟨rfl, rfl⟩
    | some h => exact ⟨h.1.body.getD, h.2⟩
  unfold constructorCode
  rw [hshown]
  refine .same (mirrored_parameters hparams) fun _ => ?_
  refine .bind (mirrored_fieldValues hfields) fun _ _ hvalues => ?_
  obtain ⟨hbody, hempty⟩ := hbody
  generalize (c.bind (·.body)).getD [] = ss at *
  generalize (c'.bind (·.body)).getD [] = ts at *
  cases ss with
  | nil =>
    obtain rfl : ts = [] := List.isEmpty_iff.mp hempty.symm
    exact .pure (by simp [hvalues])
  | cons s ss =>
    cases ts with
    | nil => cases hempty
    | cons t ts =>
      exact (mirrored_stmts _ hbody).map fun _ _ hcode => by simp [hvalues, hcode]

/-- Accessors are written alike. -/
theorem mirrored_accessorBodies (inTrait : Bool) (shown name type : String) :
    ∀ {as as' : List Accessor}, Accessor.DropsAll fns as as' →
    Mirrored (Code.Same fns) (accessorBodies env place inTrait shown name type as)
      (accessorBodies (env.withTraits traits) place inTrait shown name type as')
  | [], _ => by
    rintro rfl
    exact .pure rfl
  | ⟨_, _, none⟩ :: _, _ => by
    rintro ⟨_, _, rfl, rfl, has⟩
    rw [accessorBodies, accessorBodies]
    exact mirrored_accessorBodies inTrait shown name type has
  | ⟨kind, modifiers, some body⟩ :: _, _ => by
    rintro ⟨_, _, rfl, ⟨body', rfl, hbody⟩, has⟩
    have hsetter : TraitShape.isSetter ⟨kind, modifiers, some body⟩ =
      TraitShape.isSetter ⟨kind, modifiers, some body'⟩ := rfl
    rw [accessorBodies, accessorBodies]
    dsimp only
    rw [hbody.flow.2.2, hsetter]
    refine .bind (mirrored_stmts place hbody) fun _ _ hcode => ?_
    exact (mirrored_accessorBodies inTrait shown name type has).map fun _ _ hc => by
      simp [hcode, hc]

theorem mirrored_accessorCode (inTrait : Bool) {p q : Property} (h : p.Drops fns q) :
    Mirrored (Code.Same fns) (accessorCode env place inTrait p)
      (accessorCode (env.withTraits traits) place inTrait q) := by
  obtain ⟨name, type, modifiers, as, accessors, o⟩ := p
  obtain ⟨as', accessors', o', rfl, -, haccessors, ho⟩ := h
  refine .same (mirrored_typeOr name type ho) fun _ => ?_
  exact mirrored_accessorBodies inTrait _ name _ haccessors

theorem mirrored_accessorCodes (inTrait : Bool) {ps qs : List Property}
    {R : Property → Property → Prop} (hR : ∀ p q, R p q → p.Drops fns q)
    (h : List.Forall₂ R ps qs) :
    Mirrored (Code.Same fns) (accessorCodes env place inTrait ps)
      (accessorCodes (env.withTraits traits) place inTrait qs) := by
  induction h with
  | nil => exact .pure rfl
  | cons hp _ ih =>
    refine .bind (mirrored_accessorCode inTrait (hR _ _ hp)) fun _ _ hc => ?_
    exact ih.map fun _ _ hd => by simp [hc, hd]

/-- Methods that are chosen alike are dropped alike. -/
theorem MethodsDrop.filter {P Q : Function → Bool}
    (hPQ : ∀ f g, f.Drops fns g → env.traits.AgreeOn traits asked g.name → P f = Q g) :
    ∀ {fs gs : List Function}, MethodsDrop fns env.traits traits asked fs gs →
    MethodsDrop fns env.traits traits asked (fs.filter P) (gs.filter Q)
  | [], _ => by
    rintro rfl
    rfl
  | f :: fs, _ => by
    rintro (⟨hfns, hmarker, h⟩ | ⟨g, gs, rfl, hf, h⟩)
    · have hrest := filter hPQ h
      rw [List.filter_cons]
      split
      · exact .inl ⟨hfns, hmarker, hrest⟩
      · exact hrest
    · have hrest := filter hPQ h
      rw [List.filter_cons, List.filter_cons, hPQ f g hf.1 hf.2]
      split
      · exact .inr ⟨g, _, rfl, hf, hrest⟩
      · exact hrest

/-- Methods that are written one after the other, each with options that stay the same. -/
theorem mirrored_methods {codes codes' : List Function → Gen (List Code)}
    {options options' : Function → FunctionOptions}
    (hnil : codes [] = pure []) (hnil' : codes' [] = pure [])
    (hcons : ∀ f fs, codes (f :: fs) = do
      let code ← function env place (options f) (fun _ => return []) f
      return .separator :: code ++ (← codes fs))
    (hcons' : ∀ f fs, codes' (f :: fs) = do
      let code ← function (env.withTraits traits) place (options' f) (fun _ => return []) f
      return .separator :: code ++ (← codes' fs))
    (hoptions : ∀ f g, f.Drops fns g → env.traits.AgreeOn traits asked g.name →
      options f = options' g) :
    ∀ {fs gs : List Function}, MethodsDrop fns env.traits traits asked fs gs →
    Mirrored (Code.Same fns) (codes fs) (codes' gs)
  | [], _ => by
    rintro rfl
    rw [hnil, hnil']
    exact .pure rfl
  | f :: fs, _ => by
    rintro (⟨hfns, hmarker, h⟩ | ⟨g, gs, rfl, hf, h⟩)
    · have hrest := mirrored_methods hnil hnil' hcons hcons' hoptions h
      subst hfns
      rw [hcons]
      refine .idle (idle_function hmarker) fun _ hc => ?_
      exact hrest.mapLeft fun _ _ hd => by simp [hc, hd]
    · have hrest := mirrored_methods hnil hnil' hcons hcons' hoptions h
      rw [hcons, hcons', hoptions f g hf.1 hf.2]
      refine .bind (mirrored_function place _ (fun _ => .pure rfl) hf.1) fun _ _ hc => ?_
      exact hrest.map fun _ _ hd => by simp [hc, hd]

/-- Inherent methods are written alike. -/
theorem mirrored_inherentMethods {fs gs : List Function}
    (h : MethodsDrop fns env.traits traits asked fs gs) :
    Mirrored (Code.Same fns) (inherentMethods env place fs)
      (inherentMethods (env.withTraits traits) place gs) :=
  mirrored_methods rfl rfl (fun _ _ => rfl) (fun _ _ => rfl)
    (fun _ _ hf _ => by rw [receiverOf_eq hf, hf.head.modifiers]) h

/-- The methods of a trait are written alike. -/
theorem mirrored_traitMethods {trait : String} (htrait : trait ∈ asked) {fs gs : List Function}
    (h : MethodsDrop fns env.traits traits asked fs gs) :
    Mirrored (Code.Same fns) (traitMethods env place trait fs)
      (traitMethods (env.withTraits traits) place trait gs) :=
  mirrored_methods rfl rfl (fun _ _ => rfl) (fun _ _ => rfl)
    (fun _ _ hf hagree => by rw [agreedReceiver_eq hf hagree htrait]) h

/-! ### Structs -/

section Implementations

variable {listed : List TypeRef} (hlisted : ∀ t ∈ listed, t.name ∈ asked)

include hlisted

/-- The accessors over fields that a trait implementation gets. -/
theorem flatMap_backedAccessors {fs gs : List FieldSpec} (index : Nat) {trait : String}
    (htrait : trait ∈ asked)
    (h : List.Forall₂ (FieldSpec.Drops fns env.traits traits asked) fs gs) :
    (fs.filter fun f => f.isProperty && propertyOwner? env listed f.name == some index).flatMap
        (fun f => backedAccessors f ((env.traits.lookup trait).any (·.hasSetter f.name))) =
      (gs.filter fun f => f.isProperty &&
        propertyOwner? (env.withTraits traits) listed f.name == some index).flatMap
        fun f => backedAccessors f ((traits.lookup trait).any (·.hasSetter f.name)) := by
  induction h with
  | nil => rfl
  | @cons f g fs gs hf _ ih =>
    rw [List.filter_cons, List.filter_cons, hf.isProperty, hf.name]
    cases hproperty : g.isProperty with
    | false => exact ih
    | true =>
      have hagree := hf.agree hproperty
      have hcode : ∀ setter, backedAccessors f setter = backedAccessors g setter := fun _ => by
        rw [backedAccessors, backedAccessors, hf.name, hf.type]
      rw [propertyOwner?_eq hlisted hagree]
      split
      · rw [List.flatMap_cons, List.flatMap_cons, ih, hcode, hf.name,
          (hagree trait htrait).hasSetter]
      · exact ih

/-- Properties are chosen by their owners, which stay the same. -/
theorem filter_accessors {ps qs : List Property} (chosen : Option Nat → Bool)
    (h : List.Forall₂ (fun p q => p.Drops fns q ∧ env.traits.AgreeOn traits asked q.name) ps qs) :
    List.Forall₂ (fun p q => p.Drops fns q ∧ env.traits.AgreeOn traits asked q.name)
      (ps.filter fun p => chosen (propertyOwner? env listed p.name))
      (qs.filter fun p => chosen (propertyOwner? (env.withTraits traits) listed p.name)) := by
  refine List.rel_filter (fun p q hpq => ?_) h
  dsimp only
  rw [hpq.1.name, propertyOwner?_eq hlisted hpq.2]

/-- Choosing methods by their owner keeps the kept ones together. -/
theorem filter_methods {fs gs : List Function} (chosen : Option Nat → Bool)
    (h : MethodsDrop fns env.traits traits asked fs gs) :
    MethodsDrop fns env.traits traits asked
      (fs.filter fun f => chosen (methodOwner? env listed f))
      (gs.filter fun f => chosen (methodOwner? (env.withTraits traits) listed f)) :=
  h.filter fun _ _ hf hagree => by rw [methodOwner?_eq hlisted hf hagree]

/-- An impl is written alike. -/
theorem mirrored_traitImpl {a b : StructParts} (h : a.Drops fns env.traits traits asked b)
    (owner bounds args : String) (index : Nat) {trait : TypeRef} (htrait : trait.name ∈ asked) :
    Mirrored (Code.Same fns) (traitImpl env place owner bounds args listed a index trait)
      (traitImpl (env.withTraits traits) place owner bounds args listed b index trait) := by
  have hgetters := flatMap_backedAccessors hlisted index htrait h.fields
  refine .same (blind_mapType trait) fun _ => ?_
  refine .bind (mirrored_accessorCodes true (fun _ _ hp => hp.1)
    (filter_accessors hlisted (· == some index) h.accessors)) fun _ _ haccessors => ?_
  refine (mirrored_traitMethods htrait (filter_methods hlisted (· == some index) h.methods)).map
    fun _ _ hmethods => ?_
  simp [hgetters, haccessors, hmethods]

/-- The impls of a struct are written alike. -/
theorem mirrored_traitImpls {a b : StructParts} (h : a.Drops fns env.traits traits asked b)
    (owner bounds args : String) (index : Nat) {ts : List TypeRef}
    (hts : ∀ t ∈ ts, t.name ∈ asked) :
    Mirrored (Code.Same fns) (traitImpls env place owner bounds args listed a index ts)
      (traitImpls (env.withTraits traits) place owner bounds args listed b index ts) := by
  induction ts generalizing index with
  | nil => exact .pure rfl
  | cons t ts ih =>
    obtain ⟨ht, hts⟩ := List.forall_mem_cons.mp hts
    refine .bind (mirrored_traitImpl hlisted h owner bounds args index ht) fun _ _ hc => ?_
    exact (ih (index + 1) hts).map fun _ _ hd => by simp [hc, hd]

end Implementations

/-- The declared fields stay the same. -/
theorem structBlock_eq {fs gs : List FieldSpec} (head : String)
    (h : List.Forall₂ (FieldSpec.Drops fns env.traits traits asked) fs gs) :
    structBlock head fs = structBlock head gs := by
  have hempty : fs.isEmpty = gs.isEmpty := by cases h <;> rfl
  have hlines :
      (fs.map fun f => Code.text (f.visibility ++ ident f.name ++ ": " ++ f.type ++ ",")) =
      gs.map fun f => .text (f.visibility ++ ident f.name ++ ": " ++ f.type ++ ",") := by
    clear hempty
    induction h with
    | nil => rfl
    | cons hf _ ih => rw [List.map_cons, List.map_cons, ih, hf.visibility, hf.name, hf.type]
  rw [structBlock, structBlock, hempty, hlines]

/-- What a struct derives does not depend on the dropped declarations. -/
theorem deriveLine_eq {as as' : List Attribute} (has : Attribute.DropsAll fns as as')
    {fs gs : List FieldSpec}
    (h : List.Forall₂ (FieldSpec.Drops fns env.traits traits asked) fs gs) :
    deriveLine as fs = deriveLine as' gs := by
  have htypes : fs.any (Text.contains ·.type "dyn") = gs.any (Text.contains ·.type "dyn") := by
    induction h with
    | nil => rfl
    | cons hf _ ih => rw [List.any_cons, List.any_cons, ih, hf.type]
  rw [deriveLine, deriveLine, has.any_name, htypes]

/-- A struct without some of its members. -/
theorem mirrored_structCode {d d' : TypeDecl} (h : d.Drops fns d')
    (hagree : ∀ name ∈ d'.members.filterMap Stmt.memberName?,
      env.traits.AgreeOn traits ((d'.base.toList ++ d'.interfaces).map (·.name)) name) :
    Mirrored (Code.Same fns) (structCode env d) (structCode (env.withTraits traits) d') := by
  obtain ⟨name, modifiers, as, generics, base, interfaces, ss⟩ := d
  obtain ⟨as', ts, rfl, has, hs⟩ := h
  refine target.mirrored_unlessMarked has.marker rfl ?_
  refine .bind (mirrored_structParts name hs hagree) fun a b hparts => ?_
  refine .bind ((mirrored_baseTraits name base).always (always_baseTraits name base)
    (always_baseTraits name base)) ?_
  rintro ⟨baseTrait, baseComment⟩ - ⟨rfl, hbase, -⟩
  refine .bind ((mirrored_listedTraits name interfaces).always
    (always_listedTraits name interfaces) (always_listedTraits name interfaces)) ?_
  rintro ⟨listed, listedComments⟩ - ⟨rfl, hinterfaces, -⟩
  have hlisted : ∀ t ∈ baseTrait ++ listed,
      t.name ∈ (base.toList ++ interfaces).map (·.name) := by
    intro t ht
    dsimp only at hbase hinterfaces
    rw [hbase, hinterfaces, ← List.filter_append] at ht
    exact List.mem_map_of_mem (List.mem_filter.mp ht).1
  refine .bind (mirrored_attributeLines _ has) fun _ _ hlines => ?_
  refine .same (blind_genericParams generics) fun _ => ?_
  refine .bind (mirrored_constCodes hparts.consts) fun _ _ hconsts => ?_
  refine .bind (mirrored_constructorCode hparts.constructor hparts.fields)
    fun _ _ hconstructor => ?_
  refine .bind (mirrored_accessorCodes false (fun _ _ hp => hp.1)
    (filter_accessors hlisted Option.isNone hparts.accessors)) fun _ _ haccessors => ?_
  refine .bind (mirrored_inherentMethods (filter_methods hlisted Option.isNone hparts.methods))
    fun _ _ hmethods => ?_
  rw [hparts.raws]
  refine .same (target.blind_rawCodes b.raws) fun _ => ?_
  refine (mirrored_traitImpls hlisted hparts _ _ _ _ hlisted).map fun _ _ himpls => ?_
  simp [hlines, hconsts, hconstructor, haccessors, hmethods, himpls,
    deriveLine_eq has hparts.fields, structBlock_eq _ hparts.fields]

/-! ### Traits and enums -/

/-- The members of a trait without some of them. -/
theorem mirrored_traitMembers (owner : String) : ∀ {ss ts : List Stmt},
    Stmt.DropsAll fns ss ts →
    (∀ name ∈ ts.filterMap Stmt.memberName?, env.traits.AgreeOn traits [owner] name) →
    Mirrored (Code.Same fns) (traitMembers env place owner ss)
      (traitMembers (env.withTraits traits) place owner ts)
  | [], _ => by
    rintro rfl -
    exact .pure rfl
  | s :: ss, ts => by
    rintro (⟨hs, h⟩ | ⟨t, us, rfl, hs, h⟩) hagree
    · -- Without the first member: a marked one is skipped, a marked function writes nothing.
      have hrest : Mirrored _ (traitMembers env place owner ss) _ :=
        mirrored_traitMembers owner h hagree
      obtain hmarked | ⟨kind, f, rfl, hfns, hmarker, -, hmarked⟩ := memberMarked_of_droppable hs
      · refine .idle hmarked fun skipped hskipped => ?_
        rw [if_pos hskipped]
        exact hrest
      · refine .idle hmarked fun skipped hskipped => ?_
        rw [if_neg (by simp [hskipped])]
        subst hfns
        refine .idle (idle_function hmarker) fun _ hc => ?_
        exact hrest.mapLeft fun _ _ hd => by simp [hc, hd]
    · have hrest : Mirrored _ (traitMembers env place owner ss)
          (traitMembers (env.withTraits traits) place owner us) :=
        mirrored_traitMembers owner h fun name hname => hagree name
          (((List.sublist_cons_self t us).filterMap _).subset hname)
      refine .same (mirrored_memberMarked hs) fun skipped => ?_
      split
      · exact hrest
      · cases s with
        | functionDecl kind f =>
          obtain ⟨g, rfl, hf⟩ := hs
          have hname : env.traits.AgreeOn traits [owner] g.name :=
            hagree g.name (by simp [Stmt.memberName?])
          dsimp only
          rw [agreedReceiver_eq hf hname List.mem_cons_self]
          refine .bind (mirrored_function place _ (fun _ => .pure rfl) hf) fun _ _ hc => ?_
          exact hrest.map fun _ _ hd => by simp [hc, hd]
        | propertyDecl p =>
          obtain ⟨q, rfl, hp⟩ := hs
          obtain ⟨name, type, modifiers, as, accessors, o⟩ := p
          obtain ⟨as', accessors', o', rfl, -, haccessors, -⟩ := hp
          have hsetter : ∀ as : List Accessor, as.any TraitShape.isSetter =
              (as.map TraitShape.isSetter).any id := fun as => by
            rw [List.any_map]
            rfl
          dsimp only
          rw [hsetter, Accessor.DropsAll.map_eq (fun _ _ _ => rfl) haccessors, ← hsetter]
          have hnone : Expr.DropsOption fns none none := rfl
          refine .same (mirrored_typeOr name type hnone) fun _ => ?_
          exact hrest.map fun _ _ hd => by simp [hd]
        | importDecl | aliasDecl | breakLoop | continueLoop | raw =>
          obtain rfl := hs
          exact .same (.report _ _) fun _ => hrest
        | includeDecl | namespaceDecl | typeDecl | enumDecl | moduleDecl | fieldDecl | binding | ret
        | expr =>
          obtain ⟨_, rfl, _⟩ := hs
          exact .same (.report _ _) fun _ => hrest
        | whileLoop | forEach | matchOn | switchOn =>
          obtain ⟨_, _, rfl, _⟩ := hs
          exact .same (.report _ _) fun _ => hrest
        | ifThen =>
          obtain ⟨_, _, _, rfl, _⟩ := hs
          exact .same (.report _ _) fun _ => hrest
        | forLoop =>
          obtain ⟨_, _, _, _, rfl, _⟩ := hs
          exact .same (.report _ _) fun _ => hrest

/-- A trait is written alike. -/
theorem mirrored_traitCode {d d' : TypeDecl} (h : d.Drops fns d')
    (hagree : ∀ name ∈ d'.members.filterMap Stmt.memberName?,
      env.traits.AgreeOn traits [d'.name] name) :
    Mirrored (Code.Same fns) (traitCode env d) (traitCode (env.withTraits traits) d') := by
  obtain ⟨name, modifiers, as, generics, base, interfaces, ss⟩ := d
  obtain ⟨as', ts, rfl, has, hs⟩ := h
  refine target.mirrored_unlessMarked has.marker rfl ?_
  refine .bind (mirrored_attributeLines _ has) fun _ _ hlines => ?_
  refine .same (blind_mapTypes _) fun _ => .same (blind_genericParams generics) fun _ => ?_
  exact (mirrored_traitMembers name hs hagree).map fun _ _ hc => by simp [hlines, hc]

theorem mirrored_variantLines : ∀ {vs vs' : List EnumVariant}, EnumVariant.DropsAll fns vs vs' →
    Mirrored (Code.Same fns) (variantLines env vs) (variantLines (env.withTraits traits) vs')
  | [], _ => by
    rintro rfl
    exact .pure rfl
  | ⟨_, none⟩ :: _, _ => by
    rintro ⟨_, _, rfl, rfl, hs⟩
    exact (mirrored_variantLines hs).map fun _ _ hc => by simp [hc]
  | ⟨_, some _⟩ :: _, _ => by
    rintro ⟨_, _, rfl, ⟨_, rfl, he⟩, hs⟩
    refine .bind (mirrored_expr {} .value he) fun _ _ hf => ?_
    exact (mirrored_variantLines hs).map fun _ _ hc => by simp [hf, hc]

/-- An enumeration is written alike. -/
theorem mirrored_enumCode {d d' : EnumDecl} (h : d.Drops fns d') :
    Mirrored (Code.Same fns) (enumCode env d) (enumCode (env.withTraits traits) d') := by
  obtain ⟨name, modifiers, as, vs⟩ := d
  obtain ⟨as', vs', rfl, has, hvs⟩ := h
  refine target.mirrored_unlessMarked has.marker rfl ?_
  refine .bind (mirrored_attributeLines {} has) fun _ _ hlines => ?_
  rw [has.any_name]
  exact (mirrored_variantLines hvs).map fun _ _ hc => by simp [hlines, hc]

/-! ### Items -/

/-- Modules are thinned inside. -/
theorem thinAll_nestedMods (body : List Code) (parts : List String) :
    Code.thinAll fns (nestedMods body parts) = nestedMods (Code.thinAll fns body) parts := by
  induction parts with
  | nil => rfl
  | cons part parts ih => simp [nestedMods, ih]

/-- A dropped item leaves a separator at most. -/
theorem idle_item {s : Stmt} (h : s.droppable fns = true) :
    Idle (fun code => Code.thinAll fns code = []) (item env place host s) := by
  cases s with
  | functionDecl kind f =>
    obtain ⟨rfl, hmarker⟩ := Bool.and_eq_true_iff.mp h
    exact (idle_function hmarker).map fun code hcode => by simp [hcode]
  | fieldDecl f =>
    rw [item]
    split
    · exact target.idle_unlessMarked h (by simp)
    · exact .fail _
  | propertyDecl p => exact .fail _
  | _ => cases h

/-- In a namespace nothing but functions can be dropped. -/
theorem idle_item_space {s : Stmt} (h : s.droppable fns = true) :
    Idle (fun code => Code.thinAll fns (.separator :: code) = []) (item env place .space s) := by
  cases s with
  | functionDecl kind f =>
    obtain ⟨rfl, hmarker⟩ := Bool.and_eq_true_iff.mp h
    exact (idle_function hmarker).map fun code hcode => by simp [hcode]
  | fieldDecl f => exact .fail _
  | propertyDecl p => exact .fail _
  | _ => cases h

theorem mirrored_aliasLine (scope : Scope) (d : Alias) :
    Mirrored Eq (aliasLine env scope d) (aliasLine (env.withTraits traits) scope d) :=
  (blind_mapType d.target).mapEq _

mutual

/-- A kept item is written alike where the traits agree on what it asks, by induction on its syntax.
-/
theorem mirrored_item (place : Place) (host : Host) : ∀ {s t : Stmt}, s.Drops fns t →
    (∀ query ∈ t.traitQueries, env.traits.AgreeAbout traits query.1 query.2) →
    Mirrored (Code.Same fns) (item env place host s) (item (env.withTraits traits) place host t)
  | .namespaceDecl _ _ => by
    rintro ⟨_, rfl, hs⟩ hagree
    exact (mirrored_separatedItems hs hagree).map fun _ _ hc => by simp [thinAll_nestedMods, hc]
  | .typeDecl kind ⟨_, _, _, _, _, _, _⟩ => by
    rintro ⟨d', rfl, h⟩ hagree
    -- The names that the members ask about are among those of the declaration.
    have hmembers : ∀ name ∈ d'.members.filterMap Stmt.memberName?,
        env.traits.AgreeOn traits (d'.askedTraits kind) name := by
      intro name hname trait htrait
      refine hagree (trait, name) (List.mem_flatMap.mpr ⟨trait, htrait, ?_⟩)
      exact List.mem_map_of_mem hname
    cases kind with
    | interface => exact mirrored_traitCode h hmembers
    | cls | struct => exact mirrored_structCode h hmembers
  | .enumDecl _ => by
    rintro ⟨_, rfl, h⟩ -
    exact mirrored_enumCode h
  | .moduleDecl ⟨_, _, _, _⟩ => by
    rintro ⟨_, rfl, _, _, rfl, has, hs⟩ hagree
    refine target.mirrored_unlessMarked has.marker rfl ?_
    refine .bind (mirrored_attributeLines _ has) fun _ _ hlines => ?_
    exact (mirrored_items _ .module hs hagree).map fun _ _ hc => by simp [hlines, hc]
  | .functionDecl _ _ => by
    rintro ⟨_, rfl, h⟩ -
    rw [item, item, h.head.modifiers]
    exact (mirrored_function place _ (fun _ => .pure rfl) h).map fun _ _ hc => by simp [hc]
  | .fieldDecl f => by
    rintro ⟨g, rfl, h⟩ -
    rw [item, item]
    split
    · have hmarker : Marker.of? f.attributes = Marker.of? g.attributes := by
        obtain ⟨_, _, _, _, _⟩ := f
        obtain ⟨_, _, rfl, has, -⟩ := h
        exact has.marker
      exact target.mirrored_unlessMarked hmarker rfl (mirrored_constCode h)
    · exact .fail _
  | .propertyDecl _ => fun _ _ => .fail _
  | .importDecl _ => by
    rintro rfl -
    exact .pure rfl
  | .aliasDecl d => by
    rintro rfl -
    exact .same (mirrored_aliasLine place.toScope d) fun _ => .pure rfl
  | .includeDecl _ _ => by
    rintro ⟨_, rfl, hs⟩ hagree
    exact mirrored_items place host hs hagree
  | .raw block => by
    rintro rfl -
    exact (target.blind_rawCode block).mono fun _ _ h => by rw [h]
  | .breakLoop | .continueLoop => by
    rintro rfl -
    exact .same (.report _ _) fun _ => .pure rfl
  | .binding _ | .ret _ | .expr _ => by
    rintro ⟨_, rfl, _⟩ -
    exact .same (.report _ _) fun _ => .pure rfl
  | .whileLoop _ _ | .forEach _ _ _ _ | .matchOn _ _ | .switchOn _ _ => by
    rintro ⟨_, _, rfl, _⟩ -
    exact .same (.report _ _) fun _ => .pure rfl
  | .ifThen _ _ _ => by
    rintro ⟨_, _, _, rfl, _⟩ -
    exact .same (.report _ _) fun _ => .pure rfl
  | .forLoop _ _ _ _ => by
    rintro ⟨_, _, _, _, rfl, _⟩ -
    exact .same (.report _ _) fun _ => .pure rfl
termination_by structural s => s

/-- Items without some declarations. -/
theorem mirrored_items (place : Place) (host : Host) : ∀ {ss ts : List Stmt},
    Stmt.DropsAll fns ss ts →
    (∀ query ∈ Stmt.allTraitQueries ts, env.traits.AgreeAbout traits query.1 query.2) →
    Mirrored (Code.Same fns) (items env place host ss) (items (env.withTraits traits) place host ts)
  | [] => by
    rintro rfl -
    exact .pure rfl
  | _ :: _ => by
    rintro (⟨hs, h⟩ | ⟨_, _, rfl, hs, h⟩) hagree
    · refine .idle (idle_item hs) fun _ hc => ?_
      exact (mirrored_items place host h hagree).mapLeft fun _ _ hd => by simp [hc, hd]
    · obtain ⟨hagree, hagree'⟩ := List.forall_mem_append.mp hagree
      refine .bind (mirrored_item place host hs hagree) fun _ _ hc => ?_
      exact (mirrored_items place host h hagree').map fun _ _ hd => by simp [hc, hd]
termination_by structural ss => ss

/-- Items are written alike but for the separators around dropped ones. -/
theorem mirrored_separatedItems : ∀ {ss ts : List Stmt}, Stmt.DropsAll fns ss ts →
    (∀ query ∈ Stmt.allTraitQueries ts, env.traits.AgreeAbout traits query.1 query.2) →
    Mirrored (Code.Same fns) (separatedItems env ss) (separatedItems (env.withTraits traits) ts)
  | [] => by
    rintro rfl -
    exact .pure rfl
  | _ :: _ => by
    rintro (⟨hs, h⟩ | ⟨_, _, rfl, hs, h⟩) hagree
    · refine .idle (idle_item_space hs) fun code hc => ?_
      refine (mirrored_separatedItems h hagree).mapLeft fun rest _ hd => ?_
      rw [Code.Same, Code.thinAll_append, hc]
      exact hd
    · obtain ⟨hagree, hagree'⟩ := List.forall_mem_append.mp hagree
      refine .bind (mirrored_item {} .space hs hagree) fun _ _ hc => ?_
      exact (mirrored_separatedItems h hagree').map fun _ _ hd => by simp [hc, hd]
termination_by structural ss => ss

end

end Rust

end SourceGen
