import SourceGen.Proofs.Rust.EntryDefinition
import SourceGen.Proofs.Rust.ItemAlike
import SourceGen.Proofs.Rust.TraitShapes

/-!
# Signatures in traits and their implementations

The body of a trait, or of its implementation for a type, is a sequence of functions with blank
lines, attributes and comments in between. Which functions these are, and which receivers they have,
follows from the members of the interface or of the type alone.

## Main definitions

* `Rust.Signature`: what a function is written for, and its receiver.
* `Rust.Declares`: code that consists of functions with given signatures.
* `Rust.traitSignatures`, `Rust.implSignatures`: the signatures by the members of a type.
* `Rust.IsTrait`, `Rust.IsImpl`: a block is a trait or an implementation with given signatures.

## Main results

* `Rust.always_traitCode`: an interface is written as a trait with the signatures it declares.
* `Rust.always_structCode`: a class or struct has one implementation for each listed interface.
-/

namespace SourceGen

/-- The function is not left out where it is declared. -/
def Function.isWritten (f : Function) : Bool :=
  f.marker.isNone && !f.isQualified

namespace Rust

open Fragment (text)

/-! ### Heads -/

/-- What a function in a trait or in one of its implementations is written for. -/
inductive Origin where
  | method (f : Function)
  | getter (property : String)
  | setter (property : String)

namespace Origin

/-- The name that is written. -/
def name : Origin → String
  | method f => ident f.name
  | getter property => ident property
  | setter property => "set_" ++ property

/-- The names of the parameters that are written behind the receiver. -/
def params : Origin → List String
  | method f => f.params.map (ident ·.name)
  | getter _ => []
  | setter _ => ["value"]

end Origin

/-- What a function is written for, and how it takes its object. -/
structure Signature where
  origin : Origin
  receiver : Receiver

namespace Signature

/-- The text is the head of a function with this signature. -/
def IsHead (s : Signature) (head : String) : Prop :=
  ∃ (generics types : List String) (returns : String),
    types.length = s.origin.params.length ∧
      head = "fn " ++ s.origin.name ++ Text.angled generics ++ "(" ++
        Text.join ", " (s.receiver.params ++ s.origin.params.zipWith (· ++ ": " ++ ·) types) ++
          ")" ++ returns

/-- The head of a getter, by its receiver. -/
theorem isHead_getterBy {receiver : Receiver} {self : String} (h : receiver.params = [self])
    (property type : String) :
    IsHead ⟨.getter property, receiver⟩
      ("fn " ++ ident property ++ "(" ++ self ++ ") -> " ++ type) := by
  refine ⟨[], [], " -> " ++ type, rfl, ?_⟩
  have hparens : ") -> " = ")" ++ " -> " := by decide
  rw [h, hparens]
  simp only [String.append_assoc]
  rfl

/-- The getter of a property is its name, with a shared receiver. -/
theorem isHead_getter (property type : String) :
    IsHead ⟨.getter property, .shared⟩ ("fn " ++ ident property ++ "(&self) -> " ++ type) := by
  have hparens : "(&self) -> " = "(" ++ ("&self" ++ ") -> ") := by decide
  simpa only [hparens, String.append_assoc] using isHead_getterBy rfl property type

/-- The setter of a property is its name behind `set_`, with an exclusive receiver. -/
theorem isHead_setter (property type : String) :
    IsHead ⟨.setter property, .exclusive⟩
      ("fn set_" ++ property ++ "(&mut self, value: " ++ type ++ ")") := by
  refine ⟨[], [type], "", rfl, ?_⟩
  have hname : "fn set_" = "fn " ++ "set_" := by decide
  have hparams : "(&mut self, value: " = "(" ++ ("&mut self" ++ (", " ++ ("value" ++ ": "))) := by
    decide
  rw [hname, hparams]
  simp only [String.append_assoc]
  rfl

end Signature

/-! ### Bodies -/

/-- The item declares nothing: it is a blank line, an attribute or a comment. -/
def isDecoration : Code → Bool
  | .separator | .blank => true
  | .line (.text s :: _) => Text.startsWith s "#[" || Text.startsWith s "// "
  | _ => false

/-- The code consists of functions with the given signatures, declared or defined, and of nothing
else that declares anything. -/
inductive Declares : List Signature → List Code → Prop
  | nil : Declares [] []
  | decoration {c : Code} {sigs : List Signature} {cs : List Code} :
      isDecoration c = true → Declares sigs cs → Declares sigs (c :: cs)
  | declared {s : Signature} {head : String} {sigs : List Signature} {cs : List Code} :
      s.IsHead head → Declares sigs cs → Declares (s :: sigs) (.text (head ++ ";") :: cs)
  | defined {s : Signature} {head : String} {body : List Code} {sigs : List Signature}
      {cs : List Code} :
      s.IsHead head → Declares sigs cs →
        Declares (s :: sigs) (.block .function (text head) body "" :: cs)

namespace Declares

variable {sigs sigs' : List Signature} {cs ds : List Code}

/-- Declarations in two parts are declarations in order. -/
theorem append (h : Declares sigs cs) (h' : Declares sigs' ds) :
    Declares (sigs ++ sigs') (cs ++ ds) := by
  induction h with
  | nil => exact h'
  | decoration hc _ ih => exact .decoration hc ih
  | declared hhead _ ih => exact .declared hhead ih
  | defined hhead _ ih => exact .defined hhead ih

theorem separator (h : Declares sigs cs) : Declares sigs (.separator :: cs) :=
  .decoration rfl h

/-- Decorations declare nothing. -/
theorem of_decorations (h : ∀ c ∈ cs, isDecoration c = true) : Declares [] cs := by
  induction cs with
  | nil => exact .nil
  | cons c cs ih =>
    exact .decoration (h c List.mem_cons_self) (ih fun d hd => h d (List.mem_cons_of_mem c hd))

end Declares

variable {env : Env} {place : Place}

/-! ### Functions -/

theorem isDecoration_attributeLines (attributes : List Attribute) :
    (attributeLines env place attributes).Always fun cs => ∀ c ∈ cs, isDecoration c = true := by
  induction attributes with
  | nil =>
    rw [attributeLines]
    exact .pure nofun
  | cons a attributes ih =>
    obtain ⟨name, args⟩ := a
    rw [attributeLines]
    split
    · exact ih
    · refine .after fun rendered => ?_
      extract_lets shown
      split
      · exact .bind ih fun cs hcs => .pure (List.forall_mem_cons.mpr ⟨by
          simp [isDecoration, text, Text.startsWith], hcs⟩)
      · refine .after fun _ => .bind ih fun cs hcs => .pure (List.forall_mem_cons.mpr ⟨by
          simp [isDecoration, Code.comment, text, Text.startsWith], hcs⟩)

theorem always_parameters (scope : Scope) (params : List Parameter) :
    (parameters env scope params).Always fun shown => ∃ types : List String,
      types.length = params.length ∧
        shown = (params.map (ident ·.name)).zipWith (· ++ ": " ++ ·) types := by
  induction params with
  | nil => exact .pure ⟨[], rfl, rfl⟩
  | cons p params ih =>
    rw [parameters]
    refine .after fun type => ?_
    have hrest : ∀ shown, (∃ types : List String, types.length = params.length ∧
        shown = (params.map (ident ·.name)).zipWith (· ++ ": " ++ ·) types) →
        ∃ types : List String, types.length = (p :: params).length ∧
          (ident p.name ++ ": " ++ type) :: shown =
            ((p :: params).map (ident ·.name)).zipWith (· ++ ": " ++ ·) types := by
      rintro shown ⟨types, hlength, rfl⟩
      exact ⟨type :: types, by simp [hlength], rfl⟩
    split
    · exact .after fun _ => .bind ih fun shown hshown => .pure (hrest shown hshown)
    · exact .bind ih fun shown hshown => .pure (hrest shown hshown)

theorem always_genericParams (scope : Scope) (generics : List GenericParam) :
    (genericParams env scope generics).Always fun bounds => ∃ shown, bounds = Text.angled shown :=
  .after fun shown => .pure ⟨shown, rfl⟩

/-- The item is a function behind its visibility: a definition, or a declaration if that is
enough. -/
def IsFunctionItem (s : Signature) (options : FunctionOptions) (c : Code) : Prop :=
  ∃ head : String, s.IsHead head ∧
    ((∃ body, c = .block .function (text (options.visibility ++ head)) body "") ∨
      options.requireBody = false ∧ c = .text (options.visibility ++ head ++ ";"))

/-- A function is written with its head in front, with or without a body. -/
theorem always_functionBody {s : Signature} {head shown : String} {options : FunctionOptions}
    (hhead : s.IsHead head) (hshown : shown = options.visibility ++ head)
    (prologue : Place → Gen (List Code)) (body : Option (List Stmt)) :
    (functionBody env place options.requireBody prologue shown body).Always
      fun cs => ∃ c, cs = [c] ∧ IsFunctionItem s options c := by
  subst hshown
  cases body with
  | none =>
    rw [functionBody]
    split
    · exact .pure ⟨_, rfl, head, hhead, .inl ⟨_, rfl⟩⟩
    · rename_i hbody
      exact .pure ⟨_, rfl, head, hhead, .inr ⟨by simpa using hbody, rfl⟩⟩
  | some body =>
    rw [functionBody]
    exact .after fun _ => .after fun _ => .pure ⟨_, rfl, head, hhead, .inl ⟨_, rfl⟩⟩

/-- The code is a function behind its attributes. -/
def IsFunctionCode (s : Signature) (options : FunctionOptions) (cs : List Code) : Prop :=
  ∃ lines c, cs = lines ++ [c] ∧ (∀ l ∈ lines, isDecoration l = true) ∧ IsFunctionItem s options c

/-- A function is one item behind its attributes, unless it is left out. -/
theorem always_function {options : FunctionOptions} (hname : options.name = none)
    (prologue : Place → Gen (List Code)) (f : Function) :
    (function env place options prologue f).Always fun cs =>
      if f.isWritten then IsFunctionCode ⟨.method f, options.receiver⟩ options cs
      else cs = [] := by
  -- The signature gets a name of its own, since the fields of the function are taken apart below.
  obtain ⟨signature, hsignature⟩ : ∃ s : Signature, s = ⟨.method f, options.receiver⟩ := ⟨_, rfl⟩
  rw [← hsignature]
  obtain ⟨name, params, returnType, generics, modifiers, attributes, body, isConstructor,
    isStatic⟩ := f
  rw [function]
  refine .bind (target.always_skipMarked _ _ _) fun skipped hskipped => ?_
  have hmarked : skipped = (Marker.of? attributes).isSome := hskipped
  cases skipped with
  | true =>
    rw [if_pos rfl]
    refine .pure ?_
    rw [if_neg]
    simp [Function.isWritten, Function.marker, Option.isSome_iff_ne_none.mp hmarked.symm]
  | false =>
    rw [if_neg Bool.false_ne_true]
    have hnone : Marker.of? attributes = none := by simpa using hmarked.symm
    split
    · rename_i hdot
      refine .after fun _ => .pure ?_
      rw [if_neg]
      simp [Function.isWritten, Function.isQualified, hdot]
    · rename_i hdot
      have hwritten : (⟨name, params, returnType, generics, modifiers, attributes, body,
          isConstructor, isStatic⟩ : Function).isWritten = true := by
        simp [Function.isWritten, Function.isQualified, Function.marker, hnone, hdot]
      refine .mono (P := IsFunctionCode signature options) ?_ fun cs hcs => by rwa [if_pos hwritten]
      refine .bind (isDecoration_attributeLines _) fun lines hlines => ?_
      refine .bind (always_parameters _ _) fun shown hshown => ?_
      obtain ⟨types, hlength, rfl⟩ := hshown
      extract_lets +lift shown finish
      -- Whatever the return type is, what follows is the same.
      have hfinish : ∀ returns, (finish returns).Always (IsFunctionCode signature options) := by
        intro returns
        refine .bind (always_genericParams _ _) fun bounds hbounds => ?_
        obtain ⟨names, rfl⟩ := hbounds
        have hlengths : types.length = signature.origin.params.length := by
          rw [hsignature]
          simpa [Origin.params] using hlength
        rw [hname]
        refine .bind
          (always_functionBody ⟨names, types, returnClause returns, hlengths, rfl⟩ ?_ _ _)
          fun cs hcs => ?_
        · rw [hsignature]
          simp only [shown, String.append_assoc]
          rfl
        · obtain ⟨c, rfl, hc⟩ := hcs
          exact .pure ⟨lines, c, rfl, hlines, hc⟩
      split
      · exact hfinish _
      · exact .after hfinish

/-- The signatures that a function brings: one, unless it is left out. -/
def functionSignatures (receiver : Receiver) (f : Function) : List Signature :=
  if f.isWritten then [⟨.method f, receiver⟩] else []

/-- A function without a visibility of its own declares its signature. -/
theorem declares_function {options : FunctionOptions} (hvisibility : options.visibility = "")
    (hname : options.name = none) (prologue : Place → Gen (List Code)) (f : Function) :
    (function env place options prologue f).Always
      (Declares (functionSignatures options.receiver f)) := by
  refine (always_function hname prologue f).mono fun cs hcs => ?_
  rw [functionSignatures]
  split at hcs
  · rename_i hwritten
    obtain ⟨lines, c, rfl, hlines, head, hhead, ⟨body, rfl⟩ | ⟨-, rfl⟩⟩ := hcs
    · rw [hvisibility, String.empty_append, if_pos hwritten]
      exact (Declares.of_decorations hlines).append (.defined hhead .nil)
    · rw [hvisibility, String.empty_append, if_pos hwritten]
      exact (Declares.of_decorations hlines).append (.declared hhead .nil)
  · rename_i hwritten
    rw [if_neg hwritten, hcs]
    exact .nil

/-! ### Traits -/

/-- The signatures of the getter and perhaps the setter of a property. -/
def propertySignatures (setter : Bool) (name : String) : List Signature :=
  ⟨.getter name, .shared⟩ :: if setter then [⟨.setter name, .exclusive⟩] else []

/-- The signatures that a member of an interface brings to its trait. -/
def memberSignatures (receiver : Function → Receiver) : Stmt → List Signature
  | .functionDecl _ f => functionSignatures (receiver f) f
  | .propertyDecl p =>
    if p.marker.isSome then []
    else propertySignatures (p.accessors.any TraitShape.isSetter) p.name
  | _ => []

/-- The signatures of a trait. -/
def traitSignatures (receiver : Function → Receiver) (members : List Stmt) : List Signature :=
  members.flatMap (memberSignatures receiver)

/-- A marked function has no signature. -/
theorem functionSignatures_of_marker {f : Function} (h : (Marker.of? f.attributes).isSome = true)
    (receiver : Receiver) : functionSignatures receiver f = [] := by
  rw [functionSignatures, if_neg]
  simp [Function.isWritten, Function.marker, Option.isSome_iff_ne_none.mp h]

/-- A trait declares the signatures of its members, in order. -/
theorem declares_traitMembers (owner : String) (members : List Stmt) :
    (traitMembers env place owner members).Always
      (Declares (traitSignatures (agreedReceiver env owner) members)) := by
  induction members with
  | nil => exact .pure .nil
  | cons s ss ih =>
    unfold traitMembers traitSignatures
    rw [List.flatMap_cons]
    refine .bind (always_memberMarked s) fun skipped hskipped => ?_
    cases skipped with
    | true =>
      rw [if_pos rfl]
      have hnone : memberSignatures (agreedReceiver env owner) s = [] := by
        cases s with
        | functionDecl kind f =>
          rw [memberSkipped, eq_comm, Bool.and_eq_true] at hskipped
          exact functionSignatures_of_marker hskipped.2 _
        | propertyDecl p =>
          have hmarked : p.marker.isSome = true := hskipped.symm
          rw [memberSignatures, if_pos hmarked]
        | _ => rfl
      rw [hnone]
      exact ih
    | false =>
      rw [if_neg Bool.false_ne_true]
      cases s with
      | functionDecl kind f =>
        exact .bind (declares_function rfl rfl _ f) fun cs hcs => .bind ih fun ds hds =>
          .pure (hcs.append hds).separator
      | propertyDecl p =>
        have hunmarked : p.marker.isSome = false := hskipped.symm
        rw [memberSignatures, hunmarked, if_neg Bool.false_ne_true]
        refine .after fun type => ?_
        extract_lets getter setter
        refine .bind ih fun ds hds => .pure ?_
        refine .declared (Signature.isHead_getter p.name type) (.append ?_ hds)
        dsimp only [setter]
        split
        · have hend : ");" = ")" ++ ";" := by decide
          rw [hend, ← String.append_assoc]
          exact .declared (Signature.isHead_setter p.name type) .nil
        · exact .nil
      | _ => exact .after fun _ => ih

/-! ### Implementations -/

/-- The signatures that the accessors of a property bring: one for each with a body. -/
def accessorSignatures (name : String) (accessors : List Accessor) : List Signature :=
  (accessors.filter (·.body.isSome)).map fun a =>
    if TraitShape.isSetter a then ⟨.setter name, .exclusive⟩ else ⟨.getter name, .shared⟩

/-- Accessors with a body declare their signatures, in order. -/
theorem declares_accessorBodies (name type : String) (accessors : List Accessor) :
    (accessorBodies env place true "" name type accessors).Always
      (Declares (accessorSignatures name accessors)) := by
  induction accessors with
  | nil => exact .pure .nil
  | cons a accessors ih =>
    rw [accessorBodies, accessorSignatures, List.filter_cons]
    cases ha : a.body with
    | none =>
      rw [if_neg (by simp)]
      exact ih
    | some body =>
      rw [if_pos (by simp), List.map_cons]
      dsimp only
      refine .after fun code => .bind ih fun ds hds => .pure (.separator (.defined ?_ hds))
      split
      · rw [String.empty_append]
        exact Signature.isHead_setter name type
      · have hparens : "(&self) -> " = "(" ++ ("&self" ++ ") -> ") := by decide
        simpa [hparens, String.append_assoc] using Signature.isHead_getter name type

theorem declares_accessorCodes (ps : List Property) :
    (accessorCodes env place true ps).Always
      (Declares (ps.flatMap fun p => accessorSignatures p.name p.accessors)) := by
  induction ps with
  | nil => exact .pure .nil
  | cons p ps ih =>
    rw [List.flatMap_cons]
    have hp : (accessorCode env place true p).Always
        (Declares (accessorSignatures p.name p.accessors)) :=
      .after fun type => declares_accessorBodies p.name type p.accessors
    exact .bind hp fun cs hcs => .bind ih fun ds hds => .pure (hcs.append hds)

/-- The methods of an impl declare their signatures, in order. -/
theorem declares_traitMethods (trait : String) (fs : List Function) :
    (traitMethods env place trait fs).Always
      (Declares (fs.flatMap fun f => functionSignatures (agreedReceiver env trait f) f)) := by
  induction fs with
  | nil => exact .pure .nil
  | cons f fs ih =>
    rw [List.flatMap_cons]
    exact .bind (declares_function rfl rfl _ f) fun cs hcs => .bind ih fun ds hds =>
      .pure (hcs.append hds).separator

/-- A field seen through a trait declares the signatures of its property. -/
theorem declares_backedAccessors (f : FieldSpec) (setter : Bool) :
    Declares (propertySignatures setter f.name) (backedAccessors f setter) := by
  refine .separator (.defined (Signature.isHead_getter f.name f.type) ?_)
  cases setter with
  | true => exact .decoration rfl (.defined (Signature.isHead_setter f.name f.type) .nil)
  | false => exact .nil

theorem Declares.flatMap {α : Type} {sigs : α → List Signature} {code : α → List Code}
    (h : ∀ x, Declares (sigs x) (code x)) (xs : List α) :
    Declares (xs.flatMap sigs) (xs.flatMap code) := by
  induction xs with
  | nil => exact .nil
  | cons x xs ih =>
    rw [List.flatMap_cons, List.flatMap_cons]
    exact (h x).append ih

/-! ### Members by what becomes of them -/

/-- The planned methods are the kept functions, in order. -/
theorem methods_plannedParts (hasConstructor : Bool) (members : List Stmt) :
    (plannedParts hasConstructor members).methods =
      (Stmt.functionsOf members).filter fun f => !f.isConstructor := by
  induction members generalizing hasConstructor with
  | nil => rfl
  | cons s ss ih =>
    unfold plannedParts
    cases s with
    | functionDecl kind f =>
      have hcons : Stmt.functionsOf (.functionDecl kind f :: ss) = f :: Stmt.functionsOf ss := rfl
      rw [hcons, memberSkipped]
      cases hf : f.isConstructor with
      | true =>
        rw [List.filter_cons_of_neg (by simp [hf])]
        dsimp only
        repeat' split
        all_goals exact ih _
      | false => simp [hf, ih]
    | _ =>
      dsimp only
      repeat' split
      all_goals exact ih _

/-- The property is written, and it has an accessor with a body or not. -/
def keepsProperty (auto : Bool) (p : Property) : Bool :=
  p.marker.isNone && p.isAuto == auto

theorem accessors_plannedParts (hasConstructor : Bool) (members : List Stmt) :
    (plannedParts hasConstructor members).accessors =
      (Stmt.propertiesOf members).filter (keepsProperty false) := by
  induction members generalizing hasConstructor with
  | nil => rfl
  | cons s ss ih =>
    unfold plannedParts
    cases s with
    | propertyDecl p =>
      have hcons : Stmt.propertiesOf (.propertyDecl p :: ss) = p :: Stmt.propertiesOf ss := rfl
      rw [hcons, List.filter_cons, memberSkipped]
      cases hp : p.isAuto <;> cases hmarker : Marker.of? p.attributes <;>
        simp [keepsProperty, Property.marker, hp, hmarker, ih]
    | _ =>
      dsimp only
      repeat' split
      all_goals exact ih _

/-- The names of the fields that stand for properties without accessor bodies. -/
theorem backed_plannedParts (hasConstructor : Bool) (members : List Stmt) :
    ((plannedParts hasConstructor members).fields.filter (·.isProperty)).map (·.name) =
      ((Stmt.propertiesOf members).filter (keepsProperty true)).map (·.name) := by
  induction members generalizing hasConstructor with
  | nil => rfl
  | cons s ss ih =>
    unfold plannedParts
    cases s with
    | propertyDecl p =>
      have hcons : Stmt.propertiesOf (.propertyDecl p :: ss) = p :: Stmt.propertiesOf ss := rfl
      rw [hcons, List.filter_cons, memberSkipped]
      cases hp : p.isAuto <;> cases hmarker : Marker.of? p.attributes <;>
        simp [keepsProperty, Property.marker, hp, hmarker, ih]
    | _ =>
      dsimp only
      repeat' split
      all_goals exact ih _

/-- The properties of a type that are written for the listed interface at place `index`. -/
def sharedProperties (env : Env) (traits : List TypeRef) (index : Nat) (auto : Bool)
    (members : List Stmt) : List Property :=
  (Stmt.propertiesOf members).filter fun p =>
    keepsProperty auto p && propertyOwner? env traits p.name == some index

/-- The methods of a type that are written for the listed interface at place `index`. -/
def sharedMethods (env : Env) (traits : List TypeRef) (index : Nat) (members : List Stmt) :
    List Function :=
  (Stmt.functionsOf members).filter fun f =>
    !f.isConstructor && methodOwner? env traits f == some index

/-- The signatures of the implementation of the listed interface at place `index`. -/
def implSignatures (env : Env) (traits : List TypeRef) (index : Nat) (trait : String)
    (members : List Stmt) : List Signature :=
  ((sharedProperties env traits index true members).map (·.name)).flatMap
      (fun name => propertySignatures ((env.traits.lookup trait).any (·.hasSetter name)) name) ++
    (sharedProperties env traits index false members).flatMap
      (fun p => accessorSignatures p.name p.accessors) ++
    (sharedMethods env traits index members).flatMap
      (fun f => functionSignatures (agreedReceiver env trait f) f)

/-- The block is the implementation of an interface for a type, with these signatures. -/
def IsImpl (env : Env) (d : TypeDecl) (trait : TypeRef) (sigs : List Signature) (c : Code) :
    Prop :=
  ∃ (bounds spelling : String) (body : List Code) (i k : Journal),
    c = .block .plain (text ("impl" ++ bounds ++ " " ++ spelling ++ " for " ++ ident d.name ++
      genericArgs d.generics)) body "" ∧
      (mapType env.known (Place.ofType d.name d.generics).toScope trait).Yields i spelling k ∧
        Declares sigs body

variable {traits : List TypeRef} {parts : StructParts} {d : TypeDecl} {bounds : String}

/-- The fields that stand for properties keep the names of these. -/
theorem backed_of_untyped (hparts : parts.untyped = plannedParts false d.members)
    (keep : String → Bool) :
    (parts.fields.filter fun f => f.isProperty && keep f.name).map (·.name) =
      ((Stmt.propertiesOf d.members).filter fun p =>
        keepsProperty true p && keep p.name).map (·.name) := by
  have hnames : (parts.fields.filter (·.isProperty)).map (·.name) =
      ((Stmt.propertiesOf d.members).filter (keepsProperty true)).map (·.name) := by
    rw [← backed_plannedParts false, ← hparts, StructParts.untyped, List.filter_map, List.map_map]
    rfl
  have hkeep := congrArg (List.filter keep) hnames
  rw [List.filter_map, List.filter_map, List.filter_filter, List.filter_filter] at hkeep
  simpa only [Function.comp_def, Bool.and_comm] using hkeep

theorem always_traitImpl (hparts : parts.untyped = plannedParts false d.members) (index : Nat)
    (trait : TypeRef) :
    (traitImpl env (Place.ofType d.name d.generics) d.name bounds (genericArgs d.generics) traits
      parts index trait).Always fun cs => ∃ c, cs = [.blank, c] ∧
        IsImpl env d trait (implSignatures env traits index trait.name d.members) c := by
  intro i cs k h
  obtain ⟨spelling, i₁, hspelling, h⟩ := Gen.yields_bind.mp h
  extract_lets backed getters at h
  obtain ⟨accessors, i₂, haccessors, h⟩ := Gen.yields_bind.mp h
  obtain ⟨methods, i₃, hmethods, h⟩ := Gen.yields_bind.mp h
  obtain ⟨rfl, rfl⟩ := Gen.yields_pure.mp h
  refine ⟨_, rfl, bounds, spelling, _, i, i₁, rfl, hspelling, .append (.append ?_ ?_) ?_⟩
  · -- The fields that the trait asks for as properties.
    have hbacked := Declares.flatMap (fun f =>
      declares_backedAccessors f ((env.traits.lookup trait.name).any (·.hasSetter f.name))) backed
    have hnames := backed_of_untyped hparts fun name =>
      propertyOwner? env traits name == some index
    rw [sharedProperties, ← hnames, List.flatMap_map]
    exact hbacked
  · -- The accessors that have a body.
    have hkept : parts.accessors = (Stmt.propertiesOf d.members).filter (keepsProperty false) := by
      rw [← accessors_plannedParts false, ← hparts, StructParts.untyped]
    have hshared :
        parts.accessors.filter (fun p => propertyOwner? env traits p.name == some index) =
        sharedProperties env traits index false d.members := by
      rw [hkept, List.filter_filter, sharedProperties]
      simp only [Bool.and_comm]
    rw [← hshared]
    exact declares_accessorCodes _ haccessors
  · -- The methods, without the constructors.
    have hkept : parts.methods = (Stmt.functionsOf d.members).filter fun f => !f.isConstructor := by
      rw [← methods_plannedParts false, ← hparts, StructParts.untyped]
    have hshared : parts.methods.filter (fun f => methodOwner? env traits f == some index) =
        sharedMethods env traits index d.members := by
      rw [hkept, List.filter_filter, sharedMethods]
      simp only [Bool.and_comm]
    rw [← hshared]
    exact declares_traitMethods _ _ hmethods

theorem always_traitImpls (hparts : parts.untyped = plannedParts false d.members) (first : Nat)
    (ts : List TypeRef) :
    (traitImpls env (Place.ofType d.name d.generics) d.name bounds (genericArgs d.generics) traits
      parts first ts).Always fun cs => ∀ (index : Nat) (trait : TypeRef), ts[index]? = some trait →
        ∃ c ∈ cs, IsImpl env d trait
          (implSignatures env traits (first + index) trait.name d.members) c := by
  induction ts generalizing first with
  | nil => exact .pure nofun
  | cons t ts ih =>
    refine .bind (always_traitImpl hparts first t) fun cs hcs => ?_
    refine .bind (ih (first + 1)) fun ds hds => .pure ?_
    rintro (_ | index) trait htrait
    · obtain rfl : t = trait := by simpa using htrait
      obtain ⟨c, rfl, hc⟩ := hcs
      exact ⟨c, by simp, hc⟩
    · obtain ⟨c, hmem, hc⟩ := hds index trait (by simpa using htrait)
      refine ⟨c, by simp [hmem], ?_⟩
      rwa [Nat.add_right_comm] at hc

/-- The interfaces that a type implements: those that it lists, its base ahead of the others. -/
def implemented (env : Env) (d : TypeDecl) : List TypeRef :=
  (d.base.toList ++ d.interfaces).filter (env.known.isInterface ·.name)

/-- A class or struct is written with an implementation for each interface that it lists, unless it
is left out. -/
theorem always_structCode (d : TypeDecl) (hunmarked : (Marker.of? d.attributes).isSome = false) :
    (structCode env d).Always fun cs => ∀ (index : Nat) (trait : TypeRef),
      (implemented env d)[index]? = some trait → ∃ c ∈ cs,
        IsImpl env d trait
          (implSignatures env (implemented env d) index trait.name d.members) c := by
  unfold structCode
  refine .bind (target.always_skipMarked _ _ _) fun skipped hskipped => ?_
  rw [hskipped, hunmarked, if_neg Bool.false_ne_true]
  extract_lets place args
  refine .bind (always_structParts _ _) fun parts hparts => ?_
  refine .bind (always_baseTraits _ _) fun base hbase => ?_
  refine .bind (always_listedTraits _ _) fun listed hlisted => ?_
  have htraits : base.1 ++ listed.1 = implemented env d := by
    rw [hbase, hlisted, implemented, List.filter_append]
  dsimp only
  rw [htraits]
  refine .after fun lines => .after fun bounds => .after fun consts => .after fun constructor => ?_
  refine .after fun accessors => .after fun methods => .after fun raws => ?_
  refine .bind (always_traitImpls hparts 0 _) fun impls himpls => .pure ?_
  intro index trait htrait
  obtain ⟨c, hmem, hc⟩ := himpls index trait htrait
  refine ⟨c, by simp [hmem], ?_⟩
  rwa [Nat.zero_add] at hc

/-- The block is the trait of an interface, with these signatures. -/
def IsTrait (d : TypeDecl) (sigs : List Signature) (c : Code) : Prop :=
  ∃ (words bounds supertraits : String) (body : List Code),
    c = .block .plain (text (words ++ "trait " ++ ident d.name ++ bounds ++ supertraits)) body "" ∧
      Declares sigs body

/-- An interface is written as a trait, unless it is left out. -/
theorem always_traitCode (d : TypeDecl) (hunmarked : (Marker.of? d.attributes).isSome = false) :
    (traitCode env d).Always fun cs => ∃ c ∈ cs,
      IsTrait d (traitSignatures (agreedReceiver env d.name) d.members) c := by
  unfold traitCode
  refine .bind (target.always_skipMarked _ _ _) fun skipped hskipped => ?_
  rw [hskipped, hunmarked, if_neg Bool.false_ne_true]
  extract_lets outer place
  refine .after fun lines => .after fun supertraits => .after fun bounds => ?_
  extract_lets head
  refine .bind (declares_traitMembers _ _) fun members hmembers => .pure ?_
  exact ⟨.block .plain (text head) members "", by simp, visibility d.modifiers true, bounds, _,
    members, rfl, hmembers⟩

end Rust

end SourceGen
