import Mathlib.Logic.Basic
import SourceGen.Analysis.Arms
import SourceGen.Analysis.Flow
import SourceGen.Analysis.Range
import SourceGen.Analysis.Receiver
import SourceGen.Compose.NestedType
import SourceGen.Tree.Kind
import SourceGen.TypeRef.Known
import SourceGen.Vocabulary.Marker

/-!
# Trees without some marked declarations

A marked function, field or property may be dropped wherever it stands: from a unit, a namespace, a
module, a type or a body, also from bodies inside expressions. What is left has the same types, and
its blocks return values, continue loops and change things through `this` as before. Some blocks are
read by how they end, by being a lone `if` or by being empty; from these only what does not matter
is dropped.

## Main definitions

* `Stmt.droppable`: the declarations that may be dropped.
* `Stmt.Drops`, `Stmt.DropsAll`: the second tree is the first one without some of them.

## Main results

* `Stmt.dropsAll_append`: any one declaration may be dropped from a list.
* `Stmt.DropsAll.flow`: what is read off a block stays the same.
* `Stmt.DropsAll.types`: the declared types stay the same.
-/

namespace SourceGen

/-- The statement is a marked field or property, or a marked function if `fns` holds. -/
def Stmt.droppable (fns : Bool) : Stmt → Bool
  | .functionDecl _ f => fns && f.marker.isSome
  | .fieldDecl f => f.marker.isSome
  | .propertyDecl p => p.marker.isSome
  | _ => false

namespace Stmt

/-- How a block ends that gives a value. -/
inductive Ending where
  | value | ret | other
  deriving DecidableEq, Repr

/-- The ending of a block, by its last statement. -/
def ending (block : List Stmt) : Ending :=
  match block.getLast? with
  | some (.expr _) => .value
  | some (.ret _) => .ret
  | _ => .other

/-- Both blocks end with a `return`, or with any jump, or none of them does. -/
def SameJump (block block' : List Stmt) : Prop :=
  endsWithReturn block = endsWithReturn block' ∧ endsWithJump block = endsWithJump block'

/-- The block is one `if`, which may continue a chain of branches. -/
def isLoneIf : List Stmt → Bool
  | [.ifThen _ _ _] => true
  | _ => false

end Stmt

/-! ### The relation -/

mutual

/-- The second statement is the first one without some declarations inside it. -/
def Stmt.Drops (fns : Bool) : Stmt → Stmt → Prop
  | .includeDecl path ss => fun t => ∃ ts, t = .includeDecl path ts ∧ Stmt.DropsAll fns ss ts
  | .namespaceDecl name ss => fun t => ∃ ts, t = .namespaceDecl name ts ∧ Stmt.DropsAll fns ss ts
  | .typeDecl kind d => fun t => ∃ d', t = .typeDecl kind d' ∧ d.Drops fns d'
  | .enumDecl d => fun t => ∃ d', t = .enumDecl d' ∧ d.Drops fns d'
  | .moduleDecl d => fun t => ∃ d', t = .moduleDecl d' ∧ d.Drops fns d'
  | .functionDecl kind f => fun t => ∃ f', t = .functionDecl kind f' ∧ f.Drops fns f'
  | .fieldDecl f => fun t => ∃ f', t = .fieldDecl f' ∧ f.Drops fns f'
  | .propertyDecl p => fun t => ∃ p', t = .propertyDecl p' ∧ p.Drops fns p'
  | .binding b => fun t => ∃ b', t = .binding b' ∧ b.Drops fns b'
  | .ifThen e ss o => fun t => ∃ e' ts o', t = .ifThen e' ts o' ∧ e.Drops fns e' ∧
    Stmt.DropsAll fns ss ts ∧ Stmt.DropsElse fns o o'
  | .whileLoop e ss => fun t => ∃ e' ts, t = .whileLoop e' ts ∧ e.Drops fns e' ∧
    Stmt.DropsAll fns ss ts
  | .forLoop start e step ss => fun t => ∃ start' e' step' ts, t = .forLoop start' e' step' ts ∧
    Stmt.DropsStart fns start start' ∧ Expr.DropsOption fns e e' ∧
    Expr.DropsOption fns step step' ∧ Stmt.DropsAll fns ss ts
  | .forEach name type e ss => fun t => ∃ e' ts, t = .forEach name type e' ts ∧
    e.Drops fns e' ∧ Stmt.DropsAll fns ss ts
  | .ret o => fun t => ∃ o', t = .ret o' ∧ Expr.DropsOption fns o o'
  | .matchOn e arms => fun t => ∃ e' arms', t = .matchOn e' arms' ∧ e.Drops fns e' ∧
    MatchArm.DropsAll fns arms arms'
  | .switchOn e cases => fun t => ∃ e' cases', t = .switchOn e' cases' ∧ e.Drops fns e' ∧
    SwitchCase.DropsAll fns cases cases'
  | .expr e => fun t => ∃ e', t = .expr e' ∧ e.Drops fns e'
  | s => fun t => t = s

/-- The second list is the first one without some declarations, from it or inside it. -/
def Stmt.DropsAll (fns : Bool) : List Stmt → List Stmt → Prop
  | [] => fun ts => ts = []
  | s :: ss => fun ts => s.droppable fns = true ∧ Stmt.DropsAll fns ss ts ∨
    ∃ t us, ts = t :: us ∧ s.Drops fns t ∧ Stmt.DropsAll fns ss us

/-- A lone `if` behind an `else` stays one, and nothing else becomes one. -/
def Stmt.DropsElse (fns : Bool) : Option (List Stmt) → Option (List Stmt) → Prop
  | none => fun o => o = none
  | some ss => fun o => ∃ ts, o = some ts ∧ Stmt.isLoneIf ss = Stmt.isLoneIf ts ∧
    Stmt.DropsAll fns ss ts

/-- The statement that starts a counted loop is kept, without some declarations inside it. -/
def Stmt.DropsStart (fns : Bool) : Option Stmt → Option Stmt → Prop
  | none => fun o => o = none
  | some s => fun o => ∃ t, o = some t ∧ s.Drops fns t

/-- A body is kept, without some declarations from it or inside it; a missing body stays missing. -/
def Stmt.DropsBody (fns : Bool) : Option (List Stmt) → Option (List Stmt) → Prop
  | none => fun o => o = none
  | some ss => fun o => ∃ ts, o = some ts ∧ Stmt.DropsAll fns ss ts

/-- The second expression is the first one without some declarations in the blocks inside it. -/
def Expr.Drops (fns : Bool) : Expr → Expr → Prop
  | .member e name => fun e' => ∃ o, e' = .member o name ∧ e.Drops fns o
  | .index e i => fun e' => ∃ o j, e' = .index o j ∧ e.Drops fns o ∧ i.Drops fns j
  | .binary l op r => fun e' => ∃ l' r', e' = .binary l' op r' ∧ l.Drops fns l' ∧
    r.Drops fns r'
  | .unary op e trailing => fun e' => ∃ o, e' = .unary op o trailing ∧ e.Drops fns o
  | .assign l op r => fun e' => ∃ l' r', e' = .assign l' op r' ∧ l.Drops fns l' ∧
    r.Drops fns r'
  | .call e es => fun e' => ∃ o es', e' = .call o es' ∧ e.Drops fns o ∧
    Expr.DropsAll fns es es'
  | .construct type es => fun e' => ∃ es', e' = .construct type es' ∧ Expr.DropsAll fns es es'
  | .array es type => fun e' => ∃ es', e' = .array es' type ∧ Expr.DropsAll fns es es'
  | .lambda params body => fun e' => ∃ params' body', e' = .lambda params' body' ∧
    Parameter.DropsAll fns params params' ∧ body.Drops fns body'
  | .range a b inclusive => fun e' => ∃ a' b', e' = .range a' b' inclusive ∧
    Expr.DropsOption fns a a' ∧ Expr.DropsOption fns b b'
  | .block ss => fun e' => ∃ ts, e' = .block ts ∧ Stmt.ending ss = Stmt.ending ts ∧
    Stmt.DropsAll fns ss ts
  | .matchOn e arms => fun e' => ∃ o arms', e' = .matchOn o arms' ∧ e.Drops fns o ∧
    MatchArm.DropsAll fns arms arms'
  | e => fun e' => e' = e

/-- The expressions are kept one by one, each without some declarations inside it. -/
def Expr.DropsAll (fns : Bool) : List Expr → List Expr → Prop
  | [] => fun es' => es' = []
  | e :: es => fun es' => ∃ f fs, es' = f :: fs ∧ e.Drops fns f ∧ Expr.DropsAll fns es fs

/-- A present expression stays present, without some declarations inside it. -/
def Expr.DropsOption (fns : Bool) : Option Expr → Option Expr → Prop
  | none => fun o => o = none
  | some e => fun o => ∃ f, o = some f ∧ e.Drops fns f

/-- The body of a lambda, which may end in any way. -/
def Body.Drops (fns : Bool) : Body → Body → Prop
  | .expr e => fun b => ∃ e', b = .expr e' ∧ e.Drops fns e'
  | .block ss => fun b => ∃ ts, b = .block ts ∧ Stmt.DropsAll fns ss ts

/-- The values of a pattern are kept; the default pattern stays the default. -/
def Pattern.Drops (fns : Bool) : Pattern → Pattern → Prop
  | .default => fun p => p = .default
  | .values es => fun p => ∃ es', p = .values es' ∧ Expr.DropsAll fns es es'

/-- A block that is an arm ends with the same jump. -/
def MatchArm.DropsAll (fns : Bool) : List MatchArm → List MatchArm → Prop
  | [] => fun arms' => arms' = []
  | ⟨p, .expr e⟩ :: arms => fun arms' => ∃ p' e' rest, arms' = ⟨p', .expr e'⟩ :: rest ∧
    p.Drops fns p' ∧ e.Drops fns e' ∧
    MatchArm.DropsAll fns arms rest
  | ⟨p, .block ss⟩ :: arms => fun arms' => ∃ p' ts rest, arms' = ⟨p', .block ts⟩ :: rest ∧
    p.Drops fns p' ∧ Stmt.SameJump ss ts ∧
    Stmt.DropsAll fns ss ts ∧ MatchArm.DropsAll fns arms rest

/-- A block that is a case ends with the same jump. -/
def SwitchCase.DropsAll (fns : Bool) : List SwitchCase → List SwitchCase → Prop
  | [] => fun cases' => cases' = []
  | ⟨p, ss⟩ :: cases => fun cases' => ∃ p' ts rest, cases' = ⟨p', ts⟩ :: rest ∧
    p.Drops fns p' ∧ Stmt.SameJump ss ts ∧
    Stmt.DropsAll fns ss ts ∧ SwitchCase.DropsAll fns cases rest

/-- Every attribute is kept by name; only blocks inside its arguments may lose declarations. -/
def Attribute.DropsAll (fns : Bool) : List Attribute → List Attribute → Prop
  | [] => fun as' => as' = []
  | ⟨name, es⟩ :: as => fun as' => ∃ es' rest, as' = ⟨name, es'⟩ :: rest ∧
    Expr.DropsAll fns es es' ∧ Attribute.DropsAll fns as rest

/-- Every parameter is kept; only blocks inside its default value may lose declarations. -/
def Parameter.DropsAll (fns : Bool) : List Parameter → List Parameter → Prop
  | [] => fun ps' => ps' = []
  | ⟨name, type, o⟩ :: ps => fun ps' => ∃ o' rest, ps' = ⟨name, type, o'⟩ :: rest ∧
    Expr.DropsOption fns o o' ∧ Parameter.DropsAll fns ps rest

/-- The head of a type is kept, and its members lose some declarations. -/
def TypeDecl.Drops (fns : Bool) : TypeDecl → TypeDecl → Prop
  | ⟨name, modifiers, as, generics, base, interfaces, ss⟩ => fun d => ∃ as' ts,
    d = ⟨name, modifiers, as', generics, base, interfaces, ts⟩ ∧
    Attribute.DropsAll fns as as' ∧ Stmt.DropsAll fns ss ts

/-- Every variant is kept; only blocks inside its value may lose declarations. -/
def EnumVariant.DropsAll (fns : Bool) : List EnumVariant → List EnumVariant → Prop
  | [] => fun vs' => vs' = []
  | ⟨name, o⟩ :: vs => fun vs' => ∃ o' rest, vs' = ⟨name, o'⟩ :: rest ∧
    Expr.DropsOption fns o o' ∧ EnumVariant.DropsAll fns vs rest

/-- The head and the variants of an enumeration are kept. -/
def EnumDecl.Drops (fns : Bool) : EnumDecl → EnumDecl → Prop
  | ⟨name, modifiers, as, vs⟩ => fun d => ∃ as' vs', d = ⟨name, modifiers, as', vs'⟩ ∧
    Attribute.DropsAll fns as as' ∧ EnumVariant.DropsAll fns vs vs'

/-- The head of a module is kept, and its members lose some declarations. -/
def ModuleDecl.Drops (fns : Bool) : ModuleDecl → ModuleDecl → Prop
  | ⟨name, modifiers, as, ss⟩ => fun d => ∃ as' ts, d = ⟨name, modifiers, as', ts⟩ ∧
    Attribute.DropsAll fns as as' ∧ Stmt.DropsAll fns ss ts

/-- A constructor without statements stays one, and no other becomes one. -/
def Function.Drops (fns : Bool) : Function → Function → Prop
  | ⟨name, params, returnType, generics, modifiers, as, body, isConstructor, isStatic⟩ => fun f =>
    ∃ params' as' body',
      f = ⟨name, params', returnType, generics, modifiers, as', body', isConstructor, isStatic⟩ ∧
      Parameter.DropsAll fns params params' ∧ Attribute.DropsAll fns as as' ∧
      Stmt.DropsBody fns body body' ∧
      (isConstructor = true → (body.getD []).isEmpty = (body'.getD []).isEmpty)

/-- A field is kept; only blocks inside its value may lose declarations. -/
def Field.Drops (fns : Bool) : Field → Field → Prop
  | ⟨name, type, modifiers, as, o⟩ => fun f => ∃ as' o', f = ⟨name, type, modifiers, as', o'⟩ ∧
    Attribute.DropsAll fns as as' ∧ Expr.DropsOption fns o o'

/-- Every accessor is kept, with a body exactly where it had one. -/
def Accessor.DropsAll (fns : Bool) : List Accessor → List Accessor → Prop
  | [] => fun as' => as' = []
  | ⟨kind, modifiers, body⟩ :: as => fun as' => ∃ body' rest,
    as' = ⟨kind, modifiers, body'⟩ :: rest ∧ Stmt.DropsBody fns body body' ∧
      Accessor.DropsAll fns as rest

/-- A property is kept; only its accessor bodies and its value may lose declarations. -/
def Property.Drops (fns : Bool) : Property → Property → Prop
  | ⟨name, type, modifiers, as, accessors, o⟩ => fun p => ∃ as' accessors' o',
    p = ⟨name, type, modifiers, as', accessors', o'⟩ ∧ Attribute.DropsAll fns as as' ∧
    Accessor.DropsAll fns accessors accessors' ∧ Expr.DropsOption fns o o'

/-- A binding is kept; only blocks inside its value may lose declarations. -/
def Binding.Drops (fns : Bool) : Binding → Binding → Prop
  | ⟨name, type, o, mutability⟩ => fun b => ∃ o', b = ⟨name, type, o', mutability⟩ ∧
    Expr.DropsOption fns o o'

end

variable {fns : Bool}

/-! ### Dropping one declaration -/

mutual

/-- Nothing need be dropped from a statement. -/
theorem Stmt.Drops.refl : ∀ s : Stmt, s.Drops fns s
  | .includeDecl _ ss => ⟨ss, rfl, Stmt.DropsAll.refl ss⟩
  | .namespaceDecl _ ss => ⟨ss, rfl, Stmt.DropsAll.refl ss⟩
  | .typeDecl _ ⟨_, _, as, _, _, _, ss⟩ =>
    ⟨_, rfl, as, ss, rfl, Attribute.DropsAll.refl as, Stmt.DropsAll.refl ss⟩
  | .enumDecl ⟨_, _, as, vs⟩ =>
    ⟨_, rfl, as, vs, rfl, Attribute.DropsAll.refl as, EnumVariant.DropsAll.refl vs⟩
  | .moduleDecl ⟨_, _, as, ss⟩ =>
    ⟨_, rfl, as, ss, rfl, Attribute.DropsAll.refl as, Stmt.DropsAll.refl ss⟩
  | .functionDecl _ ⟨_, ps, _, _, _, as, body, _, _⟩ =>
    ⟨_, rfl, ps, as, body, rfl, Parameter.DropsAll.refl ps, Attribute.DropsAll.refl as,
      Stmt.DropsBody.refl body, fun _ => rfl⟩
  | .fieldDecl ⟨_, _, _, as, o⟩ =>
    ⟨_, rfl, as, o, rfl, Attribute.DropsAll.refl as, Expr.DropsOption.refl o⟩
  | .propertyDecl ⟨_, _, _, as, accessors, o⟩ =>
    ⟨_, rfl, as, accessors, o, rfl, Attribute.DropsAll.refl as, Accessor.DropsAll.refl accessors,
      Expr.DropsOption.refl o⟩
  | .binding ⟨_, _, o, _⟩ => ⟨_, rfl, o, rfl, Expr.DropsOption.refl o⟩
  | .ifThen e ss o =>
    ⟨e, ss, o, rfl, Expr.Drops.refl e, Stmt.DropsAll.refl ss, Stmt.DropsElse.refl o⟩
  | .whileLoop e ss => ⟨e, ss, rfl, Expr.Drops.refl e, Stmt.DropsAll.refl ss⟩
  | .forLoop start e step ss =>
    ⟨start, e, step, ss, rfl, Stmt.DropsStart.refl start, Expr.DropsOption.refl e,
      Expr.DropsOption.refl step, Stmt.DropsAll.refl ss⟩
  | .forEach _ _ e ss => ⟨e, ss, rfl, Expr.Drops.refl e, Stmt.DropsAll.refl ss⟩
  | .ret o => ⟨o, rfl, Expr.DropsOption.refl o⟩
  | .matchOn e arms => ⟨e, arms, rfl, Expr.Drops.refl e, MatchArm.DropsAll.refl arms⟩
  | .switchOn e cases => ⟨e, cases, rfl, Expr.Drops.refl e, SwitchCase.DropsAll.refl cases⟩
  | .expr e => ⟨e, rfl, Expr.Drops.refl e⟩
  | .importDecl _ | .aliasDecl _ | .breakLoop | .continueLoop | .raw _ => rfl

/-- Nothing need be dropped from a list of statements. -/
theorem Stmt.DropsAll.refl : ∀ ss : List Stmt, Stmt.DropsAll fns ss ss
  | [] => rfl
  | s :: ss => .inr ⟨s, ss, rfl, Stmt.Drops.refl s, Stmt.DropsAll.refl ss⟩

theorem Stmt.DropsElse.refl : ∀ o : Option (List Stmt), Stmt.DropsElse fns o o
  | none => rfl
  | some ss => ⟨ss, rfl, rfl, Stmt.DropsAll.refl ss⟩

theorem Stmt.DropsStart.refl : ∀ o : Option Stmt, Stmt.DropsStart fns o o
  | none => rfl
  | some s => ⟨s, rfl, Stmt.Drops.refl s⟩

theorem Stmt.DropsBody.refl : ∀ o : Option (List Stmt), Stmt.DropsBody fns o o
  | none => rfl
  | some ss => ⟨ss, rfl, Stmt.DropsAll.refl ss⟩

/-- Nothing need be dropped from an expression. -/
theorem Expr.Drops.refl : ∀ e : Expr, e.Drops fns e
  | .member e _ => ⟨e, rfl, Expr.Drops.refl e⟩
  | .index e i => ⟨e, i, rfl, Expr.Drops.refl e, Expr.Drops.refl i⟩
  | .binary l _ r => ⟨l, r, rfl, Expr.Drops.refl l, Expr.Drops.refl r⟩
  | .unary _ e _ => ⟨e, rfl, Expr.Drops.refl e⟩
  | .assign l _ r => ⟨l, r, rfl, Expr.Drops.refl l, Expr.Drops.refl r⟩
  | .call e es => ⟨e, es, rfl, Expr.Drops.refl e, Expr.DropsAll.refl es⟩
  | .construct _ es => ⟨es, rfl, Expr.DropsAll.refl es⟩
  | .array es _ => ⟨es, rfl, Expr.DropsAll.refl es⟩
  | .lambda ps (.expr e) =>
    ⟨ps, .expr e, rfl, Parameter.DropsAll.refl ps, e, rfl, Expr.Drops.refl e⟩
  | .lambda ps (.block ss) =>
    ⟨ps, .block ss, rfl, Parameter.DropsAll.refl ps, ss, rfl, Stmt.DropsAll.refl ss⟩
  | .range a b _ => ⟨a, b, rfl, Expr.DropsOption.refl a, Expr.DropsOption.refl b⟩
  | .block ss => ⟨ss, rfl, rfl, Stmt.DropsAll.refl ss⟩
  | .matchOn e arms => ⟨e, arms, rfl, Expr.Drops.refl e, MatchArm.DropsAll.refl arms⟩
  | .literal _ | .ident _ | .path _ | .this => rfl

theorem Expr.DropsAll.refl : ∀ es : List Expr, Expr.DropsAll fns es es
  | [] => rfl
  | e :: es => ⟨e, es, rfl, Expr.Drops.refl e, Expr.DropsAll.refl es⟩

theorem Expr.DropsOption.refl : ∀ o : Option Expr, Expr.DropsOption fns o o
  | none => rfl
  | some e => ⟨e, rfl, Expr.Drops.refl e⟩

theorem Pattern.Drops.refl : ∀ p : Pattern, p.Drops fns p
  | .default => rfl
  | .values es => ⟨es, rfl, Expr.DropsAll.refl es⟩

/-- Nothing need be dropped from the arms of a match. -/
theorem MatchArm.DropsAll.refl : ∀ arms : List MatchArm, MatchArm.DropsAll fns arms arms
  | [] => rfl
  | ⟨p, .expr e⟩ :: arms =>
    ⟨p, e, arms, rfl, Pattern.Drops.refl p, Expr.Drops.refl e, MatchArm.DropsAll.refl arms⟩
  | ⟨p, .block ss⟩ :: arms =>
    ⟨p, ss, arms, rfl, Pattern.Drops.refl p, ⟨rfl, rfl⟩, Stmt.DropsAll.refl ss,
      MatchArm.DropsAll.refl arms⟩

theorem SwitchCase.DropsAll.refl : ∀ cases : List SwitchCase, SwitchCase.DropsAll fns cases cases
  | [] => rfl
  | ⟨p, ss⟩ :: cases =>
    ⟨p, ss, cases, rfl, Pattern.Drops.refl p, ⟨rfl, rfl⟩, Stmt.DropsAll.refl ss,
      SwitchCase.DropsAll.refl cases⟩

theorem Attribute.DropsAll.refl : ∀ as : List Attribute, Attribute.DropsAll fns as as
  | [] => rfl
  | ⟨_, es⟩ :: as => ⟨es, as, rfl, Expr.DropsAll.refl es, Attribute.DropsAll.refl as⟩

theorem Parameter.DropsAll.refl : ∀ ps : List Parameter, Parameter.DropsAll fns ps ps
  | [] => rfl
  | ⟨_, _, o⟩ :: ps => ⟨o, ps, rfl, Expr.DropsOption.refl o, Parameter.DropsAll.refl ps⟩

theorem EnumVariant.DropsAll.refl : ∀ vs : List EnumVariant, EnumVariant.DropsAll fns vs vs
  | [] => rfl
  | ⟨_, o⟩ :: vs => ⟨o, vs, rfl, Expr.DropsOption.refl o, EnumVariant.DropsAll.refl vs⟩

theorem Accessor.DropsAll.refl : ∀ as : List Accessor, Accessor.DropsAll fns as as
  | [] => rfl
  | ⟨_, _, body⟩ :: as => ⟨body, as, rfl, Stmt.DropsBody.refl body, Accessor.DropsAll.refl as⟩

end

/-- A droppable statement may be left out in front. -/
theorem Stmt.DropsAll.drop {s : Stmt} {ss ts : List Stmt} (h : s.droppable fns = true)
    (hs : Stmt.DropsAll fns ss ts) : Stmt.DropsAll fns (s :: ss) ts :=
  .inl ⟨h, hs⟩

/-- A kept statement stays in front. -/
theorem Stmt.DropsAll.keep {s t : Stmt} {ss ts : List Stmt} (h : s.Drops fns t)
    (hs : Stmt.DropsAll fns ss ts) : Stmt.DropsAll fns (s :: ss) (t :: ts) :=
  .inr ⟨t, ts, rfl, h, hs⟩

/-- Any one marked declaration may be dropped from a list. -/
theorem Stmt.dropsAll_append {s : Stmt} (h : s.droppable fns = true) (ss ts : List Stmt) :
    Stmt.DropsAll fns (ss ++ s :: ts) (ss ++ ts) := by
  induction ss with
  | nil => exact .drop h (.refl ts)
  | cons t ss ih => exact .keep (.refl t) ih

/-! ### What is read off an expression -/

/-- The expression with everything inside it blanked out. -/
def Expr.skeleton : Expr → Expr
  | .member _ name => .member .this name
  | .index _ _ => .index .this .this
  | .binary _ op _ => .binary .this op .this
  | .unary op _ trailing => .unary op .this trailing
  | .assign _ op _ => .assign .this op .this
  | .call _ _ => .call .this []
  | .construct type _ => .construct type []
  | .array _ type => .array [] type
  | .lambda _ _ => .lambda [] (.block [])
  | .range _ _ inclusive => .range none none inclusive
  | .block _ => .block []
  | .matchOn _ _ => .matchOn .this []
  | e => e

namespace Expr.Drops

/-- Dropping declarations keeps the constructor an expression has, and what it carries beside its
parts. -/
theorem skeleton : ∀ {e e' : Expr}, e.Drops fns e' → e.skeleton = e'.skeleton
  | .literal _ | .ident _ | .path _ | .this => by rintro rfl; rfl
  | .member _ _ | .unary _ _ _ | .construct _ _ | .array _ _ | .block _ => by
    rintro ⟨_, rfl, _⟩; rfl
  | .index _ _ | .binary _ _ _ | .assign _ _ _ | .call _ _ | .lambda _ _
  | .range _ _ _ | .matchOn _ _ => by rintro ⟨_, _, rfl, _⟩; rfl

/-- A function that looks at the outermost form only does not notice. -/
theorem congr {β : Type} {f : Expr → β} {e e' : Expr} (h : e.Drops fns e')
    (hf : ∀ e : Expr, f e.skeleton = f e) : f e = f e' := by
  rw [← hf e, h.skeleton, hf e']

/-- Whether an expression is a string literal does not depend on the dropped declarations. -/
theorem isStringLiteral {e e' : Expr} (h : e.Drops fns e') :
    e.isStringLiteral = e'.isStringLiteral :=
  h.congr fun e => by cases e <;> rfl

/-- Whether an expression may stand as a statement does not depend on the dropped declarations. -/
theorem isEffect {e e' : Expr} (h : e.Drops fns e') : e.isEffect = e'.isEffect :=
  h.congr fun e => by cases e <;> rfl

/-- The integer an expression is written as does not depend on the dropped declarations. -/
theorem integer? : ∀ {e e' : Expr}, e.Drops fns e' → e.integer? = e'.integer?
  | .literal _ | .ident _ | .path _ | .this => by rintro rfl; rfl
  | .unary op operand trailing => by
    rintro ⟨_, rfl, h⟩
    have ih := integer? h
    unfold Expr.integer?
    split <;> simp_all
  | .member _ _ | .construct _ _ | .array _ _ | .block _ => by
    rintro ⟨_, rfl, _⟩; rfl
  | .index _ _ | .binary _ _ _ | .assign _ _ _ | .call _ _ | .lambda _ _
  | .range _ _ _ | .matchOn _ _ => by rintro ⟨_, _, rfl, _⟩; rfl

/-- Whether a place starts at `this` does not depend on the dropped declarations. -/
theorem rootedInThis : ∀ {e e' : Expr}, e.Drops fns e' → e.rootedInThis = e'.rootedInThis
  | .literal _ | .ident _ | .path _ | .this => by rintro rfl; rfl
  | .member _ _ => by
    rintro ⟨_, rfl, h⟩
    have ih := rootedInThis h
    exact ih
  | .index _ _ => by
    rintro ⟨_, _, rfl, h, -⟩
    have ih := rootedInThis h
    exact ih
  | .unary _ _ _ | .construct _ _ | .array _ _ | .block _ => by
    rintro ⟨_, rfl, _⟩; rfl
  | .binary _ _ _ | .assign _ _ _ | .call _ _ | .lambda _ _ | .range _ _ _
  | .matchOn _ _ => by rintro ⟨_, _, rfl, _⟩; rfl

/-- Whether a callee is a part of `this` does not depend on the dropped declarations. -/
theorem callsInsideThis {e e' : Expr} (h : e.Drops fns e') :
    e.callsInsideThis = e'.callsInsideThis := by
  cases e with
  | member object name =>
    obtain ⟨object', rfl, h⟩ := h
    have hrooted := h.rootedInThis
    -- `this` itself is the one object whose method is not inside it.
    cases object with
    | this =>
      obtain rfl := h
      rfl
    | literal | ident | path =>
      obtain rfl := h
      exact hrooted
    | member | unary | construct | array | block =>
      obtain ⟨_, rfl, _⟩ := h
      exact hrooted
    | index | binary | assign | call | lambda | range | matchOn =>
      obtain ⟨_, _, rfl, _⟩ := h
      exact hrooted
  | literal | ident | path | this =>
    obtain rfl := h
    rfl
  | unary | construct | array | block =>
    obtain ⟨_, rfl, _⟩ := h
    rfl
  | index | binary | assign | call | lambda | range | matchOn =>
    obtain ⟨_, _, rfl, _⟩ := h
    rfl

end Expr.Drops

mutual

/-- Whether an expression assigns through `this` does not depend on the dropped declarations. -/
theorem Expr.Drops.assignsThis : ∀ {e e' : Expr}, e.Drops fns e' → e.assignsThis = e'.assignsThis
  | .literal _ | .ident _ | .path _ | .this => by rintro rfl; rfl
  | .assign _ _ _ => by
    rintro ⟨_, _, rfl, hl, hr⟩
    exact congrArg₂ or hl.rootedInThis hr.assignsThis
  | .unary _ _ _ => by
    rintro ⟨_, rfl, h⟩
    exact congrArg₂ and rfl h.rootedInThis
  | .call _ _ => by
    rintro ⟨_, _, rfl, he, hes⟩
    exact congrArg₂ or he.callsInsideThis hes.anyAssignsThis
  | .member _ _ | .construct _ _ | .array _ _ | .block _ => by
    rintro ⟨_, rfl, _⟩
    rfl
  | .index _ _ | .binary _ _ _ | .lambda _ _ | .range _ _ _ | .matchOn _ _ => by
    rintro ⟨_, _, rfl, _⟩
    rfl

/-- The same of a list of expressions. -/
theorem Expr.DropsAll.anyAssignsThis : ∀ {es es' : List Expr}, Expr.DropsAll fns es es' →
    Expr.anyAssignsThis es = Expr.anyAssignsThis es'
  | [] => by rintro rfl; rfl
  | _ :: _ => by
    rintro ⟨_, _, rfl, he, hes⟩
    exact congrArg₂ or he.assignsThis hes.anyAssignsThis

end

/-! ### What is read off a block -/

/-- A declaration is no code that runs where it stands. -/
theorem Stmt.flow_of_droppable {s : Stmt} (h : s.droppable fns = true) :
    s.returnsValue = false ∧ s.continues = false ∧ s.assignsThis = false := by
  cases s with
  | functionDecl | fieldDecl | propertyDecl => exact ⟨rfl, rfl, rfl⟩
  | _ => cases h

mutual

/-- Whether a statement returns a value, continues a loop or changes something through `this`. -/
theorem Stmt.Drops.flow : ∀ {s t : Stmt}, s.Drops fns t →
    s.returnsValue = t.returnsValue ∧ s.continues = t.continues ∧ s.assignsThis = t.assignsThis
  | .importDecl _ | .aliasDecl _ | .breakLoop | .continueLoop | .raw _ => by
    rintro rfl
    exact ⟨rfl, rfl, rfl⟩
  | .includeDecl _ _ | .namespaceDecl _ _ | .typeDecl _ _ | .enumDecl _ | .moduleDecl _
  | .functionDecl _ _ | .fieldDecl _ | .propertyDecl _ => by
    rintro ⟨_, rfl, _⟩
    exact ⟨rfl, rfl, rfl⟩
  | .binding ⟨_, _, none, _⟩ => by
    rintro ⟨_, rfl, _, rfl, rfl⟩
    exact ⟨rfl, rfl, rfl⟩
  | .binding ⟨_, _, some _, _⟩ => by
    rintro ⟨_, rfl, _, rfl, _, rfl, h⟩
    exact ⟨rfl, rfl, h.assignsThis⟩
  | .ret none => by
    rintro ⟨_, rfl, rfl⟩
    exact ⟨rfl, rfl, rfl⟩
  | .ret (some _) => by
    rintro ⟨_, rfl, _, rfl, h⟩
    exact ⟨rfl, rfl, h.assignsThis⟩
  | .ifThen _ _ none => by
    rintro ⟨_, _, _, rfl, he, hs, rfl⟩
    exact ⟨hs.flow.1, hs.flow.2.1, congrArg₂ or he.assignsThis hs.flow.2.2⟩
  | .ifThen _ _ (some _) => by
    rintro ⟨_, _, _, rfl, he, hs, _, rfl, -, hu⟩
    exact ⟨congrArg₂ or hs.flow.1 hu.flow.1, congrArg₂ or hs.flow.2.1 hu.flow.2.1,
      congrArg₂ or (congrArg₂ or he.assignsThis hs.flow.2.2) hu.flow.2.2⟩
  | .whileLoop _ _ => by
    rintro ⟨_, _, rfl, -, hs⟩
    exact ⟨hs.flow.1, rfl, hs.flow.2.2⟩
  | .forLoop _ _ none _ => by
    rintro ⟨_, _, _, _, rfl, -, -, rfl, hs⟩
    exact ⟨hs.flow.1, rfl, hs.flow.2.2⟩
  | .forLoop _ _ (some _) _ => by
    rintro ⟨_, _, _, _, rfl, -, -, ⟨_, rfl, hstep⟩, hs⟩
    exact ⟨hs.flow.1, rfl, congrArg₂ or hstep.assignsThis hs.flow.2.2⟩
  | .forEach _ _ _ _ => by
    rintro ⟨_, _, rfl, -, hs⟩
    exact ⟨hs.flow.1, rfl, hs.flow.2.2⟩
  | .matchOn _ _ => by
    rintro ⟨_, _, rfl, -, harms⟩
    exact harms.flow
  | .switchOn _ _ => by
    rintro ⟨_, _, rfl, -, hcases⟩
    exact hcases.flow
  | .expr _ => by
    rintro ⟨_, rfl, h⟩
    exact ⟨rfl, rfl, h.assignsThis⟩
termination_by structural s => s

/-- Whether a block returns a value, continues a loop or changes something through `this`. -/
theorem Stmt.DropsAll.flow : ∀ {ss ts : List Stmt}, Stmt.DropsAll fns ss ts →
    Stmt.anyReturnsValue ss = Stmt.anyReturnsValue ts ∧
      Stmt.anyContinues ss = Stmt.anyContinues ts ∧
      Stmt.anyAssignsThis ss = Stmt.anyAssignsThis ts
  | [] => by
    rintro rfl
    exact ⟨rfl, rfl, rfl⟩
  | _ :: _ => by
    rintro (⟨hs, h⟩ | ⟨_, _, rfl, hs, h⟩)
    · obtain ⟨hreturns, hcontinues, hassigns⟩ := Stmt.flow_of_droppable hs
      exact ⟨congrArg₂ or hreturns h.flow.1, congrArg₂ or hcontinues h.flow.2.1,
        congrArg₂ or hassigns h.flow.2.2⟩
    · exact ⟨congrArg₂ or hs.flow.1 h.flow.1, congrArg₂ or hs.flow.2.1 h.flow.2.1,
        congrArg₂ or hs.flow.2.2 h.flow.2.2⟩

/-- What the arms of a match return, continue and assign does not depend on the dropped
declarations. -/
theorem MatchArm.DropsAll.flow : ∀ {arms arms' : List MatchArm}, MatchArm.DropsAll fns arms arms' →
    Stmt.anyArmReturnsValue arms = Stmt.anyArmReturnsValue arms' ∧
      Stmt.anyArmContinues arms = Stmt.anyArmContinues arms' ∧
      MatchArm.anyAssignsThis arms = MatchArm.anyAssignsThis arms'
  | [] => by
    rintro rfl
    exact ⟨rfl, rfl, rfl⟩
  | ⟨_, .expr _⟩ :: _ => by
    rintro ⟨_, _, _, rfl, -, he, h⟩
    exact ⟨h.flow.1, h.flow.2.1, congrArg₂ or he.assignsThis h.flow.2.2⟩
  | ⟨_, .block _⟩ :: _ => by
    rintro ⟨_, _, _, rfl, -, -, hs, h⟩
    exact ⟨congrArg₂ or hs.flow.1 h.flow.1, congrArg₂ or hs.flow.2.1 h.flow.2.1,
      congrArg₂ or hs.flow.2.2 h.flow.2.2⟩

/-- The same of the cases of a switch. -/
theorem SwitchCase.DropsAll.flow : ∀ {cases cases' : List SwitchCase},
    SwitchCase.DropsAll fns cases cases' →
    Stmt.anyCaseReturnsValue cases = Stmt.anyCaseReturnsValue cases' ∧
      Stmt.anyCaseContinues cases = Stmt.anyCaseContinues cases' ∧
      SwitchCase.anyAssignsThis cases = SwitchCase.anyAssignsThis cases'
  | [] => by
    rintro rfl
    exact ⟨rfl, rfl, rfl⟩
  | ⟨_, _⟩ :: _ => by
    rintro ⟨_, _, _, rfl, -, -, hs, h⟩
    exact ⟨congrArg₂ or hs.flow.1 h.flow.1, congrArg₂ or hs.flow.2.1 h.flow.2.1,
      congrArg₂ or hs.flow.2.2 h.flow.2.2⟩

end

/-- A body returns a value with the dropped declarations exactly when it does without them. -/
theorem Stmt.DropsBody.any_returnsValue {o o' : Option (List Stmt)}
    (h : Stmt.DropsBody fns o o') : o.any Stmt.anyReturnsValue = o'.any Stmt.anyReturnsValue := by
  cases o with
  | none =>
    obtain rfl := h
    rfl
  | some ss =>
    obtain ⟨ts, rfl, h⟩ := h
    exact h.flow.1

/-- A body assigns through `this` with the dropped declarations exactly when it does without them.
-/
theorem Stmt.DropsBody.any_assignsThis {o o' : Option (List Stmt)}
    (h : Stmt.DropsBody fns o o') : o.any Stmt.anyAssignsThis = o'.any Stmt.anyAssignsThis := by
  cases o with
  | none =>
    obtain rfl := h
    rfl
  | some ss =>
    obtain ⟨ts, rfl, h⟩ := h
    exact h.flow.2.2

/-- If nothing is left of a block, it was a block of declarations. -/
theorem Stmt.DropsAll.ending_of_nil : ∀ {ss : List Stmt}, Stmt.DropsAll fns ss [] →
    Stmt.ending ss = .other
  | [] => fun _ => rfl
  | [s] => by
    rintro (⟨hs, -⟩ | ⟨_, _, h, -⟩)
    · cases s with
      | functionDecl | fieldDecl | propertyDecl => rfl
      | _ => cases hs
    · cases h
  | _ :: s :: ss => by
    rintro (⟨-, h⟩ | ⟨_, _, h, -⟩)
    · exact h.ending_of_nil
    · cases h

/-- The statement with everything inside it blanked out, also names. -/
def Stmt.skeleton : Stmt → Stmt
  | .includeDecl _ _ => .includeDecl "" []
  | .namespaceDecl _ _ => .namespaceDecl "" []
  | .typeDecl kind _ => .typeDecl kind ⟨"", [], [], [], none, [], []⟩
  | .enumDecl _ => .enumDecl ⟨"", [], [], []⟩
  | .moduleDecl _ => .moduleDecl ⟨"", [], [], []⟩
  | .functionDecl kind _ => .functionDecl kind ⟨"", [], none, [], [], [], none, false, false⟩
  | .fieldDecl _ => .fieldDecl ⟨"", none, [], [], none⟩
  | .propertyDecl _ => .propertyDecl ⟨"", none, [], [], [], none⟩
  | .binding _ => .binding ⟨"", none, none, .immutable⟩
  | .ifThen _ _ _ => .ifThen .this [] none
  | .whileLoop _ _ => .whileLoop .this []
  | .forLoop _ _ _ _ => .forLoop none none none []
  | .forEach _ _ _ _ => .forEach "" none .this []
  | .ret _ => .ret none
  | .matchOn _ _ => .matchOn .this []
  | .switchOn _ _ => .switchOn .this []
  | .expr _ => .expr .this
  | s => s

/-- A kept statement keeps its constructor. -/
theorem Stmt.Drops.skeleton : ∀ {s t : Stmt}, s.Drops fns t → s.skeleton = t.skeleton
  | .importDecl _ | .aliasDecl _ | .breakLoop | .continueLoop | .raw _ => by
    rintro rfl
    rfl
  | .includeDecl _ _ | .namespaceDecl _ _ | .typeDecl _ _ | .enumDecl _ | .moduleDecl _
  | .functionDecl _ _ | .fieldDecl _ | .propertyDecl _ | .binding _ | .ret _ | .expr _ => by
    rintro ⟨_, rfl, _⟩
    rfl
  | .whileLoop _ _ | .forEach _ _ _ _ | .matchOn _ _ | .switchOn _ _ => by
    rintro ⟨_, _, rfl, _⟩
    rfl
  | .ifThen _ _ _ => by
    rintro ⟨_, _, _, rfl, _⟩
    rfl
  | .forLoop _ _ _ _ => by
    rintro ⟨_, _, _, _, rfl, _⟩
    rfl

/-- A function that looks at the outermost form only does not notice. -/
theorem Stmt.Drops.congr {β : Type} {f : Stmt → β} {s t : Stmt} (h : s.Drops fns t)
    (hf : ∀ s : Stmt, f s.skeleton = f s) : f s = f t := by
  rw [← hf s, h.skeleton, hf t]

/-! ### What is read off attributes and patterns -/

/-- The attributes keep their names, in order. -/
theorem Attribute.DropsAll.names : ∀ {as as' : List Attribute}, Attribute.DropsAll fns as as' →
    as.map (·.name) = as'.map (·.name)
  | [] => by
    rintro rfl
    rfl
  | ⟨name, _⟩ :: _ => by
    rintro ⟨_, _, rfl, -, h⟩
    exact congrArg (name :: ·) h.names

/-- So a declaration is marked as before. -/
theorem Attribute.DropsAll.marker {as as' : List Attribute} (h : Attribute.DropsAll fns as as') :
    Marker.of? as = Marker.of? as' := by
  have hnames : ∀ as : List Attribute,
      Marker.of? as = (as.map (·.name)).findSome? Marker.ofName? := fun as => by
    rw [Marker.of?, List.findSome?_map]
    rfl
  rw [hnames, hnames, h.names]

theorem Attribute.DropsAll.any_name {as as' : List Attribute} (h : Attribute.DropsAll fns as as')
    (name : String) : as.any (·.name == name) = as'.any (·.name == name) := by
  have hnames : ∀ as : List Attribute,
      as.any (·.name == name) = (as.map (·.name)).any (· == name) := fun as => by
    rw [List.any_map]
    rfl
  rw [hnames, h.names, ← hnames]

/-- No expression of a list is dropped. -/
theorem Expr.DropsAll.length : ∀ {es es' : List Expr}, Expr.DropsAll fns es es' →
    es.length = es'.length
  | [] => by
    rintro rfl
    rfl
  | _ :: _ => by
    rintro ⟨_, _, rfl, -, h⟩
    exact congrArg (· + 1) h.length

theorem Expr.DropsAll.isEmpty {es es' : List Expr} (h : Expr.DropsAll fns es es') :
    es.isEmpty = es'.isEmpty := by
  cases es with
  | nil =>
    obtain rfl := h
    rfl
  | cons e es =>
    obtain ⟨_, _, rfl, _⟩ := h
    rfl

/-- Default values aside, parameters stay the same. -/
theorem Parameter.DropsAll.bare : ∀ {ps ps' : List Parameter}, Parameter.DropsAll fns ps ps' →
    ps.map (fun p => (⟨p.name, p.type, none⟩ : Parameter)) =
      ps'.map fun p => ⟨p.name, p.type, none⟩
  | [] => by
    rintro rfl
    rfl
  | ⟨name, type, _⟩ :: _ => by
    rintro ⟨_, _, rfl, -, h⟩
    exact congrArg (⟨name, type, none⟩ :: ·) h.bare

/-- The functions have the same head, up to parameters. -/
structure Function.SameHead (f g : Function) : Prop where
  name : f.name = g.name
  returnType : f.returnType = g.returnType
  modifiers : f.modifiers = g.modifiers
  marker : f.marker = g.marker
  isConstructor : f.isConstructor = g.isConstructor
  isStatic : f.isStatic = g.isStatic

/-- A kept function keeps all of its head. -/
theorem Function.Drops.head {f g : Function} (h : f.Drops fns g) : f.SameHead g := by
  obtain ⟨_, _, _, _, _, _, _, _, _⟩ := f
  obtain ⟨_, _, _, rfl, -, has, -⟩ := h
  exact ⟨rfl, rfl, rfl, has.marker, rfl, rfl⟩

/-- The parameters of a kept function are kept. -/
theorem Function.Drops.params {f g : Function} (h : f.Drops fns g) :
    Parameter.DropsAll fns f.params g.params := by
  obtain ⟨_, _, _, _, _, _, _, _, _⟩ := f
  obtain ⟨_, _, _, rfl, hparams, -⟩ := h
  exact hparams

/-- The body of a kept function is kept. -/
theorem Function.Drops.body {f g : Function} (h : f.Drops fns g) :
    Stmt.DropsBody fns f.body g.body := by
  obtain ⟨_, _, _, _, _, _, _, _, _⟩ := f
  obtain ⟨_, _, _, rfl, -, -, hbody, -⟩ := h
  exact hbody

/-- A constructor without statements stays one, and no other becomes one. -/
theorem Function.Drops.isEmpty_body {f g : Function} (h : f.Drops fns g)
    (hconstructor : f.isConstructor = true) :
    (f.body.getD []).isEmpty = (g.body.getD []).isEmpty := by
  obtain ⟨_, _, _, _, _, _, _, _, _⟩ := f
  obtain ⟨_, _, _, rfl, -, -, -, hempty⟩ := h
  exact hempty hconstructor

theorem Stmt.DropsBody.getD {o o' : Option (List Stmt)} (h : Stmt.DropsBody fns o o') :
    Stmt.DropsAll fns (o.getD []) (o'.getD []) := by
  cases o with
  | none =>
    obtain rfl := h
    rfl
  | some ss =>
    obtain ⟨ts, rfl, h⟩ := h
    exact h

/-- What looks at kinds and modifiers and at whether there is a body does not notice. -/
theorem Accessor.DropsAll.map_eq {β : Type} {f : Accessor → β}
    (hf : ∀ kind modifiers body,
      f ⟨kind, modifiers, some body⟩ = f ⟨kind, modifiers, some []⟩) :
    ∀ {as as' : List Accessor}, Accessor.DropsAll fns as as' → as.map f = as'.map f
  | [] => by
    rintro rfl
    rfl
  | ⟨kind, modifiers, none⟩ :: _ => by
    rintro ⟨_, _, rfl, rfl, has⟩
    rw [List.map_cons, List.map_cons, map_eq hf has]
  | ⟨kind, modifiers, some body⟩ :: _ => by
    rintro ⟨_, _, rfl, ⟨body', rfl, -⟩, has⟩
    rw [List.map_cons, List.map_cons, map_eq hf has, hf kind modifiers body,
      hf kind modifiers body']

theorem Property.Drops.name {p p' : Property} (h : p.Drops fns p') : p.name = p'.name := by
  obtain ⟨_, _, _, _, _, _⟩ := p
  obtain ⟨_, _, _, rfl, -⟩ := h
  rfl

/-- A property without accessor bodies stays one, and no other becomes one. -/
theorem Property.Drops.isAuto {p p' : Property} (h : p.Drops fns p') : p.isAuto = p'.isAuto := by
  obtain ⟨_, _, _, _, accessors, _⟩ := p
  obtain ⟨_, accessors', _, rfl, -, h, -⟩ := h
  have hall : ∀ as : List Accessor,
      as.all (·.body.isNone) = (as.map (·.body.isNone)).all id := fun as => by
    rw [List.all_map]
    rfl
  rw [Property.isAuto, Property.isAuto, hall, hall, Accessor.DropsAll.map_eq (fun _ _ _ => rfl) h]

theorem Expr.DropsOption.isSome {o o' : Option Expr} (h : Expr.DropsOption fns o o') :
    o.isSome = o'.isSome := by
  cases o with
  | none =>
    obtain rfl := h
    rfl
  | some e =>
    obtain ⟨_, rfl, _⟩ := h
    rfl

theorem Stmt.DropsStart.isSome {o o' : Option Stmt} (h : Stmt.DropsStart fns o o') :
    o.isSome = o'.isSome := by
  cases o with
  | none =>
    obtain rfl := h
    rfl
  | some s =>
    obtain ⟨_, rfl, _⟩ := h
    rfl

/-- The folded start of a range does not depend on the dropped declarations. -/
theorem Expr.DropsOption.startValue? {a a' : Option Expr} (h : Expr.DropsOption fns a a')
    (b b' : Option Expr) (inclusive : Bool) :
    Range.startValue? ⟨a, b, inclusive⟩ = Range.startValue? ⟨a', b', inclusive⟩ := by
  cases a with
  | none =>
    obtain rfl := h
    rfl
  | some e =>
    obtain ⟨_, rfl, h⟩ := h
    exact h.integer?

/-- Whether both ends of a range are literals does not depend on the dropped declarations. -/
theorem Expr.DropsOption.hasLiteralBounds {a a' b b' : Option Expr}
    (ha : Expr.DropsOption fns a a') (hb : Expr.DropsOption fns b b') (inclusive : Bool) :
    Range.hasLiteralBounds ⟨a, b, inclusive⟩ = Range.hasLiteralBounds ⟨a', b', inclusive⟩ := by
  rw [Range.hasLiteralBounds, Range.hasLiteralBounds, ha.startValue? b b' inclusive]
  cases b with
  | none =>
    obtain rfl := hb
    rfl
  | some e =>
    obtain ⟨_, rfl, hb⟩ := hb
    rw [Option.bind_some, Option.bind_some, hb.integer?]

theorem Expr.DropsAll.any_isStringLiteral : ∀ {es es' : List Expr}, Expr.DropsAll fns es es' →
    es.any Expr.isStringLiteral = es'.any Expr.isStringLiteral
  | [] => by
    rintro rfl
    rfl
  | _ :: _ => by
    rintro ⟨_, _, rfl, he, h⟩
    exact congrArg₂ or he.isStringLiteral h.any_isStringLiteral

/-- Whether a pattern selects everything, and whether it has a string. -/
theorem Pattern.Drops.kinds {p p' : Pattern} (h : p.Drops fns p') :
    p.isDefault = p'.isDefault ∧ p.hasString = p'.hasString := by
  cases p with
  | default =>
    obtain rfl := h
    exact ⟨rfl, rfl⟩
  | values es =>
    obtain ⟨_, rfl, h⟩ := h
    exact ⟨rfl, h.any_isStringLiteral⟩

/-- The kinds of pattern among the arms do not depend on the dropped declarations. -/
theorem MatchArm.DropsAll.kinds : ∀ {arms arms' : List MatchArm},
    MatchArm.DropsAll fns arms arms' →
    Pattern.anyDefault (arms.map (·.pattern)) = Pattern.anyDefault (arms'.map (·.pattern)) ∧
      Pattern.anyString (arms.map (·.pattern)) = Pattern.anyString (arms'.map (·.pattern))
  | [] => by
    rintro rfl
    exact ⟨rfl, rfl⟩
  | ⟨_, .expr _⟩ :: _ => by
    rintro ⟨_, _, _, rfl, hp, -, h⟩
    exact ⟨congrArg₂ or hp.kinds.1 h.kinds.1, congrArg₂ or hp.kinds.2 h.kinds.2⟩
  | ⟨_, .block _⟩ :: _ => by
    rintro ⟨_, _, _, rfl, hp, -, -, h⟩
    exact ⟨congrArg₂ or hp.kinds.1 h.kinds.1, congrArg₂ or hp.kinds.2 h.kinds.2⟩

/-- The kinds of pattern among the cases do not depend on the dropped declarations. -/
theorem SwitchCase.DropsAll.kinds : ∀ {cases cases' : List SwitchCase},
    SwitchCase.DropsAll fns cases cases' →
    Pattern.anyDefault (cases.map (·.pattern)) = Pattern.anyDefault (cases'.map (·.pattern)) ∧
      Pattern.anyString (cases.map (·.pattern)) = Pattern.anyString (cases'.map (·.pattern))
  | [] => by
    rintro rfl
    exact ⟨rfl, rfl⟩
  | ⟨_, _⟩ :: _ => by
    rintro ⟨_, _, _, rfl, hp, -, -, h⟩
    exact ⟨congrArg₂ or hp.kinds.1 h.kinds.1, congrArg₂ or hp.kinds.2 h.kinds.2⟩

/-! ### Declared types -/

/-- A marked function, field or property declares no type. -/
theorem Stmt.types_of_droppable {s : Stmt} (h : s.droppable fns = true) :
    (∀ known : KnownTypes, known.scan s = known) ∧ s.declaredName? = none ∧
      s.nestedType? = none := by
  cases s with
  | functionDecl | fieldDecl | propertyDecl => exact ⟨fun _ => rfl, rfl, rfl⟩
  | _ => cases h

mutual

/-- Which types a statement declares, and whether one of them stands inside another. -/
theorem Stmt.Drops.types : ∀ {s t : Stmt}, s.Drops fns t →
    (∀ known : KnownTypes, known.scan s = known.scan t) ∧ s.declaredName? = t.declaredName? ∧
      s.nestedType? = t.nestedType?
  | .importDecl _ | .aliasDecl _ | .breakLoop | .continueLoop | .raw _ => by
    rintro rfl
    exact ⟨fun _ => rfl, rfl, rfl⟩
  | .includeDecl _ _ => by
    rintro ⟨_, rfl, h⟩
    exact ⟨h.types.1, rfl, rfl⟩
  | .namespaceDecl _ _ => by
    rintro ⟨_, rfl, h⟩
    exact ⟨h.types.1, rfl, h.types.2.2⟩
  | .typeDecl kind ⟨name, _, _, _, _, _, _⟩ => by
    rintro ⟨_, rfl, _, _, rfl, -, h⟩
    refine ⟨fun known => ?_, rfl, congrArg (Option.map fun inner => (name, inner)) h.types.2.1⟩
    cases kind with
    | interface => rfl
    | cls | struct => exact h.types.1 _
  | .enumDecl ⟨_, _, _, _⟩ => by
    rintro ⟨_, rfl, _, _, rfl, -, -⟩
    exact ⟨fun _ => rfl, rfl, rfl⟩
  | .moduleDecl ⟨_, _, _, _⟩ => by
    rintro ⟨_, rfl, _, _, rfl, -, h⟩
    exact ⟨h.types.1, rfl, h.types.2.2⟩
  | .functionDecl _ _ | .fieldDecl _ | .propertyDecl _ | .binding _ | .ret _ | .expr _ => by
    rintro ⟨_, rfl, _⟩
    exact ⟨fun _ => rfl, rfl, rfl⟩
  | .whileLoop _ _ | .forEach _ _ _ _ | .matchOn _ _ | .switchOn _ _ => by
    rintro ⟨_, _, rfl, _⟩
    exact ⟨fun _ => rfl, rfl, rfl⟩
  | .ifThen _ _ _ => by
    rintro ⟨_, _, _, rfl, _⟩
    exact ⟨fun _ => rfl, rfl, rfl⟩
  | .forLoop _ _ _ _ => by
    rintro ⟨_, _, _, _, rfl, _⟩
    exact ⟨fun _ => rfl, rfl, rfl⟩

/-- Which types some statements declare, and whether one of them stands inside another. -/
theorem Stmt.DropsAll.types : ∀ {ss ts : List Stmt}, Stmt.DropsAll fns ss ts →
    (∀ known : KnownTypes, known.scanAll ss = known.scanAll ts) ∧
      ss.findSome? Stmt.declaredName? = ts.findSome? Stmt.declaredName? ∧
      Stmt.findNestedType? ss = Stmt.findNestedType? ts
  | [] => by
    rintro rfl
    exact ⟨fun _ => rfl, rfl, rfl⟩
  | s :: ss => by
    rintro (⟨hs, h⟩ | ⟨t, ts, rfl, hs, h⟩)
    · obtain ⟨hscan, hname, hnested⟩ := Stmt.types_of_droppable hs
      rw [List.findSome?_cons, hname, Stmt.findNestedType?, hnested]
      refine ⟨fun known => ?_, h.types.2⟩
      rw [KnownTypes.scanAll, hscan]
      exact h.types.1 known
    · obtain ⟨hscan, hname, hnested⟩ := hs.types
      rw [List.findSome?_cons, List.findSome?_cons, hname, Stmt.findNestedType?,
        Stmt.findNestedType?, hnested, h.types.2.1, h.types.2.2]
      refine ⟨fun known => ?_, rfl, rfl⟩
      rw [KnownTypes.scanAll, KnownTypes.scanAll, hscan]
      exact h.types.1 _

end

end SourceGen
