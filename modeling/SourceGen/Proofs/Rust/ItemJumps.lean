import SourceGen.Proofs.Rust.BodyShape
import SourceGen.Rust.Unit

/-!
# The jumps of Rust items

Which jumps a unit has, following what becomes of each declaration: marked declarations, second
constructors and default values are not written. The members of a type are written in another order
than they are declared in, so what is known of the code of items is not a shape but the answers to
questions that do not depend on the order.

## Main definitions

* `Rust.JumpTest`: a question about jumps, to be asked of code and of shapes.
* `Rust.structJumps`, `Rust.itemJumps`, `Rust.unitJumps`: the jumps of the members of a type, of
  items and of units.

## Main results

* `Rust.JumpTest.answers_structCode`: the code of a class or struct.
* `Rust.JumpTest.answers_item`, `Rust.JumpTest.answers_items`: the code of items.
* `Rust.JumpTest.answers_unitCode`: the code of a unit.
-/

namespace SourceGen

open Rust (Shows)

/-- Shapes one behind the other. -/
def JumpShape.join : List JumpShape → JumpShape
  | [] => .empty
  | s :: ss => s ++ join ss

namespace Rust

open Fragment (text)

/-! ### The jumps of declarations -/

/-- The member is marked; a marked method is skipped where it would be written. -/
def memberSkipped : Stmt → Bool
  | .fieldDecl f => (Marker.of? f.attributes).isSome
  | .propertyDecl p => (Marker.of? p.attributes).isSome
  | .functionDecl _ f => f.isConstructor && (Marker.of? f.attributes).isSome
  | _ => false

/-- Whether a member is skipped depends on its attributes alone. -/
theorem always_memberMarked (s : Stmt) : (memberMarked s).Always (· = memberSkipped s) := by
  cases s with
  | fieldDecl f => exact target.always_skipMarked _ _ _
  | propertyDecl p => exact target.always_skipMarked _ _ _
  | functionDecl kind f =>
    rw [memberMarked, memberSkipped]
    split
    · rename_i h
      simpa [h] using target.always_skipMarked _ _ _
    · rename_i h
      exact .pure (by simp [h])
  | _ => exact .pure rfl

/-- The jumps of the initializer of a field. -/
def fieldJumps (f : Field) : JumpShape :=
  Expr.optionShape f.initializer

/-- The jumps of accessors. -/
def accessorJumps (accessors : List Accessor) : JumpShape :=
  .join (accessors.map fun a => .closed (Stmt.optionShape a.body))

/-- The jumps of a property, in its initializer or in its accessors. -/
def propertyJumps (p : Property) : JumpShape :=
  if p.isAuto then Expr.optionShape p.initializer else accessorJumps p.accessors

/-- The jumps of a function. -/
def functionJumps (f : Function) : JumpShape :=
  f.shape .empty

/-- The jumps of the members of a class or struct. Only the first constructor counts. -/
def structJumps (hasConstructor : Bool) : List Stmt → JumpShape
  | [] => .empty
  | s :: ss =>
    if memberSkipped s then structJumps hasConstructor ss
    else
      match s with
      | .fieldDecl f => fieldJumps f ++ structJumps hasConstructor ss
      | .propertyDecl p => propertyJumps p ++ structJumps hasConstructor ss
      | .functionDecl _ f =>
        if f.isConstructor then
          (if hasConstructor then .empty else .closed (Stmt.optionShape f.body)) ++
            structJumps true ss
        else functionJumps f ++ structJumps hasConstructor ss
      | _ => structJumps hasConstructor ss

/-- The jumps of the members of an interface. -/
def traitJumps (members : List Stmt) : JumpShape :=
  .join (members.map fun
    | .functionDecl _ f => functionJumps f
    | _ => .empty)

/-- The jumps of the variants of an enum. -/
def variantJumps (variants : List EnumVariant) : JumpShape :=
  .join (variants.map fun v => Expr.optionShape v.value)

/-- The jumps of a declaration, which is not written if it is marked. -/
def unlessMarked (attributes : List Attribute) (s : JumpShape) : JumpShape :=
  if (Marker.of? attributes).isSome then .empty else s

mutual

/-- The jumps of an item. -/
def itemJumps : Stmt → JumpShape
  | .namespaceDecl _ decls => allItemJumps decls
  | .typeDecl .interface d =>
    unlessMarked d.attributes (Attribute.allShape d.attributes ++ traitJumps d.members)
  | .typeDecl _ d =>
    unlessMarked d.attributes (Attribute.allShape d.attributes ++ structJumps false d.members)
  | .enumDecl d =>
    unlessMarked d.attributes (Attribute.allShape d.attributes ++ variantJumps d.variants)
  | .moduleDecl ⟨_, _, attributes, decls⟩ =>
    unlessMarked attributes (Attribute.allShape attributes ++ allItemJumps decls)
  | .functionDecl _ f => functionJumps f
  | .fieldDecl f => unlessMarked f.attributes (fieldJumps f)
  | .includeDecl _ decls => allItemJumps decls
  | _ => .empty

/-- The jumps of items. -/
def allItemJumps : List Stmt → JumpShape
  | [] => .empty
  | s :: ss => itemJumps s ++ allItemJumps ss

end

/-- The jumps of a unit. Loose statements are written in the entry function, if there is one. -/
def unitJumps (config : Config) (sections : Sections) : JumpShape :=
  allItemJumps sections.containers ++
    .join ((sections.functions.eraseP (·.name == config.entryName)).map functionJumps) ++
    match sections.entry? config.entryName with
    | some f => f.shape (Stmt.allShape sections.loose)
    | none => .closed (Stmt.allShape sections.loose)

/-! ### Members of several implementations -/

/-- What is shared out among the places below `n` and a rest is all there. -/
theorem any_shared {α : Type} (xs : List α) (p : α → Bool) (owner : α → Option Nat) (n : Nat)
    (h : ∀ x i, owner x = some i → i < n) :
    ((xs.filter fun x => (owner x).isNone).any p ||
      (List.range' 0 n).any fun i => (xs.filter fun x => owner x == some i).any p) = xs.any p := by
  rw [Bool.eq_iff_iff]
  simp only [Bool.or_eq_true, List.any_eq_true, List.mem_filter, List.mem_range'_1, beq_iff_eq,
    Option.isNone_iff_eq_none]
  constructor
  · rintro (⟨x, ⟨hx, -⟩, hp⟩ | ⟨i, -, x, ⟨hx, -⟩, hp⟩) <;> exact ⟨x, hx, hp⟩
  · rintro ⟨x, hx, hp⟩
    cases howner : owner x with
    | none => exact .inl ⟨x, ⟨hx, howner⟩, hp⟩
    | some i => exact .inr ⟨i, ⟨Nat.zero_le i, by simpa using h x i howner⟩, x, ⟨hx, howner⟩, hp⟩

/-- The owner of a member is one of the listed traits. -/
theorem lt_of_traitOwner? {env : Env} {traits : List TypeRef} {requires : TraitShape → Bool}
    {i : Nat}
    (h : traitOwner? env traits requires = some i) : i < traits.length :=
  (List.findIdx?_eq_some_iff_getElem.mp h).1

/-! ### Questions about jumps -/

/-- A question about jumps that has the same answer for code and for its shape. It asks whether
there is some jump of a kind, so that it does not matter in which order code is written. -/
structure JumpTest where
  ofShape : JumpShape → Bool
  ofMarks : List Mark → Prop
  shape_empty : ofShape .empty = false
  shape_append : ∀ s t, ofShape (s ++ t) = (ofShape s || ofShape t)
  shape_closed : ∀ s, ofShape (.closed s) = ofShape s
  marks_append : ∀ ms ms', ofMarks (ms ++ ms') ↔ ofMarks ms ∨ ofMarks ms'
  marks_iff : ∀ {s ms}, Shows none s ms → (ofMarks ms ↔ ofShape s = true)

namespace JumpTest

attribute [simp] shape_empty shape_append shape_closed marks_append

variable (test : JumpTest)

/-- The test of joined shapes is passed when one of them passes it. -/
@[simp] theorem shape_join (ss : List JumpShape) :
    test.ofShape (.join ss) = ss.any test.ofShape := by
  induction ss with
  | nil => simp [JumpShape.join]
  | cons s ss ih => simp [JumpShape.join, ih]

@[simp] theorem not_marks_nil : ¬ test.ofMarks [] := by
  simp [test.marks_iff .empty]

/-- The answer for the code is `b`. -/
def Answers (b : Bool) (cs : List Code) : Prop :=
  test.ofMarks (Code.allMarks cs) ↔ b = true

variable {test} {a b : Bool} {cs ds : List Code} {s : JumpShape}

/-- Code that shows a shape answers the test of that shape. -/
theorem answers_of_shows (h : Shows none s (Code.allMarks cs)) :
    test.Answers (test.ofShape s) cs :=
  test.marks_iff h

namespace Answers

theorem nil : test.Answers false [] := by
  simp [Answers]

/-- Two parts answer the test together. -/
theorem append (h : test.Answers a cs) (h' : test.Answers b ds) :
    test.Answers (a || b) (cs ++ ds) := by
  unfold Answers at *
  simp [h, h']

/-- A line without jumps. -/
theorem text (s : String) : test.Answers false [.text s] := by
  simp [Answers, Code.text]

/-- Lines without jumps. -/
theorem texts {α : Type} (xs : List α) (line : α → String) :
    test.Answers false (xs.map fun x => .text (line x)) := by
  induction xs with
  | nil => exact nil
  | cons x xs ih => exact (text (line x)).append ih

theorem congr (h : test.Answers a cs) (hab : a = b) : test.Answers b cs :=
  hab ▸ h

/-- A separator has no jump. -/
theorem separator (h : test.Answers a cs) : test.Answers a (.separator :: cs) := by
  simpa [Answers] using h

theorem blank (h : test.Answers a cs) : test.Answers a (.blank :: cs) := by
  simpa [Answers, Code.marks] using h

/-- A plain block answers the test as its body does. -/
theorem plain (h : test.Answers a cs) (header suffix : String) :
    test.Answers a [.block .plain (Fragment.text header) cs suffix] := by
  simpa [Answers, Code.marks_plain] using h

/-- The body of a function. -/
theorem function (h : Shows none s (Code.allMarks cs)) (header suffix : String) :
    test.Answers (test.ofShape s) [.block .function (Fragment.text header) cs suffix] := by
  rw [← test.shape_closed]
  refine answers_of_shows ?_
  rw [Code.allMarks_singleton, Code.marks_block rfl, Piece.allMarks_text, List.nil_append]
  exact h.closed

end Answers

variable {env : Env} {place : Place}

/-- A marked declaration is not written. -/
theorem answers_unlessMarked {kind name : String} {attributes : List Attribute}
    {rest : Gen (List Code)} (h : rest.Always (test.Answers (test.ofShape s))) :
    (target.skipMarked kind name attributes >>= fun skipped =>
      if skipped = true then return [] else rest).Always
        (test.Answers (test.ofShape (unlessMarked attributes s))) := by
  refine .bind (target.always_skipMarked _ _ _) fun skipped hskipped => ?_
  rw [unlessMarked, ← hskipped]
  cases skipped with
  | true => exact .pure (by simpa using .nil)
  | false => exact h

/-! ### Members of types -/

variable (test)

/-- A raw block has no jump of its own. -/
theorem answers_rawCode (raw : RawBlock) :
    (target.rawCode raw).Always (test.Answers false) :=
  (allMarks_rawCode raw).mono fun cs hcs => by simp [Answers, hcs]

theorem answers_rawCodes (raws : List RawBlock) :
    (target.rawCodes raws).Always (test.Answers false) := by
  induction raws with
  | nil => exact .pure .nil
  | cons raw raws ih =>
    exact .bind (answers_rawCode test raw) fun cs hcs =>
      .bind ih fun ds hds => .pure (hcs.append hds)

/-- The jumps of the initial value of a field of a struct. -/
def specJumps (f : FieldSpec) : JumpShape :=
  Expr.optionShape f.init

section NoLabel

variable (hplace : place.continueLabel = none)

include hplace

/-- A constant answers by the value it has. -/
theorem answers_constCode (f : Field) :
    (constCode env place f).Always (test.Answers (test.ofShape (fieldJumps f))) := by
  unfold constCode fieldJumps
  split
  · rename_i h
    rw [h, Expr.optionShape, test.shape_empty]
    exact .after fun _ => .pure .nil
  · rename_i init h
    rw [h, Expr.optionShape]
    refine .after fun type => .bind (shows_expr init) fun g hg => .pure (answers_of_shows ?_)
    simpa [hplace] using hg

theorem answers_constCodes (fs : List Field) :
    (constCodes env place fs).Always
      (test.Answers (fs.any fun f => test.ofShape (fieldJumps f))) := by
  induction fs with
  | nil => exact .pure .nil
  | cons f fs ih =>
    exact .bind (answers_constCode test hplace f) fun cs hcs => .bind ih fun ds hds =>
      .pure (hcs.append hds)

/-- The values of the fields show their shapes, in order. -/
theorem shows_fieldValues (fs : List FieldSpec) :
    (fieldValues env place fs).Always fun cs =>
      Shows none (.join (fs.map specJumps)) (Code.allMarks cs) := by
  induction fs with
  | nil => exact .pure (by simpa using .empty)
  | cons f fs ih =>
    refine .bind (shows_ownedOption f.init) fun o ho => .bind ih fun ds hds => .pure ?_
    rw [hplace] at ho
    have hline : Shows none (specJumps f) (Code.allMarks [.line (text (ident f.name ++ ": ") ++
        o.getD (text "Default::default()") ++ text ",")]) := by
      cases o <;> simpa [optionMarks, specJumps] using ho
    simpa [JumpShape.join] using hline.append hds

/-- Accessors answer by their bodies. -/
theorem answers_accessorBodies {inTrait : Bool} {shown name type : String}
    (accessors : List Accessor) :
    (accessorBodies env place inTrait shown name type accessors).Always
      (test.Answers (test.ofShape (accessorJumps accessors))) := by
  induction accessors with
  | nil => exact .pure (by simpa [accessorJumps] using .nil)
  | cons a accessors ih =>
    have hjumps : test.ofShape (accessorJumps (a :: accessors)) =
        (test.ofShape (Stmt.optionShape a.body) || test.ofShape (accessorJumps accessors)) := by
      simp [accessorJumps]
    rw [accessorBodies, hjumps]
    split
    · rename_i h
      rw [h, Stmt.optionShape, test.shape_empty, Bool.false_or]
      exact ih
    · rename_i body h
      rw [h, Stmt.optionShape]
      refine .bind (shows_stmts body) fun cs hcs => .bind ih fun ds hds => .pure ?_
      rw [hplace] at hcs
      exact ((Answers.function hcs _ "").append hds).separator

theorem answers_accessorCode {inTrait : Bool} (p : Property) :
    (accessorCode env place inTrait p).Always
      (test.Answers (test.ofShape (accessorJumps p.accessors))) :=
  .after fun _ => answers_accessorBodies test hplace p.accessors

theorem answers_accessorCodes {inTrait : Bool} (ps : List Property) :
    (accessorCodes env place inTrait ps).Always
      (test.Answers (ps.any fun p => test.ofShape (accessorJumps p.accessors))) := by
  induction ps with
  | nil => exact .pure .nil
  | cons p ps ih =>
    exact .bind (answers_accessorCode test hplace p) fun cs hcs => .bind ih fun ds hds =>
      .pure (hcs.append hds)

/-- A function answers by its parameters and its body. -/
theorem answers_function {options : FunctionOptions} (f : Function) :
    (function env place options (fun _ => return []) f).Always
      (test.Answers (test.ofShape (functionJumps f))) :=
  (shows_function none f hplace fun _ _ => .pure (by simpa using .empty)).mono fun _ h =>
    answers_of_shows h

/-- Inherent methods answer when one of them does. -/
theorem answers_inherentMethods (fs : List Function) :
    (inherentMethods env place fs).Always
      (test.Answers (fs.any fun f => test.ofShape (functionJumps f))) := by
  induction fs with
  | nil => exact .pure .nil
  | cons f fs ih =>
    exact .bind (answers_function test hplace f) fun cs hcs => .bind ih fun ds hds =>
      .pure (hcs.append hds).separator

/-- The methods of a trait answer when one of them does. -/
theorem answers_traitMethods {trait : String} (fs : List Function) :
    (traitMethods env place trait fs).Always
      (test.Answers (fs.any fun f => test.ofShape (functionJumps f))) := by
  induction fs with
  | nil => exact .pure .nil
  | cons f fs ih =>
    exact .bind (answers_function test hplace f) fun cs hcs => .bind ih fun ds hds =>
      .pure (hcs.append hds).separator

/-- Attributes answer by their arguments. -/
theorem answers_attributeLines (attributes : List Attribute) :
    (attributeLines env place attributes).Always
      (test.Answers (test.ofShape (Attribute.allShape attributes))) :=
  (shows_attributeLines none attributes hplace).mono fun _ h => answers_of_shows h

end NoLabel

/-! ### Classes and structs -/

/-- The answer for the sorted members. -/
def ofParts (test : JumpTest) (parts : StructParts) : Bool :=
  (parts.consts.any fun f => test.ofShape (fieldJumps f)) ||
    (parts.fields.any fun f => test.ofShape (specJumps f)) ||
    test.ofShape (Stmt.optionShape (parts.constructor.bind (·.body))) ||
    (parts.accessors.any fun p => test.ofShape (accessorJumps p.accessors)) ||
    parts.methods.any fun f => test.ofShape (functionJumps f)

/-- Sorting the members loses none that is written. -/
theorem ofParts_structParts {owner : String} (hasConstructor : Bool) (members : List Stmt) :
    (structParts env place owner hasConstructor members).Always fun parts =>
      test.ofParts parts = test.ofShape (structJumps hasConstructor members) ∧
        (hasConstructor = true → parts.constructor = none) := by
  induction members generalizing hasConstructor with
  | nil => exact .pure ⟨by simp [ofParts, structJumps, Stmt.optionShape], fun _ => rfl⟩
  | cons s ss ih =>
    unfold structParts structJumps
    refine .bind (always_memberMarked s) fun skipped hskipped => ?_
    rw [← hskipped]
    split
    · exact ih hasConstructor
    rename_i h
    cases s with
    | fieldDecl f =>
      dsimp only
      rw [test.shape_append]
      -- A constant and a field are written in different places, but both are written.
      split
      · refine .bind (ih hasConstructor) fun rest hrest => .pure ⟨?_, hrest.2⟩
        rw [← hrest.1]
        simp [ofParts, Bool.or_assoc]
      · refine .after fun type => .bind (ih hasConstructor) fun rest hrest => .pure ⟨?_, hrest.2⟩
        rw [← hrest.1]
        simp [ofParts, specJumps, fieldJumps, Bool.or_assoc, Bool.or_left_comm]
    | propertyDecl p =>
      dsimp only [propertyJumps]
      rw [test.shape_append]
      split
      · refine .after fun type => .bind (ih hasConstructor) fun rest hrest => .pure ⟨?_, hrest.2⟩
        rw [← hrest.1]
        simp [ofParts, specJumps, Bool.or_assoc, Bool.or_left_comm]
      · refine .bind (ih hasConstructor) fun rest hrest => .pure ⟨?_, hrest.2⟩
        rw [← hrest.1]
        simp [ofParts, Bool.or_assoc, Bool.or_left_comm]
    | functionDecl kind f =>
      dsimp only
      split
      · rw [test.shape_append]
        -- Only the first constructor is written.
        split
        · rw [test.shape_empty, Bool.false_or]
          exact .after fun _ => (ih true).mono fun rest hrest => ⟨hrest.1, fun _ => hrest.2 rfl⟩
        · refine .bind (ih true) fun rest hrest => .pure ⟨?_, by simp_all⟩
          rw [← hrest.1, test.shape_closed]
          simp [ofParts, hrest.2 rfl, Stmt.optionShape, Bool.or_assoc, Bool.or_left_comm]
      · refine .bind (ih hasConstructor) fun rest hrest => .pure ⟨?_, hrest.2⟩
        rw [test.shape_append, ← hrest.1]
        simp [ofParts, Bool.or_assoc, Bool.or_left_comm]
    | raw block =>
      refine .bind (ih hasConstructor) fun rest hrest => .pure ⟨?_, hrest.2⟩
      rw [← hrest.1]
      rfl
    | _ => exact .after fun _ => ih hasConstructor

/-- A constructor answers by the fields it fills in and by its own body. -/
theorem answers_constructorCode {constructor : Option Function} {fields : List FieldSpec}
    (hplace : place.continueLabel = none) :
    (constructorCode env place constructor fields).Always fun code => test.Answers
      ((fields.any fun f => test.ofShape (specJumps f)) ||
        test.ofShape (Stmt.optionShape (constructor.bind (·.body)))) [code] := by
  have hinner : { place with inConstructor := true, inStatic := true : Place }.continueLabel =
      none := hplace
  refine .after fun params => .bind (shows_fieldValues hinner fields) fun values hvalues => ?_
  -- A constructor without a body is written like one with an empty body.
  have hbody : test.ofShape (Stmt.optionShape (constructor.bind (·.body))) =
      test.ofShape (Stmt.allShape ((constructor.bind (·.body)).getD [])) := by
    cases constructor.bind (·.body) <;> simp [Stmt.optionShape, Stmt.allShape]
  have hfields : (fields.any fun f => test.ofShape (specJumps f)) =
      test.ofShape (.join (fields.map specJumps)) := by
    rw [test.shape_join, List.any_map]
    rfl
  rw [hbody, hfields, ← test.shape_append]
  split
  · rename_i h
    rw [h, Stmt.allShape]
    exact .pure (.function (by simpa [Code.marks_plain] using hvalues.beforeEmpty) _ "")
  · refine .bind (shows_stmts _) fun cs hcs => .pure (.function ?_ _ "")
    simpa [Code.marks_plain, Code.text] using hvalues.append (hplace ▸ hcs)

theorem answers_baseTraits {owner : String} {base : Option TypeRef} :
    (baseTraits env owner base).Always fun r => test.Answers false r.2 := by
  unfold baseTraits
  split
  · exact .pure .nil
  · split
    · exact .pure .nil
    · exact .after fun _ => .pure (by simp [Answers, Code.comment])

theorem answers_listedTraits {owner : String} (ts : List TypeRef) :
    (listedTraits env owner ts).Always fun r => test.Answers false r.2 := by
  induction ts with
  | nil => exact .pure .nil
  | cons t ts ih =>
    rw [listedTraits]
    split
    · exact .bind ih fun r hr => .pure hr
    · refine .after fun _ => .bind ih fun r hr => .pure ?_
      simpa [Answers, Code.comment] using hr

/-- The accessors that stand for a field have no jump. -/
theorem answers_backedAccessors (fs : List FieldSpec) (setter : FieldSpec → Bool) :
    test.Answers false (fs.flatMap fun f => backedAccessors f (setter f)) := by
  have hbody (head line : String) :
      test.Answers false [.block .function (text head) [.text line] ""] :=
    (Answers.function (by simpa [Code.text] using .empty) head "").congr test.shape_empty
  induction fs with
  | nil => exact .nil
  | cons f fs ih =>
    have hsetter : test.Answers false (if setter f then
        [.blank,
          .block .function (text ("fn set_" ++ f.name ++ "(&mut self, value: " ++ f.type ++ ")"))
            [.text ("self." ++ ident f.name ++ " = value;")] ""] else []) := by
      split
      · exact (hbody _ _).blank
      · exact .nil
    exact ((hbody _ _).separator.append hsetter).append ih

/-- The answer for the members that go into the implementation of the trait at this place. -/
def ofImpl (test : JumpTest) (env : Env) (traits : List TypeRef) (parts : StructParts)
    (index : Nat) : Bool :=
  ((parts.accessors.filter fun p => propertyOwner? env traits p.name == some index).any
      fun p => test.ofShape (accessorJumps p.accessors)) ||
    (parts.methods.filter fun f => methodOwner? env traits f == some index).any
      fun f => test.ofShape (functionJumps f)

/-- An impl answers by the members that fall to its trait. -/
theorem answers_traitImpl {owner bounds args : String} {traits : List TypeRef}
    {parts : StructParts} {index : Nat} {trait : TypeRef} (hplace : place.continueLabel = none) :
    (traitImpl env place owner bounds args traits parts index trait).Always
      (test.Answers (test.ofImpl env traits parts index)) := by
  refine .after fun spelling => .bind (answers_accessorCodes test hplace _) fun cs hcs => ?_
  refine .bind (answers_traitMethods test hplace _) fun ds hds => .pure ?_
  exact ((((answers_backedAccessors test _ _).append hcs).append hds).plain _ "").blank

/-- The impls of a struct answer by the members that fall to one of its traits. -/
theorem answers_traitImpls {owner bounds args : String} {traits : List TypeRef}
    {parts : StructParts} (hplace : place.continueLabel = none) (index : Nat)
    (ts : List TypeRef) :
    (traitImpls env place owner bounds args traits parts index ts).Always
      (test.Answers ((List.range' index ts.length).any (test.ofImpl env traits parts))) := by
  induction ts generalizing index with
  | nil => exact .pure .nil
  | cons t ts ih =>
    rw [List.length_cons, List.range'_succ, List.any_cons]
    exact .bind (answers_traitImpl test hplace) fun cs hcs => .bind (ih (index + 1)) fun ds hds =>
      .pure (hcs.append hds)

/-- Every sorted member is written in the inherent implementation or in one of the traits. -/
theorem any_ofImpl (env : Env) (traits : List TypeRef) (parts : StructParts) :
    (((parts.accessors.filter fun p => (propertyOwner? env traits p.name).isNone).any
        fun p => test.ofShape (accessorJumps p.accessors)) ||
      ((parts.methods.filter fun f => (methodOwner? env traits f).isNone).any
        fun f => test.ofShape (functionJumps f)) ||
      (List.range' 0 traits.length).any (test.ofImpl env traits parts)) =
    ((parts.accessors.any fun p => test.ofShape (accessorJumps p.accessors)) ||
      parts.methods.any fun f => test.ofShape (functionJumps f)) := by
  have haccessors := any_shared parts.accessors
    (fun p => test.ofShape (accessorJumps p.accessors))
    (fun p => propertyOwner? env traits p.name) traits.length fun _ _ => lt_of_traitOwner?
  have hmethods := any_shared parts.methods (fun f => test.ofShape (functionJumps f))
    (methodOwner? env traits) traits.length fun _ _ => lt_of_traitOwner?
  rw [← haccessors, ← hmethods, Bool.eq_iff_iff]
  simp only [ofImpl, Bool.or_eq_true, List.any_eq_true]
  constructor
  · rintro ((h | h) | ⟨i, hi, h | h⟩)
    · exact .inl (.inl h)
    · exact .inr (.inl h)
    · exact .inl (.inr ⟨i, hi, h⟩)
    · exact .inr (.inr ⟨i, hi, h⟩)
  · rintro ((h | ⟨i, hi, h⟩) | (h | ⟨i, hi, h⟩))
    · exact .inl (.inl h)
    · exact .inr ⟨i, hi, .inl h⟩
    · exact .inl (.inr h)
    · exact .inr ⟨i, hi, .inr h⟩

theorem answers_structBlock (head : String) (fields : List FieldSpec) :
    test.Answers false [structBlock head fields] := by
  unfold structBlock
  split
  · exact .text _
  · exact (Answers.texts fields _).plain head ""

theorem answers_deriveLine (attributes : List Attribute) (fields : List FieldSpec) :
    test.Answers false (deriveLine attributes fields) := by
  unfold deriveLine
  split
  · exact .nil
  · exact .text _

/-- A struct answers by its attributes and its members, unless it is marked. -/
theorem answers_structCode (d : TypeDecl) :
    (structCode env d).Always (test.Answers (test.ofShape
      (unlessMarked d.attributes
        (Attribute.allShape d.attributes ++ structJumps false d.members)))) := by
  refine answers_unlessMarked ?_
  refine .bind (ofParts_structParts test false d.members) fun parts hparts => ?_
  refine .bind (answers_baseTraits test) fun base hbase => ?_
  refine .bind (answers_listedTraits test _) fun listed hlisted => ?_
  refine .bind (answers_attributeLines test rfl _) fun ls hls => .after fun bounds => ?_
  refine .bind (answers_constCodes test rfl _) fun consts hconsts => ?_
  refine .bind (answers_constructorCode test rfl) fun ctor hctor => ?_
  refine .bind (answers_accessorCodes test rfl _) fun as has => ?_
  refine .bind (answers_inherentMethods test rfl _) fun ms hms => ?_
  refine .bind (answers_rawCodes test _) fun rs hrs => ?_
  refine .bind (answers_traitImpls test rfl 0 _) fun impls himpls => .pure ?_
  have hinherent := (((hconsts.append (hctor.append has)).append hms).append hrs).plain
    ("impl" ++ bounds ++ " " ++ ident d.name ++ genericArgs d.generics) ""
  have hlines := ((hbase.append hlisted).append hls).append
    (answers_deriveLine test d.attributes parts.fields)
  have hstruct := answers_structBlock test
    (visibility d.modifiers true ++ "struct " ++ ident d.name ++ bounds) parts.fields
  refine (hlines.append (hstruct.append (hinherent.append himpls).blank)).separator.congr ?_
  -- Accessors and methods are shared out among the implementations; together they are all there.
  rw [test.shape_append, ← hparts.1, ofParts, Bool.or_assoc _ _ (parts.methods.any _),
    ← any_ofImpl test env (base.1 ++ listed.1) parts]
  simp [Bool.or_assoc]

/-! ### Traits, enums and modules -/

/-- A marked function is not written. -/
theorem shape_of_marker {before : JumpShape} {f : Function}
    (h : (Marker.of? f.attributes).isSome) : f.shape before = .empty := by
  cases f
  simp_all [Function.shape]

/-- The members of a trait answer together. -/
theorem answers_traitMembers {owner : String} (hplace : place.continueLabel = none)
    (members : List Stmt) :
    (traitMembers env place owner members).Always
      (test.Answers (test.ofShape (traitJumps members))) := by
  induction members with
  | nil => exact .pure (by simpa [traitJumps] using .nil)
  | cons s ss ih =>
    unfold traitMembers traitJumps
    rw [List.map_cons, JumpShape.join, test.shape_append]
    refine .bind (always_memberMarked s) fun skipped hskipped => ?_
    -- A marked constructor is skipped here, and a marked method where it would be written.
    split
    · rename_i h
      refine ih.mono fun cs hcs => hcs.congr ?_
      cases s with
      | functionDecl kind f =>
        have hmark : f.isConstructor = true ∧ (Marker.of? f.attributes).isSome = true := by
          simpa [h, memberSkipped] using hskipped.symm
        simp [traitJumps, functionJumps, shape_of_marker hmark.2]
      | _ => simp [traitJumps]
    cases s with
    | functionDecl kind f =>
      exact .bind (answers_function test hplace f) fun cs hcs => .bind ih fun ds hds =>
        .pure (hcs.append hds).separator
    | propertyDecl p =>
      refine .after fun type => .bind ih fun ds hds => .pure ?_
      have hsetter : test.Answers false (if p.accessors.any TraitShape.isSetter then
          [.text ("fn set_" ++ p.name ++ "(&mut self, value: " ++ type ++ ");")] else []) := by
        split
        · exact .text _
        · exact .nil
      exact (((Answers.text _).append hsetter).append hds).congr (by simp [traitJumps])
    | _ => exact .after fun _ => ih.mono fun cs hcs => hcs.congr (by simp [traitJumps])

/-- A trait answers by its attributes and its members, unless it is marked. -/
theorem answers_traitCode (d : TypeDecl) :
    (traitCode env d).Always (test.Answers (test.ofShape
      (unlessMarked d.attributes (Attribute.allShape d.attributes ++ traitJumps d.members)))) := by
  refine answers_unlessMarked ?_
  refine .bind (answers_attributeLines test rfl _) fun ls hls => .after fun supertraits => ?_
  refine .after fun bounds => .bind (answers_traitMembers test rfl _) fun cs hcs => .pure ?_
  exact (hls.append (hcs.plain _ "")).separator.congr (test.shape_append _ _).symm

theorem answers_variantLines (vs : List EnumVariant) :
    (variantLines env vs).Always (test.Answers (test.ofShape (variantJumps vs))) := by
  induction vs with
  | nil => exact .pure (by simpa [variantJumps] using .nil)
  | cons v vs ih =>
    have hjumps : test.ofShape (variantJumps (v :: vs)) =
        (test.ofShape (Expr.optionShape v.value) || test.ofShape (variantJumps vs)) := by
      simp [variantJumps]
    simp only [variantLines, hjumps, pure_bind]
    split
    · rename_i value h
      refine .bind (shows_expr value) fun f hf => .bind ih fun ds hds => .pure ?_
      have hline : test.Answers (test.ofShape (Expr.optionShape v.value))
          [.line (text (ident v.name ++ " = ") ++ f ++ text ",")] := by
        rw [h, Expr.optionShape]
        exact answers_of_shows (by simpa using hf)
      exact hline.append hds
    · rename_i h
      refine .bind ih fun ds hds => .pure ?_
      have hline : test.Answers (test.ofShape (Expr.optionShape v.value))
          [.line (text (ident v.name ++ ","))] := by
        simp [Answers, h, Expr.optionShape]
      exact hline.append hds

/-- An enumeration answers by its attributes and its variants, unless it is marked. -/
theorem answers_enumCode (d : EnumDecl) :
    (enumCode env d).Always (test.Answers (test.ofShape
      (unlessMarked d.attributes
        (Attribute.allShape d.attributes ++ variantJumps d.variants)))) := by
  refine answers_unlessMarked ?_
  refine .bind (answers_attributeLines test rfl _) fun ls hls => ?_
  refine .bind (answers_variantLines test _) fun cs hcs => .pure ?_
  have hderived : test.Answers false (if d.attributes.any (·.name == "derive") then []
      else [.text "#[derive(Debug, Clone, Copy, PartialEq, Eq)]"]) := by
    split
    · exact .nil
    · exact .text _
  exact ((hls.append hderived).append (hcs.plain _ "")).separator.congr (by simp)

/-- Modules around code have no jump of their own. -/
theorem answers_nestedMods (h : test.Answers a cs) (parts : List String) :
    test.Answers a (nestedMods cs parts) := by
  induction parts with
  | nil => exact h
  | cons part parts ih => exact (((Answers.text _).append ih).congr (by simp)).plain _ ""

mutual

/-- An item answers by its shape. -/
theorem answers_item {place : Place} {host : Host} (hplace : place.continueLabel = none) :
    ∀ s : Stmt, (item env place host s).Always (test.Answers (test.ofShape (itemJumps s)))
  | .namespaceDecl name decls => by
    rw [item, itemJumps]
    exact .bind (answers_separatedItems decls) fun cs hcs =>
      .pure (answers_nestedMods test hcs _).separator
  | .typeDecl kind d => by
    cases kind with
    | interface =>
      rw [item, itemJumps]
      exact answers_traitCode test d
    | _ =>
      simp only [item, itemJumps]
      exact answers_structCode test d
  | .enumDecl d => by
    rw [item, itemJumps]
    exact answers_enumCode test d
  | .moduleDecl ⟨name, modifiers, attributes, decls⟩ => by
    rw [item, itemJumps]
    refine answers_unlessMarked ?_
    refine .bind (answers_attributeLines test rfl _) fun ls hls => ?_
    refine .bind (answers_items rfl decls) fun cs hcs => .pure ?_
    have hbody := ((Answers.text "use super::*;").append hcs).plain
      (visibility modifiers true ++ "mod " ++ ident name) ""
    exact (hls.append hbody).separator.congr (by simp)
  | .functionDecl kind f => by
    rw [item, itemJumps]
    exact .bind (answers_function test hplace f) fun cs hcs => .pure hcs.separator
  | .fieldDecl f => by
    rw [item, itemJumps]
    split
    · exact answers_unlessMarked (answers_constCode test hplace f)
    · exact .fail _
  | .propertyDecl _ => by
    rw [item]
    exact .fail _
  | .importDecl d => by
    rw [item, itemJumps.eq_def]
    exact .pure (by simpa using .text _)
  | .aliasDecl d => by
    rw [item, itemJumps.eq_def]
    exact .after fun _ => .pure (by simpa using .text _)
  | .includeDecl _ decls => by
    rw [item, itemJumps]
    exact answers_items hplace decls
  | .raw block => by
    rw [item, itemJumps.eq_def]
    exact (answers_rawCode test block).mono fun _ h => by simpa using h
  | .binding _ | .ifThen _ _ _ | .whileLoop _ _ | .forLoop _ _ _ _ | .forEach _ _ _ _ | .ret _
  | .breakLoop | .continueLoop | .matchOn _ _ | .switchOn _ _ | .expr _ => by
    rw [item.eq_def, itemJumps.eq_def]
    exact .after fun _ => .pure (by simpa using .nil)

/-- Items answer when one of them does. -/
theorem answers_items {place : Place} {host : Host} (hplace : place.continueLabel = none) :
    ∀ ss : List Stmt,
      (items env place host ss).Always (test.Answers (test.ofShape (allItemJumps ss)))
  | [] => by
    rw [items, allItemJumps]
    exact .pure (by simpa using .nil)
  | s :: ss => by
    rw [items, allItemJumps, test.shape_append]
    exact .bind (answers_item hplace s) fun cs hcs => .bind (answers_items hplace ss) fun ds hds =>
      .pure (hcs.append hds)

theorem answers_separatedItems :
    ∀ ss : List Stmt,
      (separatedItems env ss).Always (test.Answers (test.ofShape (allItemJumps ss)))
  | [] => by
    rw [separatedItems, allItemJumps]
    exact .pure (by simpa using .nil)
  | s :: ss => by
    rw [separatedItems, allItemJumps, test.shape_append]
    exact .bind (answers_item rfl s) fun cs hcs => .bind (answers_separatedItems ss) fun ds hds =>
      .pure (hcs.append hds).separator

end

/-! ### Units -/

theorem answers_separatedRawCodes (raws : List RawBlock) :
    (target.separatedRawCodes raws).Always (test.Answers false) := by
  induction raws with
  | nil => exact .pure .nil
  | cons raw raws ih =>
    exact .bind (answers_rawCode test raw) fun cs hcs => .bind ih fun ds hds =>
      .pure (hcs.append hds).separator

/-- Behind the entry function all functions are written. -/
theorem answers_plainFunctions_true (fs : List Function) :
    (plainFunctions env true fs).Always
      (test.Answers (test.ofShape (.join (fs.map functionJumps)))) := by
  induction fs with
  | nil => exact .pure (by simpa using .nil)
  | cons f fs ih =>
    rw [List.map_cons, JumpShape.join, test.shape_append]
    exact .bind (answers_function test rfl f) fun cs hcs => .bind ih fun ds hds =>
      .pure (hcs.append hds).separator

/-- Functions other than the entry answer by their shapes. -/
theorem answers_plainFunctions (fs : List Function) :
    (plainFunctions env false fs).Always (test.Answers (test.ofShape
      (.join ((fs.eraseP (·.name == env.config.entryName)).map functionJumps)))) := by
  induction fs with
  | nil => exact .pure (by simpa using .nil)
  | cons f fs ih =>
    rw [plainFunctions]
    split
    · rename_i h
      rw [List.eraseP_cons_of_pos (by simpa using h)]
      exact answers_plainFunctions_true test fs
    · rename_i h
      rw [List.eraseP_cons_of_neg (by simpa using h), List.map_cons, JumpShape.join,
        test.shape_append]
      exact .bind (answers_function test rfl f) fun cs hcs => .bind ih fun ds hds =>
        .pure (hcs.append hds).separator

theorem answers_exitMain : test.Answers false exitMain :=
  ((Answers.function (by simpa [Code.text] using .empty) _ "").congr test.shape_empty).blank

/-- The entry point behind an entry function that returns a value. -/
theorem answers_exitMain_if (p : Bool) : test.Answers false (if p then exitMain else []) := by
  cases p with
  | false => exact .nil
  | true => exact answers_exitMain test

/-- The entry answers by its own body and the loose code in front of it. -/
theorem answers_entryCode (f : Function) (loose : List Stmt) :
    (entryCode env f loose).Always fun r =>
      test.Answers (test.ofShape (f.shape (Stmt.allShape loose))) r.1 := by
  have hloose : ∀ place : Place, place.continueLabel = none → (stmts env place loose).Always
      fun cs => Shows none (Stmt.allShape loose) (Code.allMarks cs) :=
    fun place hplace => hplace ▸ shows_stmts loose
  unfold entryCode
  extract_lets +lift build
  have hbuild : (build ()).Always fun r =>
      test.Answers (test.ofShape (f.shape (Stmt.allShape loose))) r.1 := by
    refine .after fun declared => ?_
    refine .bind (shows_function none f rfl hloose) fun cs hcs => .pure ?_
    exact ((answers_of_shows hcs).separator.append (answers_exitMain_if test _)).congr
      (Bool.or_false _)
  -- The loose statements are lost together with a marked entry function.
  split
  · rename_i h
    rw [shape_of_marker h]
    refine .bind (answers_function test rfl f) fun cs hcs => .pure (hcs.congr ?_)
    rw [functionJumps, shape_of_marker h]
  · split
    · exact .after fun _ => hbuild
    · exact hbuild

/-- Loose code alone is the body of `main`, which closes its jumps. -/
theorem answers_looseMain (loose : List Stmt) :
    (looseMain env loose).Always
      (test.Answers (test.ofShape (.closed (Stmt.allShape loose)))) := by
  rw [test.shape_closed]
  refine .bind (shows_stmts loose) fun cs hcs => ?_
  split
  · exact .pure (((Answers.function hcs _ "").separator.append (answers_exitMain test)).congr
      (Bool.or_false _))
  · exact .pure (Answers.function hcs _ "").separator

/-- The whole unit answers by its functions, its loose code and its items. -/
theorem answers_unitCode (sections : Sections) :
    (unitCode env sections).Always fun r =>
      test.Answers (test.ofShape (unitJumps env.config sections)) r.1 := by
  unfold unitCode
  extract_lets +lift build
  -- A misplaced member ends the run before anything is written.
  have hbuild : (build ()).Always fun r =>
      test.Answers (test.ofShape (unitJumps env.config sections)) r.1 := by
    refine .bind (answers_separatedRawCodes test _) fun raws hraws => ?_
    refine .bind (answers_items test rfl _) fun cs hcs => ?_
    refine .bind (answers_plainFunctions test _) fun fs hfs => ?_
    extract_lets +lift check
    -- The last check can fail but writes nothing.
    have hcheck : ∀ (r : List Code × Bool) (s : JumpShape), test.Answers (test.ofShape s) r.1 →
        (check r).Always fun r => test.Answers (test.ofShape (allItemJumps sections.containers ++
          .join ((sections.functions.eraseP (·.name == env.config.entryName)).map functionJumps) ++
            s)) r.1 := by
      intro r s hr
      dsimp only [check]
      split
      · exact .failed _
      · exact .pure ((((hraws.append hcs).append hfs).append hr).congr (by simp))
    unfold unitJumps
    cases sections.entry? env.config.entryName with
    | some f => exact .bind (answers_entryCode test f _) fun r hr => hcheck r _ hr
    | none =>
      dsimp only
      split
      · rename_i hempty
        rw [List.isEmpty_iff.mp hempty, Stmt.allShape]
        exact hcheck ([], false) _ (by simpa using .nil)
      · exact .bind (answers_looseMain test _) fun code hcode => hcheck (code, true) _ hcode
  split
  · split
    · exact .failed _
    · exact .failed _
    · exact hbuild
  · exact hbuild

end JumpTest

end Rust

end SourceGen
