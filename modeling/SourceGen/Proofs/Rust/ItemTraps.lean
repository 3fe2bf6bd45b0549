import SourceGen.Proofs.Rust.CountedLoop
import SourceGen.Proofs.Rust.ItemJumps

/-!
# Trapped jumps in Rust items

Which declarations have a counted loop that traps a jump: the question whether code has a trapped
jump, answered by the traces of what is written.

## Main definitions

* `Rust.trapTest`: the question.
* `Rust.structTraps`, `Rust.itemTraps`: the answer for the members of a type and for items.

## Main results

* `Rust.traps_allItemJumps`: the answer for items is that for their jumps.
-/

namespace SourceGen

namespace Rust

/-- Is there a trapped jump? -/
def trapTest : JumpTest where
  ofShape s := s.trace.traps
  ofMarks := Mark.Trapped
  shape_empty := rfl
  shape_append _ _ := rfl
  shape_closed _ := rfl
  marks_append _ _ := Mark.trapped_append
  marks_iff h := h.tracks.trapped_iff

theorem trapTest_ofShape (s : JumpShape) : trapTest.ofShape s = s.trace.traps := rfl

/-- The initializer of a field has a loop that traps a jump. -/
def fieldTraps (f : Field) : Bool :=
  (Expr.optionTrace f.initializer).traps

/-- An accessor has a loop that traps a jump. -/
def accessorTraps (a : Accessor) : Bool :=
  (Stmt.optionTrace a.body).traps

/-- A function has a loop that traps a jump. -/
def functionTraps (f : Function) : Bool :=
  (f.trace {}).traps

/-- A property has a loop that traps a jump, in its initializer or in an accessor. -/
def propertyTraps (p : Property) : Bool :=
  if p.isAuto then (Expr.optionTrace p.initializer).traps else p.accessors.any accessorTraps

/-- One of the members of a class or struct has a loop that traps a jump. Only the first
constructor counts. -/
def structTraps (hasConstructor : Bool) : List Stmt → Bool
  | [] => false
  | s :: ss =>
    if memberSkipped s then structTraps hasConstructor ss
    else
      match s with
      | .fieldDecl f => fieldTraps f || structTraps hasConstructor ss
      | .propertyDecl p => propertyTraps p || structTraps hasConstructor ss
      | .functionDecl _ f =>
        if f.isConstructor then
          (!hasConstructor && (Stmt.optionTrace f.body).traps) || structTraps true ss
        else functionTraps f || structTraps hasConstructor ss
      | _ => structTraps hasConstructor ss

/-- An attribute has a loop that traps a jump. -/
def attributesTrap (attributes : List Attribute) : Bool :=
  (Attribute.allTrace attributes).traps

/-- One of the methods of an interface has a loop that traps a jump. -/
def traitTraps (members : List Stmt) : Bool :=
  members.any fun
    | .functionDecl _ f => functionTraps f
    | _ => false

/-- The value of a variant has a loop that traps a jump. -/
def variantTraps (v : EnumVariant) : Bool :=
  (Expr.optionTrace v.value).traps

mutual

/-- An item has a loop that traps a jump. -/
def itemTraps : Stmt → Bool
  | .namespaceDecl _ decls => anyItemTraps decls
  | .typeDecl .interface d =>
    !(Marker.of? d.attributes).isSome && (attributesTrap d.attributes || traitTraps d.members)
  | .typeDecl _ d =>
    !(Marker.of? d.attributes).isSome &&
      (attributesTrap d.attributes || structTraps false d.members)
  | .enumDecl d =>
    !(Marker.of? d.attributes).isSome &&
      (attributesTrap d.attributes || d.variants.any variantTraps)
  | .moduleDecl ⟨_, _, attributes, decls⟩ =>
    !(Marker.of? attributes).isSome && (attributesTrap attributes || anyItemTraps decls)
  | .functionDecl _ f => functionTraps f
  | .fieldDecl f => !(Marker.of? f.attributes).isSome && fieldTraps f
  | .includeDecl _ decls => anyItemTraps decls
  | _ => false

/-- One of the items has a loop that traps a jump. -/
def anyItemTraps : List Stmt → Bool
  | [] => false
  | s :: ss => itemTraps s || anyItemTraps ss

end

/-! ### The answers for the jumps of declarations -/

@[simp] theorem traps_fieldJumps (f : Field) : trapTest.ofShape (fieldJumps f) = fieldTraps f := by
  simp [trapTest_ofShape, fieldJumps, fieldTraps]

@[simp] theorem traps_accessorJumps (accessors : List Accessor) :
    trapTest.ofShape (accessorJumps accessors) = accessors.any accessorTraps := by
  rw [accessorJumps, trapTest.shape_join, List.any_map]
  refine congrArg accessors.any (funext fun a => ?_)
  simp [trapTest_ofShape, accessorTraps, JumpShape.trace, Trace.closed]

@[simp] theorem traps_functionJumps (f : Function) :
    trapTest.ofShape (functionJumps f) = functionTraps f := by
  simp [trapTest_ofShape, functionJumps, functionTraps, Function.trace_shape, JumpShape.trace]

@[simp] theorem traps_propertyJumps (p : Property) :
    trapTest.ofShape (propertyJumps p) = propertyTraps p := by
  unfold propertyJumps propertyTraps
  split
  · simp [trapTest_ofShape]
  · simp

@[simp] theorem traps_structJumps (hasConstructor : Bool) (members : List Stmt) :
    trapTest.ofShape (structJumps hasConstructor members) = structTraps hasConstructor members := by
  induction members generalizing hasConstructor with
  | nil => simp [structJumps, structTraps]
  | cons s ss ih =>
    unfold structJumps structTraps
    split
    · exact ih hasConstructor
    cases s with
    | functionDecl kind f =>
      dsimp only
      split
      · cases hasConstructor <;> simp [ih, trapTest_ofShape (Stmt.optionShape f.body)]
      · simp [ih]
    | _ => simp [ih]

@[simp] theorem traps_attributesShape (attributes : List Attribute) :
    trapTest.ofShape (Attribute.allShape attributes) = attributesTrap attributes := by
  rw [trapTest_ofShape, Attribute.trace_allShape, attributesTrap]

@[simp] theorem traps_traitJumps (members : List Stmt) :
    trapTest.ofShape (traitJumps members) = traitTraps members := by
  rw [traitJumps, trapTest.shape_join, List.any_map, traitTraps]
  refine congrArg members.any (funext fun s => ?_)
  cases s <;> simp

@[simp] theorem traps_variantJumps (variants : List EnumVariant) :
    trapTest.ofShape (variantJumps variants) = variants.any variantTraps := by
  rw [variantJumps, trapTest.shape_join, List.any_map]
  refine congrArg variants.any (funext fun v => ?_)
  simp [trapTest_ofShape, variantTraps]

@[simp] theorem traps_unlessMarked (attributes : List Attribute) (s : JumpShape) :
    trapTest.ofShape (unlessMarked attributes s) =
      (!(Marker.of? attributes).isSome && trapTest.ofShape s) := by
  unfold unlessMarked
  split <;> simp_all

mutual

theorem traps_itemJumps : ∀ s : Stmt, trapTest.ofShape (itemJumps s) = itemTraps s
  | .namespaceDecl _ decls => by simp [itemJumps, itemTraps, traps_allItemJumps decls]
  | .typeDecl kind d => by
    cases kind <;> simp [itemJumps, itemTraps]
  | .enumDecl d => by simp [itemJumps, itemTraps]
  | .moduleDecl ⟨_, _, attributes, decls⟩ => by
    simp [itemJumps, itemTraps, traps_allItemJumps decls]
  | .functionDecl _ f => by simp [itemJumps, itemTraps]
  | .fieldDecl f => by simp [itemJumps, itemTraps]
  | .includeDecl _ decls => by simp [itemJumps, itemTraps, traps_allItemJumps decls]
  | .propertyDecl _ | .importDecl _ | .aliasDecl _ | .raw _ | .binding _ | .ifThen _ _ _
  | .whileLoop _ _ | .forLoop _ _ _ _ | .forEach _ _ _ _ | .ret _ | .breakLoop | .continueLoop
  | .matchOn _ _ | .switchOn _ _ | .expr _ => by simp [itemJumps, itemTraps]

theorem traps_allItemJumps : ∀ ss : List Stmt, trapTest.ofShape (allItemJumps ss) = anyItemTraps ss
  | [] => by simp [allItemJumps, anyItemTraps]
  | s :: ss => by
    simp [allItemJumps, anyItemTraps, traps_itemJumps s, traps_allItemJumps ss]

end

end Rust

end SourceGen
