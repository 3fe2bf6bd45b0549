import SourceGen.Compose.Include
import SourceGen.Compose.Sections
import SourceGen.TargetName
import SourceGen.TypeRef.Normalize
import SourceGen.Vocabulary.Marker

/-!
# The texts of a tree

The texts that a program brings with it: names, literals, type names, the segments of imports and
raw code. A raw block for another target is not written, and neither is a marked declaration, so
their texts do not count. The path of an include is never written.

## Main definitions

* `Stmt.everyText`, `Expr.everyText`, …: a test of all texts of a part.
* `Program.everyText`: the same for a program.

## Main results

* `Stmt.allText_flattenAll`: includes bring the texts of what they include.
-/

namespace SourceGen

variable (target : TargetName) (p : String → Bool)

/-! ### Leaves -/

mutual

/-- Every name in a type reference. -/
def TypeRef.everyText : TypeRef → Bool
  | ⟨name, args⟩ => p name && TypeRef.allText args

/-- Every name in some type references. -/
def TypeRef.allText : List TypeRef → Bool
  | [] => true
  | t :: ts => t.everyText && TypeRef.allText ts

end

/-- Every text of a literal. -/
def Literal.everyText : Literal → Bool
  | .number text => p text
  | .string value => p value
  | .char value => p value.toString
  | .bool _ => true
  | .null => true

/-- The segments of an import and its other name. -/
def Import.everyText (d : Import) : Bool :=
  d.path.all p && d.localName.all p

/-- The name of a generic parameter and those of its bounds. -/
def GenericParam.everyText (g : GenericParam) : Bool :=
  p g.name && TypeRef.allText p g.constraints

/-- Every text of a type alias. -/
def Alias.everyText (d : Alias) : Bool :=
  p d.name && d.generics.all (GenericParam.everyText p) && d.target.everyText p

/-- The code of a raw block, if it is meant for the target. -/
def RawBlock.everyText (raw : RawBlock) : Bool :=
  !raw.target.all target.accepts || p raw.code

/-! ### The mutual family -/

mutual

/-- Every text of a statement. -/
def Stmt.everyText : Stmt → Bool
  | .importDecl d => d.everyText p
  | .includeDecl _ stmts => Stmt.allText stmts
  | .aliasDecl d => d.everyText p
  | .namespaceDecl name members => p name && Stmt.allText members
  | .typeDecl _ d => d.everyText
  | .enumDecl d => d.everyText
  | .moduleDecl d => d.everyText
  | .functionDecl _ d => d.everyText
  | .fieldDecl d => d.everyText
  | .propertyDecl d => d.everyText
  | .binding d => d.everyText
  | .ifThen condition thenBranch elseBranch =>
    condition.everyText && Stmt.allText thenBranch && Stmt.blockText elseBranch
  | .whileLoop condition body => condition.everyText && Stmt.allText body
  | .forLoop start condition step body =>
    Stmt.optionText start && Expr.optionText condition && Expr.optionText step &&
      Stmt.allText body
  | .forEach name type iterable body =>
    p name && type.all (TypeRef.everyText p) && iterable.everyText && Stmt.allText body
  | .ret value => Expr.optionText value
  | .breakLoop => true
  | .continueLoop => true
  | .matchOn scrutinee arms => scrutinee.everyText && MatchArm.allText arms
  | .switchOn subject cases => subject.everyText && SwitchCase.allText cases
  | .expr value => value.everyText
  | .raw block => block.everyText target p

/-- Every text of some statements. -/
def Stmt.allText : List Stmt → Bool
  | [] => true
  | s :: ss => s.everyText && Stmt.allText ss

/-- Every text of an optional statement. -/
def Stmt.optionText : Option Stmt → Bool
  | none => true
  | some s => s.everyText

/-- Every text of an optional block. -/
def Stmt.blockText : Option (List Stmt) → Bool
  | none => true
  | some ss => Stmt.allText ss

/-- Every text of an expression; the default values of lambda parameters are never written. -/
def Expr.everyText : Expr → Bool
  | .literal value => value.everyText p
  | .ident name => p name
  | .path parts => parts.all p
  | .member object name => object.everyText && p name
  | .index object i => object.everyText && i.everyText
  | .binary left _ right => left.everyText && right.everyText
  | .unary _ operand _ => operand.everyText
  | .assign target _ value => target.everyText && value.everyText
  | .call callee args => callee.everyText && Expr.allText args
  | .construct type args => type.everyText p && Expr.allText args
  | .array elements elementType =>
    Expr.allText elements && elementType.all (TypeRef.everyText p)
  | .lambda params body =>
    params.all (fun q => p q.name && q.type.all (TypeRef.everyText p)) && body.everyText
  | .range start stop _ => Expr.optionText start && Expr.optionText stop
  | .block stmts => Stmt.allText stmts
  | .matchOn scrutinee arms => scrutinee.everyText && MatchArm.allText arms
  | .this => true

/-- Every text of some expressions. -/
def Expr.allText : List Expr → Bool
  | [] => true
  | e :: es => e.everyText && Expr.allText es

/-- Every text of an optional expression. -/
def Expr.optionText : Option Expr → Bool
  | none => true
  | some e => e.everyText

/-- Every text of an expression or a block. -/
def Body.everyText : Body → Bool
  | .expr value => value.everyText
  | .block stmts => Stmt.allText stmts

/-- Every text of a pattern. -/
def Pattern.everyText : Pattern → Bool
  | .default => true
  | .values values => Expr.allText values

/-- Every text of the arms of a match. -/
def MatchArm.allText : List MatchArm → Bool
  | [] => true
  | ⟨pattern, result⟩ :: arms => pattern.everyText && result.everyText && MatchArm.allText arms

/-- Every text of the cases of a switch. -/
def SwitchCase.allText : List SwitchCase → Bool
  | [] => true
  | ⟨pattern, body⟩ :: cases => pattern.everyText && Stmt.allText body && SwitchCase.allText cases

/-- Every text of some attributes. -/
def Attribute.allText : List Attribute → Bool
  | [] => true
  | ⟨name, args⟩ :: attributes => p name && Expr.allText args && Attribute.allText attributes

/-- Every text of some parameters. -/
def Parameter.allText : List Parameter → Bool
  | [] => true
  | ⟨name, type, default⟩ :: params =>
    p name && type.all (TypeRef.everyText p) && Expr.optionText default && Parameter.allText params

/-- Every text of a class, struct or interface. -/
def TypeDecl.everyText : TypeDecl → Bool
  | ⟨name, _, attributes, generics, base, interfaces, members⟩ =>
    (Marker.of? attributes).isSome ||
      (p name && Attribute.allText attributes && generics.all (GenericParam.everyText p) &&
        base.all (TypeRef.everyText p) && TypeRef.allText p interfaces && Stmt.allText members)

/-- Every text of the variants of an enum. -/
def EnumVariant.allText : List EnumVariant → Bool
  | [] => true
  | ⟨name, value⟩ :: variants => p name && Expr.optionText value && EnumVariant.allText variants

/-- Every text of an enum. -/
def EnumDecl.everyText : EnumDecl → Bool
  | ⟨name, _, attributes, variants⟩ =>
    (Marker.of? attributes).isSome ||
      (p name && Attribute.allText attributes && EnumVariant.allText variants)

/-- Every text of a module. -/
def ModuleDecl.everyText : ModuleDecl → Bool
  | ⟨name, _, attributes, members⟩ =>
    (Marker.of? attributes).isSome ||
      (p name && Attribute.allText attributes && Stmt.allText members)

/-- Every text of a callable. -/
def Function.everyText : Function → Bool
  | ⟨name, params, returnType, generics, _, attributes, body, _, _⟩ =>
    (Marker.of? attributes).isSome ||
      (p name && Parameter.allText params && returnType.all (TypeRef.everyText p) &&
        generics.all (GenericParam.everyText p) && Attribute.allText attributes &&
        Stmt.blockText body)

/-- Every text of a field. -/
def Field.everyText : Field → Bool
  | ⟨name, type, _, attributes, initializer⟩ =>
    (Marker.of? attributes).isSome ||
      (p name && type.all (TypeRef.everyText p) && Attribute.allText attributes &&
        Expr.optionText initializer)

/-- Every text of the accessors of a property. -/
def Accessor.allText : List Accessor → Bool
  | [] => true
  | ⟨_, _, body⟩ :: accessors => Stmt.blockText body && Accessor.allText accessors

/-- Every text of a property. -/
def Property.everyText : Property → Bool
  | ⟨name, type, _, attributes, accessors, initializer⟩ =>
    (Marker.of? attributes).isSome ||
      (p name && type.all (TypeRef.everyText p) && Attribute.allText attributes &&
        Accessor.allText accessors && Expr.optionText initializer)

/-- Every text of a variable. -/
def Binding.everyText : Binding → Bool
  | ⟨name, type, value, _⟩ =>
    p name && type.all (TypeRef.everyText p) && Expr.optionText value

end

section

-- The equations of the family are derived once, for everything that follows.
attribute [local simp] Stmt.everyText Stmt.allText Stmt.optionText Stmt.blockText Expr.everyText
  Expr.allText Expr.optionText Body.everyText Pattern.everyText MatchArm.allText SwitchCase.allText
  Attribute.allText Parameter.allText TypeDecl.everyText EnumVariant.allText EnumDecl.everyText
  ModuleDecl.everyText Function.everyText Field.everyText Accessor.allText Property.everyText
  Binding.everyText

end

/-- Every text of a program that the target may write. -/
def Program.everyText (program : Program) : Bool :=
  Stmt.allText target p program.stmts

variable {target p}

/-! ### Unmarked declarations -/

section Unmarked

variable {name : String} {modifiers : List Modifier} {attributes : List Attribute}
  (hmark : Marker.of? attributes = none)

include hmark

theorem TypeDecl.texts_of_unmarked {generics : List GenericParam} {base : Option TypeRef}
    {interfaces : List TypeRef} {members : List Stmt}
    (h : TypeDecl.everyText target p
      ⟨name, modifiers, attributes, generics, base, interfaces, members⟩ = true) :
    p name = true ∧ Attribute.allText target p attributes = true ∧
      generics.all (GenericParam.everyText p) = true ∧ base.all (TypeRef.everyText p) = true ∧
      TypeRef.allText p interfaces = true ∧ Stmt.allText target p members = true := by
  simpa [TypeDecl.everyText, hmark, and_assoc] using h

theorem EnumDecl.texts_of_unmarked {variants : List EnumVariant}
    (h : EnumDecl.everyText target p ⟨name, modifiers, attributes, variants⟩ = true) :
    p name = true ∧ Attribute.allText target p attributes = true ∧
      EnumVariant.allText target p variants = true := by
  simpa [EnumDecl.everyText, hmark, and_assoc] using h

theorem ModuleDecl.texts_of_unmarked {members : List Stmt}
    (h : ModuleDecl.everyText target p ⟨name, modifiers, attributes, members⟩ = true) :
    p name = true ∧ Attribute.allText target p attributes = true ∧
      Stmt.allText target p members = true := by
  simpa [ModuleDecl.everyText, hmark, and_assoc] using h

theorem Function.texts_of_unmarked {params : List Parameter} {returnType : Option TypeRef}
    {generics : List GenericParam} {body : Option (List Stmt)} {isConstructor isStatic : Bool}
    (h : Function.everyText target p ⟨name, params, returnType, generics, modifiers, attributes,
      body, isConstructor, isStatic⟩ = true) :
    p name = true ∧ Parameter.allText target p params = true ∧
      returnType.all (TypeRef.everyText p) = true ∧
      generics.all (GenericParam.everyText p) = true ∧
      Attribute.allText target p attributes = true ∧ Stmt.blockText target p body = true := by
  simpa [Function.everyText, hmark, and_assoc] using h

theorem Field.texts_of_unmarked {type : Option TypeRef} {initializer : Option Expr}
    (h : Field.everyText target p ⟨name, type, modifiers, attributes, initializer⟩ = true) :
    p name = true ∧ type.all (TypeRef.everyText p) = true ∧
      Attribute.allText target p attributes = true ∧
      Expr.optionText target p initializer = true := by
  simpa [Field.everyText, hmark, and_assoc] using h

theorem Property.texts_of_unmarked {type : Option TypeRef} {accessors : List Accessor}
    {initializer : Option Expr}
    (h : Property.everyText target p ⟨name, type, modifiers, attributes, accessors, initializer⟩ =
      true) :
    p name = true ∧ type.all (TypeRef.everyText p) = true ∧
      Attribute.allText target p attributes = true ∧
      Accessor.allText target p accessors = true ∧
      Expr.optionText target p initializer = true := by
  simpa [Property.everyText, hmark, and_assoc] using h

end Unmarked

/-! ### Lists of statements -/

theorem Stmt.allText_iff {ss : List Stmt} :
    Stmt.allText target p ss = true ↔ ∀ s ∈ ss, s.everyText target p = true := by
  induction ss with
  | nil => simp [Stmt.allText]
  | cons s ss ih => rw [Stmt.allText, Bool.and_eq_true, ih, List.forall_mem_cons]

theorem Stmt.allText_append {ss ts : List Stmt} :
    Stmt.allText target p (ss ++ ts) = true ↔
      Stmt.allText target p ss = true ∧ Stmt.allText target p ts = true := by
  simp only [Stmt.allText_iff, List.forall_mem_append]

mutual

theorem Stmt.allText_flatten : ∀ s : Stmt, s.everyText target p = true →
    Stmt.allText target p s.flatten = true
  | .includeDecl path stmts, h => by
    rw [Stmt.everyText] at h
    rw [Stmt.flatten]
    exact Stmt.allText_flattenAll stmts h
  | .importDecl _, h | .aliasDecl _, h | .namespaceDecl _ _, h | .typeDecl _ _, h
  | .enumDecl _, h | .moduleDecl _, h | .functionDecl _ _, h | .fieldDecl _, h
  | .propertyDecl _, h | .binding _, h | .ifThen _ _ _, h | .whileLoop _ _, h
  | .forLoop _ _ _ _, h | .forEach _ _ _ _, h | .ret _, h | .breakLoop, h | .continueLoop, h
  | .matchOn _ _, h | .switchOn _ _, h | .expr _, h | .raw _, h => by
    simpa [Stmt.flatten, Stmt.allText] using h

/-- An include brings the texts of what it includes. -/
theorem Stmt.allText_flattenAll : ∀ ss : List Stmt, Stmt.allText target p ss = true →
    Stmt.allText target p (Stmt.flattenAll ss) = true
  | [], _ => by rw [Stmt.flattenAll, Stmt.allText]
  | s :: ss, h => by
    rw [Stmt.allText, Bool.and_eq_true] at h
    rw [Stmt.flattenAll, Stmt.allText_append]
    exact ⟨Stmt.allText_flatten s h.1, Stmt.allText_flattenAll ss h.2⟩

end

/-! ### Sections -/

/-- Every text of the sections passes the test. -/
structure Sections.EveryText (target : TargetName) (p : String → Bool) (sections : Sections) :
    Prop where
  imports : ∀ d ∈ sections.imports, d.everyText p = true
  aliases : ∀ d ∈ sections.aliases, d.everyText p = true
  containers : Stmt.allText target p sections.containers = true
  functions : ∀ f ∈ sections.functions, f.everyText target p = true
  members : Stmt.allText target p sections.members = true
  raw : ∀ r ∈ sections.raw, r.everyText target p = true
  loose : Stmt.allText target p sections.loose = true

theorem Sections.everyText_cons {s : Stmt} {sections : Sections}
    (hs : s.everyText target p = true) (h : sections.EveryText target p) :
    (sections.cons s).EveryText target p := by
  obtain ⟨himports, haliases, hcontainers, hfunctions, hmembers, hraw, hloose⟩ := h
  cases s with
  | importDecl d =>
    rw [Stmt.everyText] at hs
    exact ⟨List.forall_mem_cons.mpr ⟨hs, himports⟩, haliases, hcontainers, hfunctions, hmembers,
      hraw, hloose⟩
  | aliasDecl d =>
    rw [Stmt.everyText] at hs
    exact ⟨himports, List.forall_mem_cons.mpr ⟨hs, haliases⟩, hcontainers, hfunctions, hmembers,
      hraw, hloose⟩
  | functionDecl kind f =>
    rw [Stmt.everyText] at hs
    exact ⟨himports, haliases, hcontainers, List.forall_mem_cons.mpr ⟨hs, hfunctions⟩, hmembers,
      hraw, hloose⟩
  | raw block =>
    rw [Stmt.everyText] at hs
    exact ⟨himports, haliases, hcontainers, hfunctions, hmembers,
      List.forall_mem_cons.mpr ⟨hs, hraw⟩, hloose⟩
  | namespaceDecl _ _ | typeDecl _ _ | enumDecl _ | moduleDecl _ =>
    refine ⟨himports, haliases, ?_, hfunctions, hmembers, hraw, hloose⟩
    exact Stmt.allText_iff.mpr (List.forall_mem_cons.mpr ⟨hs, Stmt.allText_iff.mp hcontainers⟩)
  | fieldDecl _ | propertyDecl _ =>
    refine ⟨himports, haliases, hcontainers, hfunctions, ?_, hraw, hloose⟩
    exact Stmt.allText_iff.mpr (List.forall_mem_cons.mpr ⟨hs, Stmt.allText_iff.mp hmembers⟩)
  -- An include has been replaced by what it includes and goes to no section.
  | includeDecl _ _ => exact ⟨himports, haliases, hcontainers, hfunctions, hmembers, hraw, hloose⟩
  | _ =>
    refine ⟨himports, haliases, hcontainers, hfunctions, hmembers, hraw, ?_⟩
    exact Stmt.allText_iff.mpr (List.forall_mem_cons.mpr ⟨hs, Stmt.allText_iff.mp hloose⟩)

theorem Sections.everyText_of {ss : List Stmt} (h : Stmt.allText target p ss = true) :
    (Sections.of ss).EveryText target p := by
  induction ss with
  | nil => exact ⟨nofun, nofun, by rfl, nofun, by rfl, nofun, by rfl⟩
  | cons s ss ih =>
    rw [Stmt.allText, Bool.and_eq_true] at h
    exact Sections.everyText_cons h.1 (ih h.2)

end SourceGen
