import Mathlib.Data.List.Forall2
import SourceGen.Tree.Decode

/-!
# JSON forms

A form of a value is complete: an object in it is a constructor with its data as the one field, or a
record with all of its fields. A reader takes it for the value whenever it may open as many levels
as the form has, so forms of parts make a form of the whole.

## Main definitions

* `Json.isComplete`: every object is a tag or a whole record.
* `Json.FormOf`: a complete value that a reader takes for a given result.

## Main results

* `Json.FormOf.record`, `Json.FormOf.tagged`, `Json.FormOf.array`: forms from the forms of parts.
-/

namespace SourceGen

namespace Json

/-! ### Complete values -/

/-- The names of the constructors with data. -/
def tags : List String :=
  ["Import", "Include", "TypeAlias", "Namespace", "Class", "Struct", "Interface", "Enum", "Module",
   "Function", "Method", "Field", "Property", "Variable", "If", "While", "For", "Return", "Match",
   "Switch", "Expression", "Raw", "Literal", "Identifier", "QualifiedIdentifier", "MemberAccess",
   "IndexAccess", "Binary", "Unary", "Assignment", "Call", "ConstructorCall", "ArrayLiteral",
   "Lambda", "Range", "Block", "CStyle", "Iteration", "Values", "Number", "String", "Char", "Bool"]

/-- The fields of each kind of record. -/
def records : List (List String) :=
  [["statements"], ["path", "program"], ["path", "alias"], ["name", "constraints"],
   ["name", "generics", "target"], ["target", "code"], ["name", "args"], ["name", "members"],
   ["name", "modifiers", "attributes", "generics", "base", "interfaces", "members"],
   ["name", "modifiers", "attributes", "variants"], ["name", "value"],
   ["name", "modifiers", "attributes", "members"],
   ["name", "params", "return_type", "generics", "modifiers", "attributes", "body",
    "is_constructor", "is_static"],
   ["name", "ty", "default"], ["name", "ty", "modifiers", "attributes", "initializer"],
   ["name", "ty", "modifiers", "attributes", "accessors", "initializer"],
   ["kind", "modifiers", "body"], ["name", "ty", "value", "kind"],
   ["condition", "then_branch", "else_branch"], ["condition", "body"], ["kind", "body"],
   ["init", "condition", "increment"], ["variable", "variable_type", "iterable"],
   ["scrutinee", "arms"], ["subject", "cases"], ["pattern", "result"], ["pattern", "body"],
   ["object", "member"], ["object", "index"], ["left", "op", "right"],
   ["op", "operand", "postfix"], ["target", "op", "value"], ["callee", "args"], ["ty", "args"],
   ["elements", "element_type"], ["params", "body"], ["start", "end", "inclusive"]]

/-- The field names of an object are those of a constructor or of a whole record. -/
def areComplete (names : List String) : Bool :=
  tags.any ([·] == names) || records.contains names

mutual

/-- Every object in the value is a constructor with its data or a whole record. -/
def isComplete : Json → Bool
  | .null | .bool _ | .string _ => true
  | .number _ | .unreadable => false
  | .array items => allComplete items
  | .object fields => areComplete (fields.map Prod.fst) && fieldsComplete fields

/-- All items of an array are complete. -/
def allComplete : List Json → Bool
  | [] => true
  | v :: vs => v.isComplete && allComplete vs

/-- All values of an object are complete. -/
def fieldsComplete : List (String × Json) → Bool
  | [] => true
  | (_, v) :: fields => v.isComplete && fieldsComplete fields

end

/-! ### Readers and forms -/

variable {α β : Type} {read : Nat → Json → Option α} {v : Json} {a : α} {levels : Nat}
  {fields : List (String × Json)}

/-- A complete value that the reader takes for `a`, if it may open as many levels as there are. -/
structure FormOf (read : Nat → Json → Option α) (v : Json) (a : α) : Prop where
  complete : v.isComplete = true
  read_eq : ∀ levels, v.depth ≤ levels → read levels v = some a

/-- A unique field is one of the fields. -/
theorem mem_of_unique? {name : String} (h : unique? fields name = some (some v)) :
    (name, v) ∈ fields := by
  unfold unique? at h
  split at h
  · simp at h
  · rename_i k w hfilter
    have hmem : (k, w) ∈ fields.filter (·.1 == name) := by simp [hfilter]
    obtain ⟨hmem, hk⟩ := List.mem_filter.mp hmem
    simp only [Option.some.injEq] at h
    simp only [beq_iff_eq] at hk
    rwa [← h, ← hk]
  · simp at h

theorem depth_le_depthFields {name : String} (h : (name, v) ∈ fields) :
    v.depth ≤ depthFields fields := by
  induction fields with
  | nil => simp at h
  | cons f fs ih =>
    obtain ⟨k, w⟩ := f
    rw [depthFields]
    rcases List.mem_cons.mp h with h | h
    · obtain ⟨-, rfl⟩ := Prod.mk.inj h
      omega
    · have := ih h
      omega

/-! ### Fields of a record -/

theorem required_eq (name : String) (h : FormOf read v a)
    (hunique : unique? fields name = some (some v)) (hlevels : depthFields fields ≤ levels) :
    required fields name (read levels) = some a := by
  rw [required, hunique]
  exact h.read_eq levels (Nat.le_trans (depth_le_depthFields (mem_of_unique? hunique)) hlevels)

theorem defaulted_eq (name : String) {default : α} (h : FormOf read v a)
    (hunique : unique? fields name = some (some v)) (hlevels : depthFields fields ≤ levels) :
    defaulted fields name default (read levels) = some a := by
  rw [defaulted, hunique]
  exact h.read_eq levels (Nat.le_trans (depth_le_depthFields (mem_of_unique? hunique)) hlevels)

theorem optional_eq (name : String) {o : Option α}
    (h : FormOf (fun levels => nullable (read levels)) v o)
    (hunique : unique? fields name = some (some v)) (hlevels : depthFields fields ≤ levels) :
    optional fields name (read levels) = some o := by
  have hread := h.read_eq levels
    (Nat.le_trans (depth_le_depthFields (mem_of_unique? hunique)) hlevels)
  rw [optional, hunique]
  -- Both readers take a null for absence.
  cases v with
  | null => exact hread
  | _ => exact hread

namespace FormOf

/-! ### Forms from the forms of parts -/

theorem string (s : String) : FormOf (fun _ => asString) (.string s) s :=
  ⟨rfl, fun _ _ => rfl⟩

theorem bool (b : Bool) : FormOf (fun _ => asBool) (.bool b) b :=
  ⟨rfl, fun _ _ => rfl⟩

/-- A record is a form if all of its fields are read. -/
theorem record (hnames : areComplete (fields.map Prod.fst) = true)
    (hfields : fieldsComplete fields = true)
    (hread : ∀ levels, depthFields fields ≤ levels → read (levels + 1) (.object fields) = some a) :
    FormOf read (.object fields) a := by
  refine ⟨by rw [isComplete, hnames, hfields]; rfl, fun levels hlevels => ?_⟩
  -- An object is a level of its own, so the reader may open at least one.
  rw [depth] at hlevels
  cases levels with
  | zero => omega
  | succ levels => exact hread levels (by omega)

/-- A constructor with data is a form if its data is. -/
theorem tagged {inner : Nat → Json → Option β} {b : β} (tag : String) (h : FormOf inner v b)
    (htag : areComplete [tag] = true)
    (hread : ∀ levels, inner levels v = some b → read (levels + 1) (.object [(tag, v)]) = some a) :
    FormOf read (.tagged tag v) a := by
  refine record htag (by simp [fieldsComplete, h.complete]) fun levels hlevels => ?_
  refine hread levels (h.read_eq levels ?_)
  simpa [depthFields] using hlevels

/-- Absence. -/
theorem none : FormOf (fun levels => nullable (read levels)) .null none :=
  ⟨rfl, fun _ _ => rfl⟩

/-- Presence. -/
theorem some (h : FormOf read v a) (hv : v ≠ .null) :
    FormOf (fun levels => nullable (read levels)) v (some a) := by
  refine ⟨h.complete, fun levels hlevels => ?_⟩
  have hread := h.read_eq levels hlevels
  cases v with
  | null => exact absurd rfl hv
  | _ => simp [nullable, hread]

/-- An array is a form of a list if its items are forms of the elements. -/
theorem array {readAll : Nat → Json → Option (List α)} {vs : List Json} {as : List α}
    (h : List.Forall₂ (FormOf read) vs as)
    (hread : ∀ levels vs, readAll (levels + 1) (.array vs) = vs.mapM (read levels)) :
    FormOf readAll (.array vs) as := by
  have hcomplete : allComplete vs = true := by
    induction h with
    | nil => rfl
    | cons hv _ ih => rw [allComplete, hv.complete, ih]; rfl
  -- Each item may open as many levels as the deepest one has.
  have hmap : ∀ levels, depthItems vs ≤ levels → vs.mapM (read levels) = Option.some as := by
    intro levels hlevels
    induction h with
    | nil => rfl
    | cons hv _ ih =>
      rw [allComplete, Bool.and_eq_true] at hcomplete
      rw [depthItems] at hlevels
      have hhead := hv.read_eq levels (by omega)
      have htail := ih hcomplete.2 (by omega)
      simp [List.mapM_cons, hhead, htail]
  refine ⟨by rw [isComplete, hcomplete], fun levels hlevels => ?_⟩
  rw [depth] at hlevels
  cases levels with
  | zero => omega
  | succ levels => rw [hread, hmap levels (by omega)]

/-- An array whose items are read one level down. -/
theorem items {vs : List Json} {as : List α} (h : List.Forall₂ (FormOf read) vs as) :
    FormOf (fun levels => Json.items levels (read (levels - 1))) (.array vs) as :=
  array h fun _ _ => by simp [Json.items]

/-- The name of a constructor without data. -/
theorem unitTag {ofName : String → Option α} {name : String} (h : ofName name = Option.some a) :
    FormOf (fun levels => Json.unitTag levels ofName) (.string name) a :=
  ⟨rfl, fun _ _ => h⟩

theorem strings (ss : List String) : FormOf asStrings (.strings ss) ss := by
  have h : List.Forall₂ (FormOf fun _ => asString) (ss.map .string) ss := by
    induction ss with
    | nil => exact .nil
    | cons s ss ih => exact .cons (.string s) ih
  exact items h

/-- An optional name. -/
theorem stringOption (s : Option String) :
    FormOf (fun _ => nullable asString) (.ofOption (s.map .string)) s := by
  cases s with
  | none => exact .none
  | some s => exact .some (.string s) nofun

end FormOf

end Json

end SourceGen
