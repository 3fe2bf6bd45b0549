import SourceGen.Proofs.PlainTypes
import SourceGen.Proofs.Rust.WrittenTypes
import SourceGen.Proofs.UnitSections

/-!
# Names of declared types

A unit knows the names of all types that it declares, and it has a head with the identifier of each
of them, unless the declaration is left out. A reference to such a name is plain text and stands for
the declared type, unless the text has another form or the name means something else.

## Main definitions

* `Stmt.allDeclarations`: the classes, structs, interfaces and enums that are written.
* `Text.isPlainName`: a name without the forms that type text can have.
* `Declared.MeansItself`: the name of the declared type means nothing else.
* `Code.HoldsHead`: code has the head of a declaration somewhere.

## Main results

* `KnownTypes.contains_of_mem`: the names of written declarations are known.
* `Declared.MeansItself.classify`: what a reference to a declared name stands for.
-/

namespace SourceGen

/-! ### Declarations that are written -/

/-- A declaration of a type: its kind, none for an enum, and its name. -/
structure Declared where
  kind : Option TypeKind
  name : String
  deriving DecidableEq, Repr

namespace Stmt

/-- What is declared with attributes is written without a marker. -/
def unmarked (attributes : List Attribute) (ds : List Declared) : List Declared :=
  if (Marker.of? attributes).isSome then [] else ds

mutual

/-- The declarations of types in a statement that are written, also inside namespaces, modules and
includes. -/
def declarations : Stmt → List Declared
  | .namespaceDecl _ decls => allDeclarations decls
  | .moduleDecl ⟨_, _, attributes, decls⟩ => unmarked attributes (allDeclarations decls)
  | .includeDecl _ decls => allDeclarations decls
  | .typeDecl kind ⟨name, _, attributes, _, _, _, _⟩ => unmarked attributes [⟨some kind, name⟩]
  | .enumDecl ⟨name, _, attributes, _⟩ => unmarked attributes [⟨none, name⟩]
  | _ => []

/-- The declarations of types in some statements that are written. -/
def allDeclarations : List Stmt → List Declared
  | [] => []
  | s :: ss => s.declarations ++ allDeclarations ss

end

theorem mem_of_mem_unmarked {attributes : List Attribute} {ds : List Declared} {d : Declared}
    (h : d ∈ unmarked attributes ds) : (Marker.of? attributes).isSome = false ∧ d ∈ ds := by
  unfold unmarked at h
  split at h
  · cases h
  · rename_i hmarker
    exact ⟨by simpa using hmarker, h⟩

theorem allDeclarations_eq_flatMap (ss : List Stmt) :
    allDeclarations ss = ss.flatMap declarations := by
  induction ss with
  | nil => rfl
  | cons s ss ih => rw [allDeclarations, List.flatMap_cons, ih]

/-- Apart from includes, only containers hold declarations of types. -/
theorem mem_allDeclarations_containers {ss : List Stmt} (hss : ∀ s ∈ ss, s.isInclude = false)
    {d : Declared} (h : d ∈ allDeclarations ss) :
    d ∈ allDeclarations (Sections.of ss).containers := by
  rw [allDeclarations_eq_flatMap, List.mem_flatMap] at h
  obtain ⟨s, hs, hd⟩ := h
  rw [allDeclarations_eq_flatMap, List.mem_flatMap, Sections.containers_of]
  refine ⟨s, List.mem_filter.mpr ⟨hs, ?_⟩, hd⟩
  cases s with
  | namespaceDecl _ _ | typeDecl _ _ | enumDecl _ | moduleDecl _ => rfl
  | includeDecl path stmts => exact absurd (hss _ hs) Bool.noConfusion
  | _ => simp [declarations] at hd

end Stmt

/-! ### Known names -/

namespace KnownTypes

variable {known : KnownTypes} {name : String}

theorem contains_insert_of (other : String) (h : known.contains name = true) :
    (known.insert other).contains name = true := by
  rw [contains_insert, h, Bool.or_true]

theorem contains_insert_self (known : KnownTypes) (name : String) :
    (known.insert name).contains name = true := by
  rw [contains_insert, decide_eq_true rfl, Bool.true_or]

mutual

theorem contains_scan : ∀ (s : Stmt) {known : KnownTypes}, known.contains name = true →
    (scan known s).contains name = true
  | .typeDecl .interface ⟨other, _, _, _, _, _, _⟩, _, h => contains_insert_of other h
  | .typeDecl .cls ⟨other, _, _, _, _, _, members⟩, _, h
  | .typeDecl .struct ⟨other, _, _, _, _, _, members⟩, _, h => by
    rw [scan]
    · exact contains_scanAll members (contains_insert_of other h)
    · simp
  | .enumDecl ⟨other, _, _, _⟩, _, h => by
    rw [scan]
    exact contains_insert_of other h
  | .aliasDecl decl, _, h => by
    rw [scan]
    exact contains_insert_of decl.name h
  | .namespaceDecl _ members, _, h => by
    rw [scan]
    exact contains_scanAll members h
  | .moduleDecl ⟨_, _, _, members⟩, _, h => by
    rw [scan]
    exact contains_scanAll members h
  | .includeDecl _ stmts, _, h => by
    rw [scan]
    exact contains_scanAll stmts h
  | .importDecl _, _, h | .functionDecl _ _, _, h | .fieldDecl _, _, h | .propertyDecl _, _, h
  | .binding _, _, h | .ifThen _ _ _, _, h | .whileLoop _ _, _, h | .forLoop _ _ _ _, _, h
  | .forEach _ _ _ _, _, h | .ret _, _, h | .breakLoop, _, h | .continueLoop, _, h
  | .matchOn _ _, _, h | .switchOn _ _, _, h | .expr _, _, h | .raw _, _, h => by
    simpa only [scan] using h

/-- A name that is known stays known. -/
theorem contains_scanAll : ∀ (ss : List Stmt) {known : KnownTypes}, known.contains name = true →
    (scanAll known ss).contains name = true
  | [], _, h => by
    rw [scanAll]
    exact h
  | s :: ss, _, h => by
    rw [scanAll]
    exact contains_scanAll ss (contains_scan s h)

end

mutual

theorem contains_scan_of_mem : ∀ (s : Stmt) (known : KnownTypes) {d : Declared},
    d ∈ s.declarations → (scan known s).contains d.name = true
  | .typeDecl kind ⟨name, _, attributes, _, _, _, members⟩, known, d, h => by
    rw [Stmt.declarations] at h
    obtain rfl := List.mem_singleton.mp (Stmt.mem_of_mem_unmarked h).2
    cases kind with
    | interface => exact contains_insert_self known name
    | _ =>
      rw [scan]
      · exact contains_scanAll members (contains_insert_self known name)
      · simp
  | .enumDecl ⟨name, _, attributes, _⟩, known, d, h => by
    rw [Stmt.declarations] at h
    obtain rfl := List.mem_singleton.mp (Stmt.mem_of_mem_unmarked h).2
    rw [scan]
    exact contains_insert_self known name
  | .namespaceDecl _ decls, known, d, h => by
    rw [Stmt.declarations] at h
    rw [scan]
    exact contains_scanAll_of_mem decls known h
  | .moduleDecl ⟨_, _, attributes, decls⟩, known, d, h => by
    rw [Stmt.declarations] at h
    rw [scan]
    exact contains_scanAll_of_mem decls known (Stmt.mem_of_mem_unmarked h).2
  | .includeDecl _ decls, known, d, h => by
    rw [Stmt.declarations] at h
    rw [scan]
    exact contains_scanAll_of_mem decls known h
  | .importDecl _, _, _, h | .aliasDecl _, _, _, h | .functionDecl _ _, _, _, h
  | .fieldDecl _, _, _, h | .propertyDecl _, _, _, h | .binding _, _, _, h
  | .ifThen _ _ _, _, _, h | .whileLoop _ _, _, _, h | .forLoop _ _ _ _, _, _, h
  | .forEach _ _ _ _, _, _, h | .ret _, _, _, h | .breakLoop, _, _, h | .continueLoop, _, _, h
  | .matchOn _ _, _, _, h | .switchOn _ _, _, _, h | .expr _, _, _, h | .raw _, _, _, h => by
    simp only [Stmt.declarations, List.not_mem_nil] at h

theorem contains_scanAll_of_mem : ∀ (ss : List Stmt) (known : KnownTypes) {d : Declared},
    d ∈ Stmt.allDeclarations ss → (scanAll known ss).contains d.name = true
  | [], _, _, h => by simp only [Stmt.allDeclarations, List.not_mem_nil] at h
  | s :: ss, known, d, h => by
    rw [Stmt.allDeclarations, List.mem_append] at h
    rw [scanAll]
    rcases h with h | h
    · exact contains_scanAll ss (contains_scan_of_mem s known h)
    · exact contains_scanAll_of_mem ss _ h

end

/-- A unit knows the names of the types that it declares. -/
theorem contains_of_mem {ss : List Stmt} {d : Declared} (h : d ∈ Stmt.allDeclarations ss) :
    (collect ss).contains d.name = true :=
  contains_scanAll_of_mem ss {} h

end KnownTypes

/-! ### References to declared names -/

/-- The name has no brackets, and without the blanks at its ends no question mark at its end. -/
def Text.isPlainName (name : String) : Bool :=
  name.toList.all (fun c => TypeRef.bracketWeight c == 0) &&
    (Text.trimChars name.toList).getLast? != some '?'

namespace TypeRef

/-- A text that ends with another text ends with the last character of that. -/
theorem stripSuffix?_eq_none (front : List Char) {cs : List Char} {c : Char}
    (h : cs.getLast? ≠ some c) :
    stripSuffix? (front ++ [c]) cs = none := by
  rw [stripSuffix?, if_neg]
  rw [List.isSuffixOf_iff_suffix]
  rintro ⟨before, rfl⟩
  simp at h

/-- A name without brackets and without a question mark at its end is a plain text. -/
theorem textForm_of_isPlainName {name : String} (h : Text.isPlainName name = true) :
    TextForm.of (Text.trimChars name.toList) = .plain (Text.trimChars name.toList) := by
  rw [Text.isPlainName, Bool.and_eq_true, List.all_eq_true] at h
  obtain ⟨hbrackets, hmark⟩ := h
  have hlast : ∀ c, bracketWeight c ≠ 0 → (Text.trimChars name.toList).getLast? ≠ some c := by
    intro c hc hlast
    have hmem := mem_of_mem_trimChars (List.mem_of_getLast? hlast)
    exact hc (eq_of_beq (hbrackets c hmem))
  have hoptional : stripSuffix? ['?'] (Text.trimChars name.toList) = none :=
    stripSuffix?_eq_none [] (by simpa using hmark)
  have harray : stripSuffix? ['[', ']'] (Text.trimChars name.toList) = none :=
    stripSuffix?_eq_none ['['] (hlast ']' (by decide))
  have hclosing : stripSuffix? ['>'] (Text.trimChars name.toList) = none :=
    stripSuffix?_eq_none [] (hlast '>' (by decide))
  have hangles : angles? (Text.trimChars name.toList) = none := by rw [angles?, hclosing]
  rw [TextForm.of, hoptional, harray, hangles]

theorem normalize_named {name : String} (h : Text.isPlainName name = true) :
    (named name).normalize = named (Text.trim name) := by
  rw [named, normalize, ofText_eq, textForm_of_isPlainName h]
  rfl

end TypeRef

/-- The name of the declared type is a plain text, and under the given parameters it means nothing
else. -/
structure Declared.MeansItself (d : Declared) (generics : List (List GenericParam)) : Prop where
  plain : Text.isPlainName d.name = true
  trimmed : Text.trim d.name = d.name
  not_param : TypeRef.isParam generics d.name = false
  not_primitive : Primitive.ofName? d.name = none
  not_container : Container.ofName? d.name = none

namespace Declared.MeansItself

variable {d : Declared} {generics : List (List GenericParam)}

theorem normalize (h : d.MeansItself generics) :
    (TypeRef.named d.name).normalize = .named d.name := by
  rw [TypeRef.normalize_named h.plain, h.trimmed]

/-- A reference to the name stands for the declared type. -/
theorem classify (h : d.MeansItself generics) {known : KnownTypes}
    (hknown : known.contains d.name = true) :
    TypeRef.classify generics known (.named d.name) = .declared d.name [] := by
  simp only [TypeRef.named, TypeRef.classify, List.isEmpty_nil, h.not_param, Bool.and_false,
    if_true, h.not_primitive, h.not_container, hknown, Bool.false_eq_true, if_false]

end Declared.MeansItself

/-! ### Heads of declarations -/

/-- The text does not go on with the name in front of it. -/
def Text.endsName (rest : String) : Bool :=
  rest.toList.head?.all fun c => ['<', ' ', ':'].contains c

namespace Text

theorem endsName_append {front back : String} (hfront : endsName front = true)
    (hback : endsName back = true) : endsName (front ++ back) = true := by
  unfold endsName at *
  rw [String.toList_append]
  cases h : front.toList with
  | nil => exact hback
  | cons c cs =>
    rw [h] at hfront
    exact hfront

/-- Only the first character of a text decides. -/
theorem endsName_append_left {front : String} (back : String) (hstart : front.toList ≠ [])
    (hfront : endsName front = true) : endsName (front ++ back) = true := by
  unfold endsName at *
  rw [String.toList_append]
  cases h : front.toList with
  | nil => exact absurd h hstart
  | cons c cs =>
    rw [h] at hfront
    exact hfront

theorem endsName_angled (parts : List String) : endsName (angled parts) = true := by
  unfold angled
  split
  · rfl
  · rw [String.append_assoc]
    exact endsName_append_left _ (by decide) (by decide)

end Text

/-- The item is a declaration with this head: a block, or a line with empty braces. -/
inductive Code.HasHead (head : String) : Code → Prop
  | block (body : List Code) : HasHead head (.block .plain (Fragment.text head) body "")
  | empty : HasHead head (.text (head ++ " \x7b\x7d"))

/-- Somewhere in the code, inside blocks, stands a declaration with the given keyword and
identifier in its head. -/
def Code.HoldsHead (keyword identifier : String) (code : List Code) : Prop :=
  ∃ (c : Code) (heads : List Fragment) (words rest : String), Code.Inside [c] heads code ∧
    c.HasHead (words ++ keyword ++ " " ++ identifier ++ rest) ∧ Text.endsName rest = true

namespace Code.HoldsHead

variable {keyword identifier : String} {code : List Code}

theorem of_mem (words rest : String) {c : Code} (hc : c ∈ code)
    (hhead : c.HasHead (words ++ keyword ++ " " ++ identifier ++ rest))
    (hrest : Text.endsName rest = true) : HoldsHead keyword identifier code := by
  obtain ⟨before, after, rfl⟩ := List.append_of_mem hc
  exact ⟨c, [], words, rest, ⟨before, after, by simp⟩, hhead, hrest⟩

theorem append (h : HoldsHead keyword identifier code) (before after : List Code) :
    HoldsHead keyword identifier (before ++ code ++ after) := by
  obtain ⟨c, heads, words, rest, hinside, hhead⟩ := h
  exact ⟨c, heads, words, rest, hinside.append before after, hhead⟩

/-- What stands in a block stands in the code around the block. -/
theorem block (h : HoldsHead keyword identifier code) {head : Fragment} {around : List Code}
    (hmem : .block .plain head code "" ∈ around) : HoldsHead keyword identifier around := by
  obtain ⟨c, heads, words, rest, hinside, hhead⟩ := h
  exact ⟨c, head :: heads, words, rest, ⟨code, hmem, hinside⟩, hhead⟩

end Code.HoldsHead

end SourceGen
