import SourceGen.Proofs.DeclaredNames
import SourceGen.Proofs.Rust.WrittenTypes

/-!
# Heads of Rust declarations

A Rust unit has an item for each type that it declares, inside the modules around the type, and the
head of the item has the identifier of the type behind its keyword. An interface is a trait, and
classes and structs are both structs.

## Main definitions

* `Rust.declarationKeyword`: the keyword of a declaration.

## Main results

* `Rust.mapType_declared`: the spelling of a reference to a declared name.
* `Rust.holdsHead_programCode`: a unit has the head of each type that it declares.
-/

namespace SourceGen

namespace Rust

open Fragment (text)

variable {env : Env} {place : Place} {scope : Scope} {i k : Journal} {code : List Code}

/-! ### References -/

/-- A reference to a declared name is spelled as that name, if the name means nothing else. -/
theorem mapType_declared {known : KnownTypes} {d : Declared} (h : d.MeansItself scope.generics)
    (hknown : known.contains d.name = true) :
    mapType known scope (.named d.name) = pure d.name := by
  have hclass := h.classify hknown
  rw [TypeRef.named] at hclass
  rw [mapType, h.normalize, TypeRef.named, mapNormal, hclass]
  dsimp only
  rw [mapNormalAll, pure_bind, Text.angled, List.isEmpty_nil, if_pos rfl, String.append_empty]

/-! ### Heads -/

/-- The keyword of a declaration. -/
def declarationKeyword : Option TypeKind → String
  | some .interface => "trait"
  | some .cls | some .struct => "struct"
  | none => "enum"

theorem endsName_genericParams (generics : List GenericParam) :
    (genericParams env scope generics).Always fun bounds => Text.endsName bounds = true :=
  .after fun shown => .pure (Text.endsName_angled shown)

theorem holdsHead_traitCode {d : TypeDecl} (hunmarked : (Marker.of? d.attributes).isSome = false)
    (h : (traitCode env d).Yields i code k) :
    Code.HoldsHead (declarationKeyword (some .interface)) (ident d.name) code := by
  obtain ⟨skipped, i₁, hskipped, h⟩ := Gen.yields_bind.mp h
  rw [target.always_skipMarked _ _ _ hskipped, hunmarked, if_neg Bool.false_ne_true] at h
  extract_lets outer place at h
  obtain ⟨lines, i₂, -, h⟩ := Gen.yields_bind.mp h
  obtain ⟨supertraits, i₃, -, h⟩ := Gen.yields_bind.mp h
  obtain ⟨bounds, i₄, hbounds, h⟩ := Gen.yields_bind.mp h
  extract_lets head at h
  obtain ⟨members, i₅, -, h⟩ := Gen.yields_bind.mp h
  obtain ⟨rfl, -⟩ := Gen.yields_pure.mp h
  refine .of_mem (visibility d.modifiers true)
    (bounds ++ if supertraits.isEmpty then "" else ": " ++ Text.join " + " supertraits)
    (c := .block .plain (text head) members "")
    (List.mem_append_right _ (List.mem_singleton.mpr rfl)) ?_ ?_
  · have hhead : head = visibility d.modifiers true ++ declarationKeyword (some .interface) ++
        " " ++ ident d.name ++
        (bounds ++ if supertraits.isEmpty then "" else ": " ++ Text.join " + " supertraits) := by
      simp only [head, declarationKeyword, String.append_assoc]
      rfl
    rw [← hhead]
    exact .block members
  · refine Text.endsName_append (endsName_genericParams _ hbounds) ?_
    split
    · rfl
    · exact Text.endsName_append_left _ (by decide) (by decide)

/-- A struct without fields is one line. -/
theorem hasHead_structBlock (head : String) (fields : List FieldSpec) :
    (structBlock head fields).HasHead head := by
  unfold structBlock
  split
  · exact .empty
  · exact .block _

theorem holdsHead_structCode {d : TypeDecl} (hunmarked : (Marker.of? d.attributes).isSome = false)
    (h : (structCode env d).Yields i code k) :
    Code.HoldsHead "struct" (ident d.name) code := by
  obtain ⟨skipped, i₁, hskipped, h⟩ := Gen.yields_bind.mp h
  rw [target.always_skipMarked _ _ _ hskipped, hunmarked, if_neg Bool.false_ne_true] at h
  extract_lets place args at h
  obtain ⟨parts, i₂, -, h⟩ := Gen.yields_bind.mp h
  obtain ⟨base, i₃, -, h⟩ := Gen.yields_bind.mp h
  obtain ⟨listed, i₄, -, h⟩ := Gen.yields_bind.mp h
  obtain ⟨lines, i₅, -, h⟩ := Gen.yields_bind.mp h
  obtain ⟨bounds, i₆, hbounds, h⟩ := Gen.yields_bind.mp h
  extract_lets head at h
  obtain ⟨consts, i₇, -, h⟩ := Gen.yields_bind.mp h
  obtain ⟨constructor, i₈, -, h⟩ := Gen.yields_bind.mp h
  obtain ⟨accessors, i₉, -, h⟩ := Gen.yields_bind.mp h
  obtain ⟨methods, i₁₀, -, h⟩ := Gen.yields_bind.mp h
  obtain ⟨raws, i₁₁, -, h⟩ := Gen.yields_bind.mp h
  obtain ⟨impls, i₁₂, -, h⟩ := Gen.yields_bind.mp h
  obtain ⟨rfl, -⟩ := Gen.yields_pure.mp h
  refine .of_mem (visibility d.modifiers true) bounds (c := structBlock head parts.fields)
    (List.mem_append_right _ (List.mem_cons_self ..)) ?_ (endsName_genericParams _ hbounds)
  have hhead : head =
      visibility d.modifiers true ++ "struct" ++ " " ++ ident d.name ++ bounds := by
    simp only [head, String.append_assoc]
    rfl
  rw [← hhead]
  exact hasHead_structBlock head parts.fields

theorem holdsHead_enumCode {d : EnumDecl} (hunmarked : (Marker.of? d.attributes).isSome = false)
    (h : (enumCode env d).Yields i code k) :
    Code.HoldsHead (declarationKeyword none) (ident d.name) code := by
  obtain ⟨skipped, i₁, hskipped, h⟩ := Gen.yields_bind.mp h
  rw [target.always_skipMarked _ _ _ hskipped, hunmarked, if_neg Bool.false_ne_true] at h
  obtain ⟨lines, i₂, -, h⟩ := Gen.yields_bind.mp h
  extract_lets derived head at h
  obtain ⟨variants, i₃, -, h⟩ := Gen.yields_bind.mp h
  obtain ⟨rfl, -⟩ := Gen.yields_pure.mp h
  refine .of_mem (visibility d.modifiers true) "" (c := .block .plain (text head) variants "")
    (List.mem_append_right _ (List.mem_singleton.mpr rfl)) ?_ rfl
  have hhead : head =
      visibility d.modifiers true ++ declarationKeyword none ++ " " ++ ident d.name ++ "" := by
    simp only [head, declarationKeyword, String.append_assoc, String.append_empty]
    rfl
  rw [← hhead]
  exact .block variants

theorem holdsHead_nestedMods {keyword identifier : String}
    (h : Code.HoldsHead keyword identifier code) (parts : List String) :
    Code.HoldsHead keyword identifier (nestedMods code parts) := by
  induction parts with
  | nil => exact h
  | cons part parts ih =>
    have hinner := ih.append [.text "use super::*;"] []
    rw [List.append_nil] at hinner
    exact hinner.block (List.mem_singleton.mpr rfl)

/-! ### Units -/

mutual

theorem holdsHead_item :
    ∀ (s : Stmt) {place : Place} {host : Host} {d : Declared} {i k : Journal} {code : List Code},
      d ∈ s.declarations → (item env place host s).Yields i code k →
        Code.HoldsHead (declarationKeyword d.kind) (ident d.name) code
  | .namespaceDecl name decls, place, host, d, i, k, code, hd, h => by
    rw [Stmt.declarations] at hd
    rw [item] at h
    obtain ⟨body, i₁, hbody, h⟩ := Gen.yields_bind.mp h
    obtain ⟨rfl, -⟩ := Gen.yields_pure.mp h
    have hholds :=
      holdsHead_nestedMods (holdsHead_separatedItems decls hd hbody) (Text.splitOn '.' name)
    simpa using hholds.append [.separator] []
  | .typeDecl kind ⟨name, modifiers, attributes, generics, base, interfaces, decls⟩, place, host, d,
      i, k, code, hd, h => by
    rw [Stmt.declarations] at hd
    obtain ⟨hunmarked, hd⟩ := Stmt.mem_of_mem_unmarked hd
    obtain rfl := List.mem_singleton.mp hd
    let decl : TypeDecl := ⟨name, modifiers, attributes, generics, base, interfaces, decls⟩
    cases kind with
    | interface =>
      rw [item] at h
      exact holdsHead_traitCode (d := decl) hunmarked h
    | cls | struct => exact holdsHead_structCode (d := decl) hunmarked h
  | .enumDecl ⟨name, modifiers, attributes, variants⟩, place, host, d, i, k, code, hd, h => by
    rw [Stmt.declarations] at hd
    obtain ⟨hunmarked, hd⟩ := Stmt.mem_of_mem_unmarked hd
    obtain rfl := List.mem_singleton.mp hd
    rw [item] at h
    exact holdsHead_enumCode (d := ⟨name, modifiers, attributes, variants⟩) hunmarked h
  | .moduleDecl ⟨name, modifiers, attributes, decls⟩, place, host, d, i, k, code, hd, h => by
    rw [Stmt.declarations] at hd
    obtain ⟨hunmarked, hd⟩ := Stmt.mem_of_mem_unmarked hd
    rw [item] at h
    obtain ⟨skipped, i₁, hskipped, h⟩ := Gen.yields_bind.mp h
    rw [target.always_skipMarked _ _ _ hskipped, hunmarked, if_neg Bool.false_ne_true] at h
    extract_lets inner at h
    obtain ⟨lines, i₂, -, h⟩ := Gen.yields_bind.mp h
    obtain ⟨body, i₃, hbody, h⟩ := Gen.yields_bind.mp h
    obtain ⟨rfl, -⟩ := Gen.yields_pure.mp h
    have hinner := (holdsHead_items decls hd hbody).append [.text "use super::*;"] []
    rw [List.append_nil] at hinner
    exact hinner.block (List.mem_append_right _ (List.mem_singleton.mpr rfl))
  | .includeDecl path decls, place, host, d, i, k, code, hd, h => by
    rw [Stmt.declarations] at hd
    rw [item] at h
    exact holdsHead_items decls hd h
  | .importDecl _, _, _, _, _, _, _, hd, _ | .aliasDecl _, _, _, _, _, _, _, hd, _
  | .functionDecl _ _, _, _, _, _, _, _, hd, _ | .fieldDecl _, _, _, _, _, _, _, hd, _
  | .propertyDecl _, _, _, _, _, _, _, hd, _ | .binding _, _, _, _, _, _, _, hd, _
  | .ifThen _ _ _, _, _, _, _, _, _, hd, _ | .whileLoop _ _, _, _, _, _, _, _, hd, _
  | .forLoop _ _ _ _, _, _, _, _, _, _, hd, _ | .forEach _ _ _ _, _, _, _, _, _, _, hd, _
  | .ret _, _, _, _, _, _, _, hd, _ | .breakLoop, _, _, _, _, _, _, hd, _
  | .continueLoop, _, _, _, _, _, _, hd, _ | .matchOn _ _, _, _, _, _, _, _, hd, _
  | .switchOn _ _, _, _, _, _, _, _, hd, _ | .expr _, _, _, _, _, _, _, hd, _
  | .raw _, _, _, _, _, _, _, hd, _ => by
    simp only [Stmt.declarations, List.not_mem_nil] at hd

theorem holdsHead_items :
    ∀ (ss : List Stmt) {place : Place} {host : Host} {d : Declared} {i k : Journal}
      {code : List Code}, d ∈ Stmt.allDeclarations ss →
        (items env place host ss).Yields i code k →
          Code.HoldsHead (declarationKeyword d.kind) (ident d.name) code
  | [], _, _, _, _, _, _, hd, _ => by simp only [Stmt.allDeclarations, List.not_mem_nil] at hd
  | s :: ss, place, host, d, i, k, code, hd, h => by
    rw [Stmt.allDeclarations, List.mem_append] at hd
    rw [items] at h
    obtain ⟨own, i₁, hown, h⟩ := Gen.yields_bind.mp h
    obtain ⟨rest, i₂, hrest, h⟩ := Gen.yields_bind.mp h
    obtain ⟨rfl, -⟩ := Gen.yields_pure.mp h
    rcases hd with hd | hd
    · simpa using (holdsHead_item s hd hown).append [] rest
    · simpa using (holdsHead_items ss hd hrest).append own []

theorem holdsHead_separatedItems :
    ∀ (ss : List Stmt) {d : Declared} {i k : Journal} {code : List Code},
      d ∈ Stmt.allDeclarations ss → (separatedItems env ss).Yields i code k →
        Code.HoldsHead (declarationKeyword d.kind) (ident d.name) code
  | [], _, _, _, _, hd, _ => by simp only [Stmt.allDeclarations, List.not_mem_nil] at hd
  | s :: ss, d, i, k, code, hd, h => by
    rw [Stmt.allDeclarations, List.mem_append] at hd
    rw [separatedItems] at h
    obtain ⟨own, i₁, hown, h⟩ := Gen.yields_bind.mp h
    obtain ⟨rest, i₂, hrest, h⟩ := Gen.yields_bind.mp h
    obtain ⟨rfl, -⟩ := Gen.yields_pure.mp h
    rcases hd with hd | hd
    · exact (holdsHead_item s hd hown).append [.separator] rest
    · simpa using (holdsHead_separatedItems ss hd hrest).append (.separator :: own) []

end

/-- A unit has the head of each type that it declares. -/
theorem holdsHead_programCode {config : Config} {program : Program} {hasEntry : Bool} {d : Declared}
    (h : (programCode config program).Yields {} (code, hasEntry) k)
    (hd : d ∈ Stmt.allDeclarations (Stmt.flattenAll program.stmts)) :
    Code.HoldsHead (declarationKeyword d.kind) (ident d.name) code := by
  obtain ⟨part, ahead, written, i, j, hahead, -, rfl⟩ := exists_entryPart h
  obtain ⟨raws, i₁, -, hahead⟩ := Gen.yields_bind.mp hahead
  obtain ⟨containers, i₂, hcontainers, hahead⟩ := Gen.yields_bind.mp hahead
  obtain ⟨functions, i₃, -, hahead⟩ := Gen.yields_bind.mp hahead
  obtain ⟨rfl, -⟩ := Gen.yields_pure.mp hahead
  have hd := Stmt.mem_allDeclarations_containers (Stmt.isInclude_of_mem_flattenAll _) hd
  rw [List.append_assoc (raws ++ containers)]
  exact (holdsHead_items _ hd hcontainers).append raws (functions ++ part)

end Rust

end SourceGen
