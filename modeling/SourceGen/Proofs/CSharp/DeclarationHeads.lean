import SourceGen.Proofs.CSharp.EntryDefinition
import SourceGen.Proofs.CSharp.UnitWritten
import SourceGen.Proofs.DeclaredNames

/-!
# Heads of C# declarations

A C# unit has a block for each type that it declares, and the head of the block has the identifier
of the type behind its keyword.

## Main definitions

* `CSharp.declarationKeyword`: the keyword of a declaration.

## Main results

* `CSharp.mapType_declared`: the spelling of a reference to a declared name.
* `CSharp.holdsHead_programCode`: a unit has the head of each type that it declares.
-/

namespace SourceGen

namespace CSharp

open Fragment (text)

variable {env : Env} {scope : Scope} {i k : Journal} {code : List Code}

/-! ### References -/

/-- A reference to a declared name is spelled as that name, if the name means nothing else. -/
theorem mapType_declared {d : Declared} (h : d.MeansItself scope.generics)
    (hknown : env.known.contains d.name = true) :
    mapType env scope (.named d.name) = pure d.name := by
  have hclass := h.classify hknown
  rw [TypeRef.named] at hclass
  rw [mapType, h.normalize, TypeRef.named, mapNormal, hclass]
  dsimp only
  rw [mapNormalAll, pure_bind, Text.angled, List.isEmpty_nil, if_pos rfl, String.append_empty]

/-! ### Heads -/

/-- The keyword of a declaration. -/
def declarationKeyword : Option TypeKind → String
  | some kind => typeKeyword kind
  | none => "enum"

theorem endsName_whereClauses (generics : List GenericParam) :
    (whereClauses env scope generics).Always fun clauses => Text.endsName clauses = true := by
  induction generics with
  | nil => exact .pure rfl
  | cons g gs ih =>
    rw [whereClauses]
    split
    · exact ih
    · refine .after fun bounds => .after fun rest => .pure ?_
      simp only [String.append_assoc]
      exact Text.endsName_append_left _ (by decide) (by decide)

theorem declares_typeHead {outer inner : Scope} {kind : TypeKind} {name : String}
    {modifiers : List Modifier} {generics : List GenericParam} {base : Option TypeRef}
    {interfaces : List TypeRef} :
    (typeHead env outer inner kind name modifiers generics base interfaces).Always fun head =>
      ∃ words rest, head = words ++ declarationKeyword (some kind) ++ " " ++ ident name ++ rest ∧
        Text.endsName rest = true := by
  refine .after fun bases => .bind (endsName_whereClauses generics) fun clauses hclauses => .pure ?_
  refine ⟨modifierText modifiers .publicAccess false outer, genericList generics ++
    ((if bases.isEmpty then "" else " : " ++ Text.join ", " bases) ++ clauses), ?_, ?_⟩
  · simp only [String.append_assoc, declarationKeyword]
  · refine Text.endsName_append (Text.endsName_angled _) (Text.endsName_append ?_ hclauses)
    split
    · rfl
    · exact Text.endsName_append_left _ (by decide) (by decide)

theorem holdsHead_enumCode (decl : EnumDecl)
    (hunmarked : (Marker.of? decl.attributes).isSome = false)
    (h : (enumCode env scope decl).Yields i code k) :
    Code.HoldsHead (declarationKeyword none) (ident decl.name) code := by
  obtain ⟨skipped, i₁, hskipped, h⟩ := Gen.yields_bind.mp h
  rw [target.always_skipMarked _ _ _ hskipped, hunmarked, if_neg Bool.false_ne_true] at h
  obtain ⟨lines, i₂, -, h⟩ := Gen.yields_bind.mp h
  extract_lets head at h
  obtain ⟨variants, i₃, -, h⟩ := Gen.yields_bind.mp h
  obtain ⟨rfl, -⟩ := Gen.yields_pure.mp h
  refine .of_mem (modifierText decl.modifiers .publicAccess false scope) ""
    (c := .block .plain (text head) variants "") (by simp) ?_ rfl
  have hhead : head = modifierText decl.modifiers .publicAccess false scope ++
      declarationKeyword none ++ " " ++ ident decl.name ++ "" := by
    simp [head, declarationKeyword, String.append_assoc]
  rw [← hhead]
  exact .block variants

mutual

theorem holdsHead_member :
    ∀ (s : Stmt) {scope : Scope} {host : Host} {d : Declared} {i k : Journal} {code : List Code},
      d ∈ s.declarations → (member env scope host s).Yields i code k →
        Code.HoldsHead (declarationKeyword d.kind) (ident d.name) code
  | .namespaceDecl name decls, scope, host, d, i, k, code, hd, h => by
    rw [Stmt.declarations] at hd
    rw [member] at h
    split at h
    · obtain ⟨body, i₁, hbody, h⟩ := Gen.yields_bind.mp h
      obtain ⟨rfl, -⟩ := Gen.yields_pure.mp h
      exact (holdsHead_separated decls hd hbody).block (List.mem_singleton.mpr rfl)
    · exact absurd h Gen.not_yields_fail
  | .typeDecl kind ⟨name, modifiers, attributes, generics, base, interfaces, decls⟩, scope, host, d,
      i, k, code, hd, h => by
    rw [Stmt.declarations] at hd
    obtain ⟨hunmarked, hd⟩ := Stmt.mem_of_mem_unmarked hd
    obtain rfl := List.mem_singleton.mp hd
    rw [member] at h
    split at h
    · exact absurd h Gen.not_yields_fail
    · obtain ⟨skipped, i₁, hskipped, h⟩ := Gen.yields_bind.mp h
      rw [target.always_skipMarked _ _ _ hskipped, hunmarked, if_neg Bool.false_ne_true] at h
      obtain ⟨lines, i₂, -, h⟩ := Gen.yields_bind.mp h
      obtain ⟨head, i₃, hhead, h⟩ := Gen.yields_bind.mp h
      obtain ⟨body, i₄, -, h⟩ := Gen.yields_bind.mp h
      obtain ⟨rfl, -⟩ := Gen.yields_pure.mp h
      obtain ⟨words, rest, hwords, hrest⟩ := declares_typeHead hhead
      -- The head stands in front of the block, behind the attributes.
      refine .of_mem words rest (c := .block .plain (text head) body "")
        (List.mem_append_right _ (List.mem_singleton.mpr rfl)) ?_ hrest
      rw [← hwords]
      exact .block body
  | .enumDecl ⟨name, modifiers, attributes, variants⟩, scope, host, d, i, k, code, hd, h => by
    rw [Stmt.declarations] at hd
    obtain ⟨hunmarked, hd⟩ := Stmt.mem_of_mem_unmarked hd
    obtain rfl := List.mem_singleton.mp hd
    rw [member] at h
    split at h
    · exact absurd h Gen.not_yields_fail
    · exact holdsHead_enumCode ⟨name, modifiers, attributes, variants⟩ hunmarked h
  | .moduleDecl ⟨name, modifiers, attributes, decls⟩, scope, host, d, i, k, code, hd, h => by
    rw [Stmt.declarations] at hd
    obtain ⟨hunmarked, hd⟩ := Stmt.mem_of_mem_unmarked hd
    rw [member] at h
    split at h
    · exact absurd h Gen.not_yields_fail
    · obtain ⟨skipped, i₁, hskipped, h⟩ := Gen.yields_bind.mp h
      rw [target.always_skipMarked _ _ _ hskipped, hunmarked, if_neg Bool.false_ne_true] at h
      obtain ⟨lines, i₂, -, h⟩ := Gen.yields_bind.mp h
      obtain ⟨body, i₃, hbody, h⟩ := Gen.yields_bind.mp h
      obtain ⟨rfl, -⟩ := Gen.yields_pure.mp h
      exact (holdsHead_members decls hd hbody).block
        (List.mem_append_right _ (List.mem_singleton.mpr rfl))
  | .includeDecl path decls, scope, host, d, i, k, code, hd, h => by
    rw [Stmt.declarations] at hd
    rw [member] at h
    exact holdsHead_members decls hd h
  | .importDecl _, _, _, _, _, _, _, hd, _ | .aliasDecl _, _, _, _, _, _, _, hd, _
  | .functionDecl _ _, _, _, _, _, _, _, hd, _ | .fieldDecl _, _, _, _, _, _, _, hd, _
  | .propertyDecl _, _, _, _, _, _, _, hd, _ | .binding _, _, _, _, _, _, _, hd, _
  | .ifThen _ _ _, _, _, _, _, _, _, hd, _ | .whileLoop _ _, _, _, _, _, _, _, hd, _
  | .forLoop _ _ _ _, _, _, _, _, _, _, hd, _ | .forEach _ _ _ _, _, _, _, _, _, _, hd, _
  | .ret _, _, _, _, _, _, _, hd, _ | .breakLoop, _, _, _, _, _, _, hd, _
  | .continueLoop, _, _, _, _, _, _, hd, _ | .matchOn _ _, _, _, _, _, _, _, hd, _
  | .switchOn _ _, _, _, _, _, _, _, hd, _ | .expr _, _, _, _, _, _, _, hd, _
  | .raw _, _, _, _, _, _, _, hd, _ => by
    simp only [Stmt.declarations, List.not_mem_nil] at hd

theorem holdsHead_members :
    ∀ (ss : List Stmt) {scope : Scope} {host : Host} {d : Declared} {i k : Journal}
      {code : List Code}, d ∈ Stmt.allDeclarations ss →
        (members env scope host ss).Yields i code k →
          Code.HoldsHead (declarationKeyword d.kind) (ident d.name) code
  | [], _, _, _, _, _, _, hd, _ => by simp only [Stmt.allDeclarations, List.not_mem_nil] at hd
  | s :: ss, scope, host, d, i, k, code, hd, h => by
    rw [Stmt.allDeclarations, List.mem_append] at hd
    rw [members] at h
    obtain ⟨own, i₁, hown, h⟩ := Gen.yields_bind.mp h
    obtain ⟨rest, i₂, hrest, h⟩ := Gen.yields_bind.mp h
    obtain ⟨rfl, -⟩ := Gen.yields_pure.mp h
    rcases hd with hd | hd
    · simpa using (holdsHead_member s hd hown).append [] rest
    · simpa using (holdsHead_members ss hd hrest).append own []

theorem holdsHead_separated :
    ∀ (ss : List Stmt) {d : Declared} {i k : Journal} {code : List Code},
      d ∈ Stmt.allDeclarations ss → (separated env ss).Yields i code k →
        Code.HoldsHead (declarationKeyword d.kind) (ident d.name) code
  | [], _, _, _, _, hd, _ => by simp only [Stmt.allDeclarations, List.not_mem_nil] at hd
  | s :: ss, d, i, k, code, hd, h => by
    rw [Stmt.allDeclarations, List.mem_append] at hd
    rw [separated] at h
    obtain ⟨own, i₁, hown, h⟩ := Gen.yields_bind.mp h
    obtain ⟨rest, i₂, hrest, h⟩ := Gen.yields_bind.mp h
    obtain ⟨rfl, -⟩ := Gen.yields_pure.mp h
    rcases hd with hd | hd
    · exact (holdsHead_member s hd hown).append [.separator] rest
    · simpa using (holdsHead_separated ss hd hrest).append (.separator :: own) []

end

/-- A unit has the head of each type that it declares. -/
theorem holdsHead_programCode {config : Config} {resolver : TypeResolver} {program : Program}
    {entry : Option String} {d : Declared}
    (h : (programCode config resolver program).Yields i (code, entry) k)
    (hd : d ∈ Stmt.allDeclarations (Stmt.flattenAll program.stmts)) :
    Code.HoldsHead (declarationKeyword d.kind) (ident d.name) code := by
  obtain ⟨before, containers, after, i', k', hcontainers, rfl⟩ := yields_containers h
  have hd := Stmt.mem_allDeclarations_containers (Stmt.isInclude_of_mem_flattenAll _) hd
  exact (holdsHead_separated _ hd hcontainers).append before after

end CSharp

end SourceGen
