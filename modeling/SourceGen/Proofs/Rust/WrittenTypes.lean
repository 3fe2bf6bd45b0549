import SourceGen.Proofs.CSharp.EntryDefinition
import SourceGen.Proofs.Rust.LabelledBody
import SourceGen.Proofs.Rust.Signatures
import SourceGen.Proofs.StagedMerge

/-!
# Types in Rust units

A unit holds the code of each type that it declares, inside the modules that stand for the
namespaces and modules around the type. Only a marked type is left out, and all types in a marked
module.

## Main definitions

* `Stmt.allWrittenTypes`: the types that are written for some statements.
* `Rust.HoldsType`, `Rust.Holds`: a type or a block stands in some code, inside modules.

## Main results

* `Rust.holdsType_programCode`: a unit holds the types that are written.
* `Rust.holds_trait`, `Rust.holds_impl`: its traits and implementations.
-/

namespace SourceGen

/-- A part of a part stands inside the blocks around both. -/
theorem Code.Inside.trans {part middle code : List Code} {inner outer : List Fragment}
    (h : Inside part inner middle) (h' : Inside middle outer code) :
    Inside part (outer ++ inner) code := by
  induction outer generalizing code with
  | nil =>
    obtain ⟨before, after, rfl⟩ := h'
    exact h.append before after
  | cons head outer ih =>
    obtain ⟨body, hbody, h'⟩ := h'
    exact ⟨body, hbody, ih h'⟩

namespace Stmt

mutual

/-- The types that are written for a statement, also inside namespaces, modules and includes. -/
def writtenTypes : Stmt → List (TypeKind × TypeDecl)
  | .namespaceDecl _ decls => allWrittenTypes decls
  | .moduleDecl ⟨_, _, attributes, decls⟩ =>
    if (Marker.of? attributes).isSome then [] else allWrittenTypes decls
  | .includeDecl _ decls => allWrittenTypes decls
  | .typeDecl kind decl => if (Marker.of? decl.attributes).isSome then [] else [(kind, decl)]
  | _ => []

/-- The types that are written for some statements. -/
def allWrittenTypes : List Stmt → List (TypeKind × TypeDecl)
  | [] => []
  | s :: ss => s.writtenTypes ++ allWrittenTypes ss

end

theorem allWrittenTypes_eq_flatMap (ss : List Stmt) :
    allWrittenTypes ss = ss.flatMap writtenTypes := by
  induction ss with
  | nil => rfl
  | cons s ss ih => rw [allWrittenTypes, List.flatMap_cons, ih]

/-- Apart from includes, only containers hold types. -/
theorem mem_allWrittenTypes_containers {ss : List Stmt} (hss : ∀ s ∈ ss, s.isInclude = false)
    {type : TypeKind × TypeDecl} (h : type ∈ allWrittenTypes ss) :
    type ∈ allWrittenTypes (Sections.of ss).containers := by
  rw [allWrittenTypes_eq_flatMap, List.mem_flatMap] at h
  obtain ⟨s, hs, htype⟩ := h
  rw [allWrittenTypes_eq_flatMap, List.mem_flatMap, Sections.containers_of]
  refine ⟨s, List.mem_filter.mpr ⟨hs, ?_⟩, htype⟩
  cases s with
  | namespaceDecl _ _ | typeDecl _ _ | enumDecl _ | moduleDecl _ => rfl
  | includeDecl path stmts => exact absurd (hss _ hs) Bool.noConfusion
  | _ => simp [writtenTypes] at htype

mutual

theorem sublist_writtenTypes : ∀ s : Stmt, s.writtenTypes.Sublist s.declaredTypes
  | .namespaceDecl _ decls => by
    rw [writtenTypes, declaredTypes]
    exact sublist_allWrittenTypes decls
  | .moduleDecl ⟨_, _, _, decls⟩ => by
    rw [writtenTypes, declaredTypes]
    split
    · exact List.nil_sublist _
    · exact sublist_allWrittenTypes decls
  | .includeDecl _ decls => by
    rw [writtenTypes, declaredTypes]
    exact sublist_allWrittenTypes decls
  | .typeDecl kind decl => by
    rw [writtenTypes, declaredTypes]
    split
    · exact List.nil_sublist _
    · exact List.Sublist.refl _
  | .importDecl _ | .aliasDecl _ | .enumDecl _ | .functionDecl _ _ | .fieldDecl _
  | .propertyDecl _ | .binding _ | .ifThen _ _ _ | .whileLoop _ _ | .forLoop _ _ _ _
  | .forEach _ _ _ _ | .ret _ | .breakLoop | .continueLoop | .matchOn _ _ | .switchOn _ _
  | .expr _ | .raw _ => by simp only [writtenTypes, List.nil_sublist]

/-- The types that are written are declared. -/
theorem sublist_allWrittenTypes :
    ∀ ss : List Stmt, (allWrittenTypes ss).Sublist (allDeclaredTypes ss)
  | [] => by rw [allWrittenTypes, allDeclaredTypes]
  | s :: ss => by
    rw [allWrittenTypes, allDeclaredTypes]
    exact (sublist_writtenTypes s).append (sublist_allWrittenTypes ss)

end

end Stmt

namespace Rust

open Fragment (text)

variable {env : Env} {i j k : Journal} {code part : List Code}

/-- The code of a type with members. -/
def typeCode (env : Env) : TypeKind → TypeDecl → Gen (List Code)
  | .interface, d => traitCode env d
  | _, d => structCode env d

/-- The type is not left out, and its code stands in some code, inside modules. -/
def HoldsType (env : Env) (kind : TypeKind) (d : TypeDecl) (code : List Code) : Prop :=
  (Marker.of? d.attributes).isSome = false ∧
    ∃ (part : List Code) (heads : List Fragment) (i k : Journal),
      Code.Inside part heads code ∧ (typeCode env kind d).Yields i part k

namespace HoldsType

variable {kind : TypeKind} {d : TypeDecl}

theorem append (h : HoldsType env kind d code) (before after : List Code) :
    HoldsType env kind d (before ++ code ++ after) := by
  obtain ⟨hunmarked, part, heads, i, k, hpart, hyields⟩ := h
  exact ⟨hunmarked, part, heads, i, k, hpart.append before after, hyields⟩

theorem block (h : HoldsType env kind d code) (before after : List Code) {head : Fragment}
    {first : Code} :
    HoldsType env kind d (before ++ .block .plain head (first :: code) "" :: after) := by
  obtain ⟨hunmarked, part, heads, i, k, hpart, hyields⟩ := h
  refine ⟨hunmarked, part, head :: heads, i, k, ⟨first :: code, by simp, ?_⟩, hyields⟩
  simpa using hpart.append [first] []

theorem nestedMods (h : HoldsType env kind d code) (parts : List String) :
    HoldsType env kind d (nestedMods code parts) := by
  induction parts with
  | nil => exact h
  | cons part parts ih => exact ih.block [] []

end HoldsType

mutual

theorem holdsType_item :
    ∀ (s : Stmt) {place : Place} {host : Host} {kind : TypeKind} {d : TypeDecl} {i k : Journal}
      {code : List Code}, (kind, d) ∈ s.writtenTypes →
        (item env place host s).Yields i code k → HoldsType env kind d code
  | .namespaceDecl name decls, place, host, kind, d, i, k, code, hmem, h => by
    rw [item] at h
    obtain ⟨body, i₁, hbody, h⟩ := Gen.yields_bind.mp h
    obtain ⟨rfl, -⟩ := Gen.yields_pure.mp h
    have hholds := (holdsType_separatedItems decls hmem hbody).nestedMods (Text.splitOn '.' name)
    simpa using hholds.append [.separator] []
  | .typeDecl kind decl, place, host, kind', d, i, k, code, hmem, h => by
    rw [Stmt.writtenTypes] at hmem
    split at hmem
    · cases hmem
    · rename_i hunmarked
      obtain ⟨rfl, rfl⟩ := Prod.mk.inj (List.mem_singleton.mp hmem)
      refine ⟨by simpa using hunmarked, code, [], i, k, .refl code, ?_⟩
      cases kind' <;> exact h
  | .moduleDecl ⟨name, modifiers, attributes, decls⟩,
      place, host, kind, d, i, k, code, hmem, h => by
    rw [item] at h
    rw [Stmt.writtenTypes] at hmem
    obtain ⟨skipped, i₁, hskipped, h⟩ := Gen.yields_bind.mp h
    rw [target.always_skipMarked _ _ _ hskipped] at h
    split at hmem
    · cases hmem
    · rename_i hunmarked
      rw [if_neg hunmarked] at h
      obtain ⟨lines, i₂, -, h⟩ := Gen.yields_bind.mp h
      obtain ⟨body, i₃, hbody, h⟩ := Gen.yields_bind.mp h
      obtain ⟨rfl, -⟩ := Gen.yields_pure.mp h
      exact (holdsType_items decls hmem hbody).block (.separator :: lines) []
  | .includeDecl path decls, place, host, kind, d, i, k, code, hmem, h => by
    rw [item] at h
    exact holdsType_items decls hmem h
  | .importDecl _, _, _, _, _, _, _, _, hmem, _ | .aliasDecl _, _, _, _, _, _, _, _, hmem, _
  | .enumDecl _, _, _, _, _, _, _, _, hmem, _ | .functionDecl _ _, _, _, _, _, _, _, _, hmem, _
  | .fieldDecl _, _, _, _, _, _, _, _, hmem, _ | .propertyDecl _, _, _, _, _, _, _, _, hmem, _
  | .binding _, _, _, _, _, _, _, _, hmem, _ | .ifThen _ _ _, _, _, _, _, _, _, _, hmem, _
  | .whileLoop _ _, _, _, _, _, _, _, _, hmem, _ | .forLoop _ _ _ _, _, _, _, _, _, _, _, hmem, _
  | .forEach _ _ _ _, _, _, _, _, _, _, _, hmem, _ | .ret _, _, _, _, _, _, _, _, hmem, _
  | .breakLoop, _, _, _, _, _, _, _, hmem, _ | .continueLoop, _, _, _, _, _, _, _, hmem, _
  | .matchOn _ _, _, _, _, _, _, _, _, hmem, _ | .switchOn _ _, _, _, _, _, _, _, _, hmem, _
  | .expr _, _, _, _, _, _, _, _, hmem, _ | .raw _, _, _, _, _, _, _, _, hmem, _ => by
    simp only [Stmt.writtenTypes, List.not_mem_nil] at hmem

theorem holdsType_items :
    ∀ (ss : List Stmt) {place : Place} {host : Host} {kind : TypeKind} {d : TypeDecl}
      {i k : Journal} {code : List Code}, (kind, d) ∈ Stmt.allWrittenTypes ss →
        (items env place host ss).Yields i code k → HoldsType env kind d code
  | [], _, _, _, _, _, _, _, hmem, _ => by
    simp only [Stmt.allWrittenTypes, List.not_mem_nil] at hmem
  | s :: ss, place, host, kind, d, i, k, code, hmem, h => by
    rw [items] at h
    obtain ⟨own, i₁, hown, h⟩ := Gen.yields_bind.mp h
    obtain ⟨rest, i₂, hrest, h⟩ := Gen.yields_bind.mp h
    obtain ⟨rfl, -⟩ := Gen.yields_pure.mp h
    rw [Stmt.allWrittenTypes, List.mem_append] at hmem
    rcases hmem with hmem | hmem
    · simpa using (holdsType_item s hmem hown).append [] rest
    · simpa using (holdsType_items ss hmem hrest).append own []

theorem holdsType_separatedItems :
    ∀ (ss : List Stmt) {kind : TypeKind} {d : TypeDecl} {i k : Journal} {code : List Code},
      (kind, d) ∈ Stmt.allWrittenTypes ss → (separatedItems env ss).Yields i code k →
        HoldsType env kind d code
  | [], _, _, _, _, _, hmem, _ => by
    simp only [Stmt.allWrittenTypes, List.not_mem_nil] at hmem
  | s :: ss, kind, d, i, k, code, hmem, h => by
    rw [separatedItems] at h
    obtain ⟨own, i₁, hown, h⟩ := Gen.yields_bind.mp h
    obtain ⟨rest, i₂, hrest, h⟩ := Gen.yields_bind.mp h
    obtain ⟨rfl, -⟩ := Gen.yields_pure.mp h
    rw [Stmt.allWrittenTypes, List.mem_append] at hmem
    rcases hmem with hmem | hmem
    · exact (holdsType_item s hmem hown).append [.separator] rest
    · simpa using (holdsType_separatedItems ss hmem hrest).append (.separator :: own) []

end

/-! ### Units -/

/-- A block with the given property stands in the code, inside modules. -/
def Holds (P : Code → Prop) (code : List Code) : Prop :=
  ∃ (c : Code) (heads : List Fragment), Code.Inside [c] heads code ∧ P c

/-- What stays fixed while a program is written. -/
def programEnv (config : Config) (program : Program) : Env :=
  let stmts := Stmt.flattenAll program.stmts
  ⟨config, KnownTypes.collect stmts, collectTraits stmts⟩

variable {config : Config} {program : Program} {kind : TypeKind} {d : TypeDecl} {hasEntry : Bool}

/-- The code of a unit holds the code of each type that is written. -/
theorem holdsType_programCode (h : (programCode config program).Yields {} (code, hasEntry) k)
    (hd : (kind, d) ∈ Stmt.allWrittenTypes (Stmt.flattenAll program.stmts)) :
    HoldsType (programEnv config program) kind d code := by
  obtain ⟨part, ahead, written, i, j, hahead, -, rfl⟩ := exists_entryPart h
  obtain ⟨raws, i₁, -, hahead⟩ := Gen.yields_bind.mp hahead
  obtain ⟨containers, i₂, hcontainers, hahead⟩ := Gen.yields_bind.mp hahead
  obtain ⟨functions, i₃, -, hahead⟩ := Gen.yields_bind.mp hahead
  obtain ⟨rfl, -⟩ := Gen.yields_pure.mp hahead
  have hd : (kind, d) ∈ Stmt.allWrittenTypes
      (Sections.of (Stmt.flattenAll program.stmts)).containers :=
    Stmt.mem_allWrittenTypes_containers (Stmt.isInclude_of_mem_flattenAll _) hd
  rw [List.append_assoc (raws ++ containers)]
  exact (holdsType_items _ hd hcontainers).append raws (functions ++ part)

/-- A unit has a trait for each interface that is written. -/
theorem holds_trait (h : HoldsType env .interface d code) :
    Holds (IsTrait d (traitSignatures (agreedReceiver env d.name) d.members)) code := by
  obtain ⟨hunmarked, part, heads, i, k, hpart, hyields⟩ := h
  obtain ⟨c, hc, htrait⟩ := always_traitCode d hunmarked hyields
  obtain ⟨before, after, rfl⟩ := List.append_of_mem hc
  exact ⟨c, heads ++ [], .trans ⟨before, after, by simp⟩ hpart, htrait⟩

/-- A unit has an implementation of each interface that a written class or struct lists. -/
theorem holds_impl (hkind : kind ≠ .interface) (h : HoldsType env kind d code) {index : Nat}
    {trait : TypeRef} (htrait : (implemented env d)[index]? = some trait) :
    Holds (IsImpl env d trait (implSignatures env (implemented env d) index trait.name d.members))
      code := by
  obtain ⟨hunmarked, part, heads, i, k, hpart, hyields⟩ := h
  have hyields : (structCode env d).Yields i part k := by
    cases kind with
    | interface => exact absurd rfl hkind
    | _ => exact hyields
  obtain ⟨c, hc, himpl⟩ := always_structCode d hunmarked hyields index trait htrait
  obtain ⟨before, after, rfl⟩ := List.append_of_mem hc
  exact ⟨c, heads ++ [], .trans ⟨before, after, by simp⟩ hpart, himpl⟩

end Rust

end SourceGen
