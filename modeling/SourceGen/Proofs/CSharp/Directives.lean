import SourceGen.Proofs.CSharp.UnitAlike
import SourceGen.Proofs.CSharp.UnitRecords
import SourceGen.Proofs.CSharp.UnitWritten
import SourceGen.Proofs.Directives

/-!
# C# directives

Imports that keep their names have one line each. An import under another name is an alias, and
aliases are listed as often as they are written.

## Main definitions

* `CSharp.importLine`: the directive for a required import.

## Main results

* `CSharp.source_of_header`: how the top of a unit is laid out.
* `CSharp.count_usingLine`: how many lines there are for an import.
-/

namespace SourceGen

namespace CSharp

variable {config : Config} {resolver : TypeResolver} {p : Program} {env : Env} {sections : Sections}
  {i j k : Journal} {g : Generated}

/-- The directive for a required import. -/
def importLine (name : String) : String :=
  "using " ++ name ++ ";"

theorem importAliases_eq (imports : List Import) :
    importAliases imports = (imports.filter (·.localName.isSome)).map usingLine := by
  induction imports with
  | nil => rfl
  | cons d ds ih =>
    rw [importAliases, List.filterMap_cons, List.filter_cons, ← importAliases, ih]
    cases hname : d.localName with
    | none => rfl
    | some name => simp [usingLine, hname]

/-- The import keeps its name, under which it is required. -/
def Requires (d : Import) (name : String) : Prop :=
  d.localName.isNone ∧ name = Text.join "." d.path

/-- Writing the directives requires the imports that keep their names. -/
theorem exists_acts_header (env : Env) (sections : Sections) :
    ∃ more : String → Prop, Gen.Acts target []
      (fun name => (∃ d ∈ sections.imports, Requires d name) ∨ more name)
      (header env sections) := by
  obtain ⟨more, htypes, -⟩ : Gen.Alike target [] (typeAliases env sections.aliases)
      (typeAliases env sections.aliases) := alike_typeAliases sections.aliases
  refine ⟨fun name => more name ∨ False, ?_⟩
  unfold header
  refine Gen.Acts.bind (.forIn (fun d _ => ?_) fun d _ => ?_) fun _ => ?_
  · split
    · rename_i hname
      refine ((Gen.Acts.requireImport _).map _).congr (fun _ => .rfl) fun name => ?_
      simp [Requires, hname]
    · rename_i hname
      refine (Gen.Acts.pure _).congr (fun _ => .rfl) fun name => ?_
      simp [Requires, hname]
  · split
    · exact .after fun _ => .pure rfl
    · exact .pure rfl
  · exact htypes.bind fun _ => Gen.Acts.get.map _

/-- What is laid out at the top are the imports in the journal, then the aliases. -/
theorem source_of_header {top : String} (h : (header env sections).Yields i top k)
    (body : String) :
    ∃ lines j, (typeAliases env sections.aliases).Yields j lines k ∧
      (if top.isEmpty then body else top ++ "\n" ++ body) =
        Text.unlines (Text.paragraphs
          [k.imports.map importLine, importAliases sections.imports ++ lines]) ++ body := by
  unfold header at h
  obtain ⟨u, i₁, -, h⟩ := Gen.yields_bind.mp h
  obtain ⟨lines, i₂, hlines, h⟩ := Gen.yields_bind.mp h
  obtain ⟨journal, i₃, hget, h⟩ := Gen.yields_bind.mp h
  obtain ⟨rfl, rfl⟩ := Gen.yields_get.mp hget
  obtain ⟨rfl, rfl⟩ := Gen.yields_pure.mp h
  refine ⟨lines, i₁, hlines, ?_⟩
  have himports : String.join (i₂.imports.map fun name => "using " ++ name ++ ";\n") =
      Text.unlines (i₂.imports.map importLine) := Text.join_map_line "using " i₂.imports
  rw [← Text.unlines_paragraphs_pair, himports, List.isEmpty_map]
  rfl

/-- The imports that keep their names are in the journal at the end, sorted, each once. -/
theorem imports_of_generate (h : (generate config resolver p).Yields {} g k) :
    k.Sorted ∧ ∀ d ∈ p.sections.imports, d.localName.isNone → Text.join "." d.path ∈ k.imports := by
  obtain ⟨top, code, entry, i, hcode, htop, -⟩ := exists_header_of_generate h
  generalize henv : (⟨config, KnownTypes.collect (Stmt.flattenAll p.stmts), resolver⟩ : Env) = env
    at htop
  obtain ⟨needs, hunit, -⟩ : Gen.Alike target
      (unitEvents env.config (Stmt.flattenAll p.stmts) p.sections)
      (unitCode env (Stmt.flattenAll p.stmts) p.sections)
      (unitCode env (Stmt.flattenAll p.stmts) p.sections) :=
    alike_unitCode (alike_separated p.sections.containers) rfl
  obtain ⟨more, hheader⟩ := exists_acts_header env p.sections
  have hcode : (unitCode env (Stmt.flattenAll p.stmts) p.sections).Yields {} (code, entry) i := by
    rw [← henv]
    exact hcode
  -- The code is written ahead of the header, which adds to the imports that the code requires.
  have hsorted : i.Sorted := (hunit.of_yields Journal.sorted_empty hcode).2.sorted
  have hgrows := (hheader.of_yields hsorted htop).2
  refine ⟨hgrows.sorted, fun d hd hname => ?_⟩
  exact (hgrows.mem_imports _).mpr (.inr (.inl ⟨d, hd, hname, rfl⟩))

/-- The imports in the journal at the end have no equals signs. -/
theorem notMem_of_mem_imports (h : (generate config resolver p).Yields {} g k)
    (hplain : ∀ d ∈ p.sections.imports, d.IsPlain) {name : String} (hname : name ∈ k.imports) :
    '=' ∉ name.toList := by
  have hown : ∀ name ∈ ownImports, '=' ∉ name.toList := by decide
  have hrecords : Gen.Records (fun _ => true) (allImports p.sections) _
      (generate config resolver p) := records_generate config resolver p
  have hall := (hrecords h).2 name hname
  rcases hall with hnil | hmem
  · cases hnil
  rcases List.mem_append.mp hmem with hmem | hmem
  · exact hown name hmem
  · obtain ⟨d, hd, rfl⟩ := List.mem_map.mp hmem
    exact Text.notMem_join (by decide) (hplain d (List.mem_filter.mp hd).1)

theorem usingLine_of_isNone {d : Import} (h : d.localName.isNone) :
    usingLine d = importLine (Text.join "." d.path) := by
  rw [usingLine, Option.isNone_iff_eq_none.mp h, importLine]

theorem mem_usingLine_of_isSome {d : Import} (h : d.localName.isSome) :
    '=' ∈ (usingLine d).toList := by
  obtain ⟨name, hname⟩ := Option.isSome_iff_exists.mp h
  simp [usingLine, hname]

theorem notMem_importLine {name : String} (h : '=' ∉ name.toList) :
    '=' ∉ (importLine name).toList := by
  simp [importLine, h]

theorem importLine_injective : Function.Injective importLine :=
  Text.enclose_injective "using " ";"

/-- The directive for a type alias has an equals sign. -/
theorem always_typeAliases (aliases : List Alias) :
    (typeAliases env aliases).Always fun lines => ∀ line ∈ lines, '=' ∈ line.toList := by
  induction aliases with
  | nil => exact .pure (by simp)
  | cons d ds ih =>
    rw [typeAliases]
    split
    · refine .after fun spelling => .bind ih fun lines hlines => .pure ?_
      refine List.forall_mem_cons.mpr ⟨?_, hlines⟩
      simp
    · exact .after fun _ => ih

/-- The directives for imports under another name are all with an equals sign. -/
theorem count_importAliases {imports : List Import} (hplain : ∀ d ∈ imports, d.IsPlain)
    {line : String} (h : '=' ∈ line.toList) :
    (importAliases imports).count line = (imports.map usingLine).count line := by
  rw [importAliases_eq, List.count_eq_countP, List.count_eq_countP, List.countP_map,
    List.countP_map, List.countP_filter]
  refine List.countP_congr fun d hd => ?_
  cases hname : d.localName with
  | some name => simp
  | none =>
    have hnone : d.localName.isNone := by simp [hname]
    have hplain : '=' ∉ (Text.join "." d.path).toList :=
      Text.notMem_join (by decide) (hplain d hd)
    have hne : usingLine d ≠ line := by
      rintro rfl
      rw [usingLine_of_isNone hnone] at h
      exact notMem_importLine hplain h
    simp [hne]

/-- An import that keeps its name has one line. One under another name has a line for each of the
imports and type aliases that read the same. -/
theorem count_usingLine (h : (generate config resolver p).Yields {} g k)
    (hplain : ∀ d ∈ p.sections.imports, d.IsPlain) {lines : List String}
    (hlines : (typeAliases env p.sections.aliases).Yields j lines k) {d : Import}
    (hd : d ∈ p.sections.imports) :
    (Text.paragraphs [k.imports.map importLine,
        importAliases p.sections.imports ++ lines]).count (usingLine d) =
      if d.localName.isSome then
        (p.sections.imports.map usingLine).count (usingLine d) + lines.count (usingLine d)
      else 1 := by
  have hne : usingLine d ≠ "" := by
    rw [usingLine]
    split <;> simp [← String.toList_inj]
  obtain ⟨hsorted, hmem⟩ := imports_of_generate h
  have hlines := always_typeAliases p.sections.aliases hlines
  -- An equals sign tells the lines for aliases from those for imports that keep their names.
  rw [Text.count_paragraphs hne, List.map_cons, List.map_cons, List.map_nil, List.sum_cons,
    List.sum_cons, List.sum_nil, List.count_append, Nat.add_zero]
  cases hname : d.localName with
  | some name =>
    have hsign : '=' ∈ (usingLine d).toList := mem_usingLine_of_isSome (by simp [hname])
    have himports : (k.imports.map importLine).count (usingLine d) = 0 := by
      rw [List.count_eq_zero]
      intro hline
      obtain ⟨required, hrequired, hsame⟩ := List.mem_map.mp hline
      rw [← hsame] at hsign
      exact notMem_importLine (notMem_of_mem_imports h hplain hrequired) hsign
    rw [himports, Nat.zero_add, count_importAliases hplain hsign]
    rfl
  | none =>
    have hnone : d.localName.isNone := by simp [hname]
    have hsign : '=' ∉ (usingLine d).toList := by
      rw [usingLine_of_isNone hnone]
      exact notMem_importLine (Text.notMem_join (by decide) (hplain d hd))
    have himports : (k.imports.map importLine).count (usingLine d) = 1 := by
      rw [usingLine_of_isNone hnone]
      exact hsorted.count_map importLine_injective (hmem d hd hnone)
    have htypes : lines.count (usingLine d) = 0 :=
      List.count_eq_zero.mpr fun hline => hsign (hlines _ hline)
    have haliases : (importAliases p.sections.imports).count (usingLine d) = 0 := by
      rw [List.count_eq_zero, importAliases_eq]
      intro hline
      obtain ⟨other, hother, hsame⟩ := List.mem_map.mp hline
      rw [← hsame] at hsign
      exact hsign (mem_usingLine_of_isSome (List.mem_filter.mp hother).2)
    rw [himports, haliases, htypes]
    rfl

end CSharp

end SourceGen
