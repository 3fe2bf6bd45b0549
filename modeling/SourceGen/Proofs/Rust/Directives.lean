import SourceGen.Proofs.Directives
import SourceGen.Proofs.Rust.LabelledBody
import SourceGen.Proofs.Rust.UnitAlike

/-!
# Rust directives

All imports of a unit are required, also those under another name, so each has one line.

## Main definitions

* `Rust.importLine`: the line for a required import.

## Main results

* `Rust.source_of_header`: how the top of a unit is laid out.
* `Rust.count_useLine`: there is one line for an import.
-/

namespace SourceGen

namespace Rust

variable {config : Config} {p : Program} {env : Env} {sections : Sections} {i j k : Journal}
  {g : Generated}

/-- The line for a required import. -/
def importLine (path : String) : String :=
  "use " ++ path ++ ";"

/-- The lines ahead of the imports. -/
def lintLines (config : Config) : List String :=
  if config.allowLints then [lintAttribute] else []

/-- Writing the lines at the top requires all imports. -/
theorem exists_acts_header (env : Env) (sections : Sections) :
    ∃ more : String → Prop, Gen.Acts target []
      (fun name => (∃ d ∈ sections.imports, name = importText d) ∨ more name)
      (header env sections) := by
  have hscope : SameTypes env env {} {} := ⟨rfl, rfl, rfl⟩
  obtain ⟨more, htypes, -⟩ : Gen.Alike target [] (sections.aliases.mapM (aliasLine env {}))
      (sections.aliases.mapM (aliasLine env {})) :=
    .mapM fun d _ => (alike_mapType hscope d.target).map _ _
  refine ⟨fun name => more name ∨ False, ?_⟩
  unfold header
  refine Gen.Acts.bind (.forIn (fun d _ => ?_) fun d _ => ?_) fun _ => ?_
  · exact (Gen.Acts.requireImport _).map _
  · exact .after fun _ => .pure rfl
  · exact htypes.bind fun _ => Gen.Acts.get.map _

/-- The text of the lines at the top. -/
theorem unlines_paragraphs_top (config : Config) (imports lines : List String) (body : String) :
    let top := headerText config.allowLints imports lines
    (if top.isEmpty then body else top ++ "\n" ++ body) =
      Text.unlines (Text.paragraphs [lintLines config, imports.map importLine, lines]) ++ body := by
  have himports : String.join (imports.map fun path => "use " ++ path ++ ";\n") =
      Text.unlines (imports.map importLine) := Text.join_map_line "use " imports
  have hpair := Text.unlines_paragraphs_pair (imports.map importLine) lines body
  rw [List.isEmpty_map] at hpair
  dsimp only [headerText]
  rw [himports, lintLines, ← Text.unlines]
  generalize Text.unlines (imports.map importLine) ++
    (if lines.isEmpty || imports.isEmpty then "" else "\n") ++ Text.unlines lines = rest at hpair ⊢
  cases config.allowLints with
  | false => exact hpair
  | true =>
    have hlint : lintAttribute ≠ "" := by decide
    simp only [if_true, Text.unlines_paragraphs_line, String.append_assoc, ← hpair]
    split <;> simp [hlint, String.append_assoc]

/-- What is laid out at the top are the lint attribute, the imports in the journal and the type
aliases. -/
theorem source_of_header {top : String} (h : (header env sections).Yields i top k)
    (body : String) :
    ∃ lines j, (sections.aliases.mapM (aliasLine env {})).Yields j lines k ∧
      (if top.isEmpty then body else top ++ "\n" ++ body) =
        Text.unlines (Text.paragraphs
          [lintLines env.config, k.imports.map importLine, lines]) ++ body := by
  unfold header at h
  obtain ⟨u, i₁, -, h⟩ := Gen.yields_bind.mp h
  obtain ⟨lines, i₂, hlines, h⟩ := Gen.yields_bind.mp h
  obtain ⟨journal, i₃, hget, h⟩ := Gen.yields_bind.mp h
  obtain ⟨rfl, rfl⟩ := Gen.yields_get.mp hget
  obtain ⟨rfl, rfl⟩ := Gen.yields_pure.mp h
  exact ⟨lines, i₁, hlines, unlines_paragraphs_top env.config i₂.imports lines body⟩

/-- The imports are in the journal at the end, sorted, each once. -/
theorem imports_of_compose (h : (compose config p).Yields {} g k) :
    k.Sorted ∧ ∀ d ∈ p.sections.imports, importText d ∈ k.imports := by
  obtain ⟨top, code, hasEntry, i, hcode, htop, -⟩ := exists_header_of_compose h
  generalize henv : (⟨config, KnownTypes.collect (Stmt.flattenAll p.stmts),
    collectTraits (Stmt.flattenAll p.stmts)⟩ : Env) = env at htop
  obtain ⟨needs, hunit, -⟩ : Gen.Alike target (unitEvents env.config p.sections)
      (unitCode env p.sections) (unitCode env p.sections) :=
    alike_unitCode env.traits (fun _ => isMember_of_mem_members)
      (alike_items rfl {} .space p.sections.containers)
  obtain ⟨more, hheader⟩ := exists_acts_header env p.sections
  have hcode : (unitCode env p.sections).Yields {} (code, hasEntry) i := by
    rw [← henv]
    exact hcode
  -- The code is written ahead of the header, which adds to the imports that the code requires.
  have hsorted : i.Sorted := (hunit.of_yields Journal.sorted_empty hcode).2.sorted
  have hgrows := (hheader.of_yields hsorted htop).2
  refine ⟨hgrows.sorted, fun d hd => ?_⟩
  exact (hgrows.mem_imports _).mpr (.inr (.inl ⟨d, hd, rfl⟩))

theorem useLine_eq (d : Import) : useLine d = importLine (importText d) := by
  rw [useLine, importText, importLine]
  cases d.localName with
  | none => rfl
  | some name => simp [String.append_assoc]

theorem importLine_injective : Function.Injective importLine :=
  Text.enclose_injective "use " ";"

theorem importLine_ne_of_clash {front back path : String}
    (h : Text.clash front.toList "use ".toList = true) : front ++ back ≠ importLine path := by
  intro hsame
  have htexts := congrArg String.toList hsame
  simp only [importLine, String.toList_append, List.append_assoc] at htexts
  exact Text.append_ne_of_clash h _ _ htexts

theorem always_aliasLines (aliases : List Alias) :
    (aliases.mapM (aliasLine env {})).Always fun lines =>
      ∀ line ∈ lines, ∃ back, line = "pub type " ++ back := by
  induction aliases with
  | nil => exact .pure (by simp)
  | cons d ds ih =>
    rw [List.mapM_cons]
    have hline : (aliasLine env {} d).Always fun line => ∃ back, line = "pub type " ++ back :=
      .after fun spelling => .pure ⟨d.name ++ genericArgs d.generics ++ " = " ++ spelling ++ ";",
        by simp only [String.append_assoc]⟩
    refine .bind hline fun line hline => .bind ih fun lines hlines => .pure ?_
    exact List.forall_mem_cons.mpr ⟨hline, hlines⟩

/-- There is one line for an import. -/
theorem count_useLine (h : (compose config p).Yields {} g k) {lines : List String}
    (hlines : (p.sections.aliases.mapM (aliasLine env {})).Yields j lines k) {d : Import}
    (hd : d ∈ p.sections.imports) :
    (Text.paragraphs [lintLines config, k.imports.map importLine, lines]).count (useLine d) =
      1 := by
  have hne : importLine (importText d) ≠ "" := by simp [importLine, ← String.toList_inj]
  obtain ⟨hsorted, hmem⟩ := imports_of_compose h
  -- No line of the other parts starts with `use`.
  have hlints : (lintLines config).count (importLine (importText d)) = 0 := by
    rw [List.count_eq_zero, lintLines]
    split
    · rw [List.mem_singleton]
      exact (importLine_ne_of_clash rfl).symm
    · exact List.not_mem_nil
  have himports := hsorted.count_map importLine_injective (hmem d hd)
  have htypes : lines.count (importLine (importText d)) = 0 := by
    rw [List.count_eq_zero]
    intro hline
    obtain ⟨back, hback⟩ := always_aliasLines p.sections.aliases hlines _ hline
    exact importLine_ne_of_clash (by decide) hback.symm
  rw [useLine_eq, Text.count_paragraphs hne]
  simp only [List.map_cons, List.map_nil, List.sum_cons, List.sum_nil]
  omega

end Rust

end SourceGen
