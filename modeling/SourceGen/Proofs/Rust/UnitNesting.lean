import SourceGen.Proofs.Rust.ItemNesting
import SourceGen.Rust.Unit

/-!
# Rust units are nested

The entry point and the lines at the top close what they open, as items do, so the text of a whole
unit closes every delimiter that it opens.

## Main results

* `Rust.clean_unitCode`: the code of a unit.
* `Rust.clean_compose`: the text of a unit as it is written.
* `Rust.clean_generate`: the text of a finished unit.
-/

namespace SourceGen

namespace Rust

open Fragment (text)
open Text (isPlain NestedText)

variable {env : Env}

/-! ### The entry point -/

theorem clean_plainFunctions (entrySeen : Bool) {fs : List Function}
    (h : ∀ f ∈ fs, f.everyText target isPlain = true) :
    (plainFunctions env entrySeen fs).Clean Code.Nested := by
  induction fs generalizing entrySeen with
  | nil => exact .pure fun _ => by simp
  | cons f fs ih =>
    obtain ⟨hf, hfs⟩ := List.forall_mem_cons.mp h
    rw [plainFunctions]
    split
    · exact ih true hfs
    · exact .bind (clean_plainFunction (nested_visibility _ _) hf) fun cs hcs =>
        .bind (ih entrySeen hfs) fun ds hds => .pure fun _ => by simp [hcs, hds]

theorem nested_exitMain : Code.Nested exitMain :=
  fun _ => by simp [exitMain, entryName, valueEntryName]

theorem clean_entryCode {f : Function} {loose : List Stmt} (hf : f.everyText target isPlain = true)
    (hloose : Stmt.allText target isPlain loose = true) :
    (entryCode env f loose).Clean fun r => Code.Nested r.1 := by
  unfold entryCode
  extract_lets +lift build
  have hbuild : Marker.of? f.attributes = none → (build ()).Clean fun r => Code.Nested r.1 := by
    intro hmark
    have htype : ∀ type ∈ f.returnType, type.IsPlain := by
      obtain ⟨name, params, returnType, generics, modifiers, attributes, body, _, _⟩ := f
      obtain ⟨-, -, htype, -⟩ := Function.texts_of_unmarked hmark hf
      rintro type ⟨⟩
      exact htype
    refine .bind (.optionMapM fun type h => clean_mapType (htype type h))
      fun declared hdeclared => ?_
    have hreturns : NestedText (declared.getD exitType) := by
      cases declared with
      | none => exact Text.nested_of_isPlain rfl
      | some type => exact hdeclared type rfl
    extract_lets returnsValue options
    have hoptions : NestedText options.visibility ∧ (∀ name ∈ options.name, isPlain name = true) ∧
        ∀ returns ∈ options.returns, NestedText returns := by
      dsimp only [options]
      split
      · exact ⟨Text.nested_of_isPlain rfl, by rintro _ ⟨⟩; rfl, by rintro _ ⟨⟩; exact hreturns⟩
      · exact ⟨Text.nested_of_isPlain rfl, by rintro _ ⟨⟩; rfl,
          by rintro _ ⟨⟩; exact nested_unitType⟩
    refine .bind (clean_function options _ hoptions.1 hoptions.2.1 hoptions.2.2
      (fun _ => clean_stmts loose hloose) f hf) fun cs hcs => .pure ?_
    have hexit := nested_exitMain
    split
    · exact fun _ => by simp [hcs, hexit]
    · exact fun _ => by simp [hcs]
  -- A marked entry function is reported only, and the loose statements are not written.
  split
  · exact .bind (clean_plainFunction (Text.nested_of_isPlain rfl) hf) fun cs hcs =>
      .pure hcs
  · rename_i hmark
    have hmark : Marker.of? f.attributes = none := by simpa [Function.marker] using hmark
    split
    · exact .reporting (hbuild hmark)
    · exact hbuild hmark

theorem clean_looseMain {loose : List Stmt} (h : Stmt.allText target isPlain loose = true) :
    (looseMain env loose).Clean Code.Nested := by
  refine .bind (clean_stmts loose h) fun cs hcs => ?_
  have hexit := nested_exitMain
  split
  · exact .pure fun _ => by simp [valueEntryName, exitType, hcs, hexit]
  · exact .pure fun _ => by simp [entryName, hcs]

/-! ### The unit -/

theorem clean_unitCode {sections : Sections} (h : sections.EveryText target isPlain) :
    (unitCode env sections).Clean fun r => Code.Nested r.1 := by
  unfold unitCode
  extract_lets +lift build
  have hbuild : (build ()).Clean fun r => Code.Nested r.1 := by
    refine .bind (target.clean_separatedRawCodes h.raw) fun raws hraws => ?_
    refine .bind (clean_items .space sections.containers h.containers) fun cs hcs => ?_
    refine .bind (clean_plainFunctions false h.functions) fun fs hfs => ?_
    -- However the entry point comes about, the same check follows.
    extract_lets +lift check
    have hcheck : ∀ r : List Code × Bool, Code.Nested r.1 →
        (check r).Clean fun r => Code.Nested r.1 := by
      intro r hr
      dsimp only [check]
      split
      · exact .failed _
      · exact .pure fun _ => by simp [hraws, hcs, hfs, hr]
    cases hentry : sections.entry? env.config.entryName with
    | some f =>
      have hf : f ∈ sections.functions := List.mem_of_find?_eq_some hentry
      exact .bind (clean_entryCode (h.functions f hf) h.loose) fun r hr => hcheck r hr
    | none =>
      dsimp only
      split
      · exact hcheck ([], false) fun _ => by simp
      · exact .bind (clean_looseMain h.loose) fun code hcode => hcheck (code, true) hcode
  -- A misplaced member ends the run before anything is written.
  split
  · split
    · exact .failed _
    · exact .failed _
    · exact hbuild
  · exact hbuild

/-! ### The lines at the top -/

theorem isPlain_importText {d : Import} (h : d.everyText isPlain = true) :
    isPlain (importText d) = true := by
  have hpath : isPlain (Text.join "::" d.path) = true := Import.isPlain_path h rfl
  unfold importText
  split
  · rename_i name hname
    have hlocal := Import.isPlain_localName h hname
    simp only [Text.isPlain_append, hpath, hlocal]
    rfl
  · exact hpath

theorem nested_lintAttribute : NestedText lintAttribute :=
  Text.nested_ofList_append (by decide +kernel)

theorem nested_headerText (lints : Bool) {imports aliases : List String}
    (himports : ∀ name ∈ imports, isPlain name = true)
    (haliases : ∀ line ∈ aliases, NestedText line) :
    NestedText (headerText lints imports aliases) := by
  unfold headerText
  extract_lets uses gap rest
  have huses : NestedText uses := by
    refine Text.nested_stringJoin fun s hs => ?_
    obtain ⟨name, hname, rfl⟩ := List.mem_map.mp hs
    have hname := himports name hname
    exact fun _ => by simp [hname]
  have hgap : NestedText gap := by
    dsimp only [gap]
    split
    · exact Text.nested_of_isPlain rfl
    · exact Text.nested_of_isPlain rfl
  have hlines : NestedText (String.join (aliases.map (· ++ "\n"))) := by
    refine Text.nested_stringJoin fun s hs => ?_
    obtain ⟨line, hline, rfl⟩ := List.mem_map.mp hs
    have hline := haliases line hline
    exact fun _ => by simp [hline]
  have hrest : NestedText rest := by
    dsimp only [rest]
    generalize String.join _ = lines at hlines ⊢
    exact fun _ => by simp [huses, hgap, hlines]
  have hlint := nested_lintAttribute
  split
  · split
    · exact fun _ => by simp [hlint]
    · exact fun _ => by simp [hlint, hrest]
  · exact hrest

theorem clean_header {sections : Sections} (h : sections.EveryText target isPlain) :
    (header env sections).Clean NestedText := by
  unfold header
  refine .bind (.forIn (fun d hd _ => ?_) _) fun _ _ => ?_
  · exact .importing (isPlain_importText (h.imports d hd)) (.pure trivial)
  refine .bind (.mapM fun d hd => clean_aliasLine (h.aliases d hd)) fun aliases haliases => ?_
  exact .reading fun j hj => .pure (nested_headerText _ hj haliases)

/-- The text of a unit closes every delimiter that it opens. -/
theorem clean_compose {config : Config} {program : Program}
    (h : program.everyText target isPlain = true) :
    (compose config program).Clean fun g => NestedText g.source := by
  have hsections : (Sections.of (Stmt.flattenAll program.stmts)).EveryText target isPlain :=
    Sections.everyText_of (Stmt.allText_flattenAll program.stmts h)
  unfold compose
  extract_lets +lift stmts env sections build
  have hbuild : (build ()).Clean fun g => NestedText g.source := by
    refine .bind (clean_unitCode hsections) fun r hr => ?_
    refine .bind (clean_header hsections) fun top htop => .reading fun j _ => .pure ?_
    have hbody : NestedText (Code.render (layoutStyle config) r.1) := Code.nested_render hr _
    dsimp only
    split
    · exact hbody
    · exact fun _ => by simp [htop, hbody]
  split
  · exact .failed _
  · exact hbuild

/-- A formatter that keeps delimiters well nested may print the text anew. -/
theorem clean_generate {formatter : Formatter} {config : Config} {program : Program}
    (hformatter : config.formatOutput = true → ∀ text shown,
      formatter.reprint text = .ok shown → NestedText text → NestedText shown)
    (h : program.everyText target isPlain = true) :
    (generate formatter config program).Clean fun g => NestedText g.source := by
  refine .bind (clean_compose h) fun w hw => ?_
  unfold formatted
  split
  · rename_i hasked
    split
    · rename_i shown hshown
      exact .pure (hformatter hasked _ shown hshown hw)
    · exact .reporting (.pure hw)
  · exact .pure hw

end Rust

end SourceGen
