import SourceGen.Proofs.LooseCode
import SourceGen.Rust.Unit

/-!
# Entry points of Rust units

What is written for the entry point stands at the end of a unit. It runs the loose statements, and
then those of the entry function, unless the function is left out or has a placeholder for a body:
then the loose statements are lost.

## Main definitions

* `Rust.EntryPart`: the part of a unit that is written for the entry point.
* `Rust.EntryRuns`: the part runs the loose statements and then those of the entry function.

## Main results

* `Rust.exists_entryPart`: every unit has such a part.
* `Rust.entryRuns_iff`: when the part runs the loose statements.
-/

namespace SourceGen

namespace Rust

open Fragment (text)

variable {env : Env} {i j k : Journal} {code : List Code}

/-! ### Functions -/

theorem isLine_attributeLines (place : Place) (attributes : List Attribute) :
    (attributeLines env place attributes).Always fun cs => cs.all Code.isLine = true := by
  induction attributes with
  | nil =>
    rw [attributeLines]
    exact .pure rfl
  | cons a attributes ih =>
    obtain ⟨name, args⟩ := a
    rw [attributeLines]
    split
    · exact ih
    · refine .after fun rendered => ?_
      extract_lets shown
      split
      · exact .bind ih fun cs hcs => .pure (by simpa [Code.isLine] using hcs)
      · refine .after fun _ => .bind ih fun cs hcs => .pure ?_
        simpa [Code.isLine, Code.comment] using hcs

/-- The text is the head of a function of this name. -/
def NamesFunction (name head : String) : Prop :=
  ∃ words bounds params returns : String,
    head = words ++ "fn " ++ ident name ++ bounds ++ "(" ++ params ++ ")" ++ returns

/-- A function is left out, or its attributes and its body are written, and its head has its
name. -/
theorem yields_function_head {place : Place} {options : FunctionOptions}
    {prologue : Place → Gen (List Code)} {f : Function}
    (h : (function env place options prologue f).Yields i code k) :
    (f.marker.isNone && !Text.hasChar '.' f.name) = false ∧ code = [] ∨
      (f.marker.isNone && !Text.hasChar '.' f.name) = true ∧
        ∃ (lines body : List Code) (inner : Place) (head : String) (j : Journal),
          lines.all Code.isLine = true ∧ code = lines ++ body ∧
            (functionBody env inner options.requireBody prologue head f.body).Yields j body k ∧
              NamesFunction (options.name.getD f.name) head := by
  obtain ⟨name, params, returnType, generics, modifiers, attributes, body, isConstructor,
    isStatic⟩ := f
  rw [function] at h
  obtain ⟨skipped, i₁, hskipped, h⟩ := Gen.yields_bind.mp h
  have hmarked : skipped = (Marker.of? attributes).isSome :=
    TargetName.always_skipMarked _ _ _ _ hskipped
  cases skipped with
  | true =>
    rw [if_pos rfl] at h
    refine .inl ⟨?_, (Gen.yields_pure.mp h).1.symm⟩
    simp [Function.marker, Option.isSome_iff_ne_none.mp hmarked.symm]
  | false =>
    rw [if_neg Bool.false_ne_true] at h
    have hnone : Marker.of? attributes = none := by simpa using hmarked.symm
    split at h
    · rename_i hname
      obtain ⟨_, i₂, -, h⟩ := Gen.yields_bind.mp h
      refine .inl ⟨?_, (Gen.yields_pure.mp h).1.symm⟩
      simp [hname]
    · rename_i hname
      refine .inr ⟨by simp [Function.marker, hnone, hname], ?_⟩
      obtain ⟨lines, i₂, hlines, h⟩ := Gen.yields_bind.mp h
      obtain ⟨params, i₃, -, h⟩ := Gen.yields_bind.mp h
      extract_lets +lift shown finish at h
      -- Whatever the return type is, what follows is the same.
      have hfinish : ∃ returns i₄, (finish returns).Yields i₄ code k := by
        split at h
        · exact ⟨_, _, h⟩
        · obtain ⟨returns, i₄, -, h⟩ := Gen.yields_bind.mp h
          exact ⟨returns, i₄, h⟩
      obtain ⟨returns, i₄, h⟩ := hfinish
      obtain ⟨bounds, i₅, -, h⟩ := Gen.yields_bind.mp h
      obtain ⟨written, i₆, hwritten, h⟩ := Gen.yields_bind.mp h
      obtain ⟨rfl, rfl⟩ := Gen.yields_pure.mp h
      exact ⟨lines, written, _, _, _, isLine_attributeLines _ _ hlines, rfl, hwritten,
        _, _, _, _, rfl⟩

/-- A function is left out, or its attributes and its body are written. -/
theorem yields_function {place : Place} {options : FunctionOptions}
    {prologue : Place → Gen (List Code)} {f : Function}
    (h : (function env place options prologue f).Yields i code k) :
    (f.marker.isNone && !Text.hasChar '.' f.name) = false ∧ code = [] ∨
      (f.marker.isNone && !Text.hasChar '.' f.name) = true ∧
        ∃ (lines body : List Code) (inner : Place) (head : String) (j : Journal),
          lines.all Code.isLine = true ∧ code = lines ++ body ∧
            (functionBody env inner options.requireBody prologue head f.body).Yields j body k :=
  (yields_function_head h).imp_right fun ⟨hwritten, lines, body, inner, head, j, hlines, hcode,
    hbody, _⟩ => ⟨hwritten, lines, body, inner, head, j, hlines, hcode, hbody⟩

/-! ### Placeholders -/

/-- The line that stands in for the body of a function that has none. -/
def placeholder : Code :=
  .text "unimplemented!()"

/-- A line that ends with a semicolon of its own is no placeholder. -/
theorem placeholder_ne_line (f : Fragment) : placeholder ≠ .line (f ++ text ";") := by
  intro h
  injection h with h
  have hlength := congrArg List.length h
  cases f with
  | nil => simp [Fragment.text] at h
  | cons p f => simp [Fragment.text] at hlength

/-- Code to run is never written as a placeholder. -/
theorem placeholder_notMem_stmt (place : Place) {s : Stmt} (hs : s.isLoose = true) :
    (stmt env place s).Always fun cs => placeholder ∉ cs := by
  have hline : ∀ f : Fragment, placeholder ∉ [Code.line (f ++ text ";")] := by
    intro f hmem
    exact placeholder_ne_line f (List.mem_singleton.mp hmem)
  have hblock : ∀ role head body, placeholder ∉ [Code.block role head body ""] := by
    simp [placeholder, Code.text]
  cases s with
  | binding b =>
    rw [stmt]
    exact .after fun shown => .pure (hline shown)
  | ifThen condition thenBranch elseBranch =>
    rw [stmt]
    exact .after fun _ => .after fun _ => .after fun _ => .pure (by simp [placeholder, Code.text])
  | whileLoop condition body =>
    rw [stmt]
    exact .after fun _ => .after fun _ => .pure (hblock _ _ _)
  | forLoop start condition step body =>
    rw [stmt]
    refine .after fun first => .after fun header => ?_
    extract_lets +lift build
    have hbuild : ∀ inner, (build inner).Always fun cs => placeholder ∉ cs := by
      intro inner
      refine .after fun last => .pure ?_
      split
      · simp [placeholder, Code.text]
      · exact hblock _ _ _
    split
    · exact .after fun _ => .after fun _ => hbuild _
    · exact .after hbuild
  | forEach name type iterable body =>
    rw [stmt]
    exact .after fun _ => .after fun _ => .pure (hblock _ _ _)
  | ret value =>
    cases value with
    | none =>
      rw [stmt]
      exact .pure (by simp [placeholder, Code.text, Fragment.text])
    | some value =>
      rw [stmt]
      exact .after fun _ => .pure (hline _)
  | breakLoop =>
    rw [stmt]
    exact .pure (by simp [placeholder, Code.text])
  | continueLoop =>
    rw [stmt]
    exact .pure (by simp [placeholder, Code.text])
  | matchOn scrutinee arms =>
    rw [stmt]
    exact .after fun _ => .after fun _ => .pure (hblock _ _ _)
  | switchOn subject cases =>
    rw [stmt]
    exact .after fun _ => .after fun _ => .pure (hblock _ _ _)
  | expr value =>
    -- A match is a block here, any other expression is a line.
    by_cases hmatch : ∃ scrutinee arms, value = .matchOn scrutinee arms
    · obtain ⟨scrutinee, arms, rfl⟩ := hmatch
      rw [stmt]
      exact .after fun _ => .after fun _ => .pure (hblock _ _ _)
    · rw [stmt]
      · exact .after fun shown => .pure (hline shown)
      · intro scrutinee arms hvalue
        exact hmatch ⟨scrutinee, arms, hvalue⟩
  | _ => simp [Stmt.isLoose] at hs

theorem placeholder_notMem_stmts (place : Place) {ss : List Stmt}
    (hss : ∀ s ∈ ss, s.isLoose = true) :
    (stmts env place ss).Always fun cs => placeholder ∉ cs := by
  induction ss with
  | nil =>
    rw [stmts]
    exact .pure List.not_mem_nil
  | cons s ss ih =>
    rw [stmts]
    have htail := ih fun t ht => hss t (List.mem_cons_of_mem s ht)
    exact .bind (placeholder_notMem_stmt place (hss s List.mem_cons_self)) fun cs hcs =>
      .bind htail fun ds hds => .pure (by simp [hcs, hds])

/-! ### The parts of a unit -/

/-- What stands ahead of the entry point in a unit. -/
def aheadOfEntry (env : Env) (sections : Sections) : Gen (List Code) := do
  let raws ← target.separatedRawCodes sections.raw
  let containers ← items env {} .space sections.containers
  let functions ← plainFunctions env false sections.functions
  return raws ++ containers ++ functions

/-- What is written for the entry point, and whether it is one. -/
def entryPart (env : Env) (sections : Sections) : Gen (List Code × Bool) :=
  match sections.entry? env.config.entryName with
  | some f => entryCode env f sections.loose
  | none =>
    if sections.loose.isEmpty then pure ([], false)
    else do
      let code ← looseMain env sections.loose
      pure (code, true)

/-- The code of the unit ends with `part`, which is written for its entry point. All that stands
ahead is written without the loose statements. -/
def EntryPart (env : Env) (sections : Sections) (code part : List Code) : Prop :=
  ∃ (ahead : List Code) (hasEntry : Bool) (j k : Journal),
    (aheadOfEntry env sections).Yields {} ahead j ∧
      (entryPart env sections).Yields j (part, hasEntry) k ∧ code = ahead ++ part

/-- Every unit ends with a part that is written for its entry point. -/
theorem exists_entryPart {sections : Sections} {hasEntry : Bool}
    (h : (unitCode env sections).Yields {} (code, hasEntry) k) :
    ∃ part, EntryPart env sections code part := by
  unfold unitCode at h
  extract_lets +lift build at h
  -- No check that runs ahead has refused the unit.
  have hbuild : (build ()).Yields {} (code, hasEntry) k := by
    split at h
    · split at h
      · obtain ⟨_, _, hfail, -⟩ := Gen.yields_bind.mp h
        exact absurd hfail Gen.not_yields_fail
      · obtain ⟨_, _, hfail, -⟩ := Gen.yields_bind.mp h
        exact absurd hfail Gen.not_yields_fail
      · exact h
    · exact h
  obtain ⟨raws, i₁, hraws, hrest⟩ := Gen.yields_bind.mp hbuild
  obtain ⟨containers, i₂, hcontainers, hrest⟩ := Gen.yields_bind.mp hrest
  obtain ⟨functions, i₃, hfunctions, hrest⟩ := Gen.yields_bind.mp hrest
  have hahead : (aheadOfEntry env sections).Yields {} (raws ++ containers ++ functions) i₃ :=
    Gen.yields_bind.mpr ⟨raws, i₁, hraws, Gen.yields_bind.mpr ⟨containers, i₂, hcontainers,
      Gen.yields_bind.mpr ⟨functions, i₃, hfunctions, Gen.yields_pure.mpr ⟨rfl, rfl⟩⟩⟩⟩
  extract_lets +lift check at hrest
  -- What is left to check does not change the code.
  have hcheck : ∀ r i, (check r).Yields i (code, hasEntry) k →
      i = k ∧ hasEntry = r.2 ∧ code = raws ++ containers ++ functions ++ r.1 := by
    intro r i h
    dsimp only [check] at h
    split at h
    · obtain ⟨_, _, hfail, -⟩ := Gen.yields_bind.mp h
      exact absurd hfail Gen.not_yields_fail
    · obtain ⟨heq, rfl⟩ := Gen.yields_pure.mp h
      obtain ⟨rfl, rfl⟩ := Prod.mk.inj heq
      exact ⟨rfl, rfl, rfl⟩
  -- The entry is written last, from its own function or from the loose code alone.
  have hpart : ∃ part, (entryPart env sections).Yields i₃ (part, hasEntry) k ∧
      code = raws ++ containers ++ functions ++ part := by
    unfold entryPart
    cases hentry : sections.entry? env.config.entryName with
    | some f =>
      rw [hentry] at hrest
      obtain ⟨⟨part, written⟩, i₄, hpart, hrest⟩ := Gen.yields_bind.mp hrest
      obtain ⟨rfl, rfl, hcode⟩ := hcheck (part, written) i₄ hrest
      exact ⟨part, hpart, hcode⟩
    | none =>
      rw [hentry] at hrest
      dsimp only at hrest ⊢
      split at hrest
      · rename_i hempty
        obtain ⟨rfl, rfl, hcode⟩ := hcheck ([], false) i₃ hrest
        exact ⟨[], by rw [if_pos hempty]; exact Gen.yields_pure.mpr ⟨rfl, rfl⟩, hcode⟩
      · rename_i hempty
        obtain ⟨part, i₄, hpart, hrest⟩ := Gen.yields_bind.mp hrest
        obtain ⟨rfl, rfl, hcode⟩ := hcheck (part, true) i₄ hrest
        refine ⟨part, ?_, hcode⟩
        rw [if_neg hempty]
        exact Gen.yields_bind.mpr ⟨part, _, hpart, Gen.yields_pure.mpr ⟨rfl, rfl⟩⟩
  obtain ⟨part, hpart, hcode⟩ := hpart
  exact ⟨part, _, hasEntry, i₃, k, hahead, hpart, hcode⟩

/-! ### What the entry point runs -/

/-- The entry point runs the loose statements, then those of the entry function; a `main` that exits
with the result may follow. -/
def EntryRuns (env : Env) (sections : Sections) (part : List Code) : Prop :=
  ∃ tail ∈ [[], exitMain],
    FunctionRuns (stmts env) sections.loose (sections.entryBody env.config) tail part

/-- A declared entry function runs the loose statements exactly if it is written with its body. -/
theorem entryRuns_function_iff {sections : Sections} {f : Function} {options : FunctionOptions}
    {written tail : List Code} (hentry : sections.entry? env.config.entryName = some f)
    (hrequire : options.requireBody = true) (htail : tail ∈ [[], exitMain])
    (hloose : ∀ s ∈ sections.loose, s.isLoose = true)
    (h : (function env {} options (fun inner => stmts env inner sections.loose) f).Yields i
      written k) :
    EntryRuns env sections (.separator :: written ++ tail) ↔ f.isHost = true := by
  have hown : sections.entryBody env.config = f.body.getD [] := by
    simp [Sections.entryBody, hentry]
  obtain ⟨hskipped, rfl⟩ | ⟨hwritten, lines, body, inner, head, j, hlines, rfl, hbody⟩ :=
    yields_function h
  · -- Nothing is written of the function; what may follow starts with a blank line.
    have hhost : ¬ f.isHost = true := by simp [Function.isHost, hskipped]
    refine iff_of_false ?_ hhost
    rintro ⟨tail', -, hruns⟩
    simp only [List.mem_cons, List.not_mem_nil, or_false] at htail
    rcases htail with rfl | rfl
    · exact FunctionRuns.not_of_all rfl hruns
    · obtain ⟨head, before, after, place, _, _, _, hblank, -⟩ :=
        FunctionRuns.exists_of_append_cons hruns (rfl : [Code.separator].all Code.isLine = true) rfl
      cases hblank
  · have hseparated : (Code.separator :: lines).all Code.isLine = true := hlines
    cases hf : f.body with
    | none =>
      have hhost : ¬ f.isHost = true := by simp [Function.isHost, hf]
      refine iff_of_false ?_ hhost
      rw [hf, functionBody, if_pos hrequire] at hbody
      obtain ⟨rfl, -⟩ := Gen.yields_pure.mp hbody
      rintro ⟨tail', -, hruns⟩
      have hcode : Code.separator :: (lines ++
          [.block .function (text head) [.text "unimplemented!()"] ""]) ++ tail =
          (.separator :: lines) ++
            .block .function (text head) [placeholder] "" :: tail := by
        simp [placeholder]
      rw [hcode] at hruns
      obtain ⟨head', before, after, place, _, _, _, hblock, hbefore, hafter⟩ :=
        hruns.exists_of_append_cons hseparated rfl
      rw [hown, hf, Option.getD_none, stmts] at hafter
      obtain ⟨rfl, -⟩ := Gen.yields_pure.mp hafter
      -- The body of the function is its placeholder, and no loose statement is written so.
      obtain ⟨-, -, hbody, -⟩ := Code.block.inj hblock
      rw [List.append_nil] at hbody
      exact placeholder_notMem_stmts place hloose hbefore (by simp [← hbody])
    | some own =>
      have hhost : f.isHost = true := by
        rw [Function.isHost, hwritten, hf]
        rfl
      refine iff_of_true ?_ hhost
      rw [hf, functionBody] at hbody
      obtain ⟨before, i₁, hbefore, hbody⟩ := Gen.yields_bind.mp hbody
      obtain ⟨after, i₂, hafter, hbody⟩ := Gen.yields_bind.mp hbody
      obtain ⟨rfl, rfl⟩ := Gen.yields_pure.mp hbody
      refine ⟨tail, htail, .separator :: lines, text head, before, after, inner, j, i₁, i₂, ?_,
        hseparated, hbefore, ?_⟩
      · simp
      · rw [hown, hf]
        exact hafter

/-- The entry point runs the loose statements exactly if there is no declared entry function, or one
that is written with its body. -/
theorem entryRuns_iff {sections : Sections} {part : List Code}
    (h : EntryPart env sections code part) (hne : sections.loose ≠ [])
    (hloose : ∀ s ∈ sections.loose, s.isLoose = true) :
    EntryRuns env sections part ↔ sections.takesLoose env.config = true := by
  obtain ⟨-, hasEntry, i, k, -, h, -⟩ := h
  unfold entryPart at h
  unfold Sections.takesLoose
  cases hentry : sections.entry? env.config.entryName with
  | none =>
    rw [hentry] at h
    dsimp only at h
    rw [if_neg (by simpa using hne)] at h
    refine iff_of_true ?_ rfl
    obtain ⟨code, i₁, hcode, h⟩ := Gen.yields_bind.mp h
    obtain ⟨heq, rfl⟩ := Gen.yields_pure.mp h
    obtain ⟨rfl, -⟩ := Prod.mk.inj heq
    obtain ⟨body, i₂, hbody, hcode⟩ := Gen.yields_bind.mp hcode
    have hown : (stmts env {} (sections.entryBody env.config)).Yields i₂ [] i₂ := by
      rw [Sections.entryBody, hentry, Option.bind_none, Option.getD_none, stmts]
      exact Gen.yields_pure.mpr ⟨rfl, rfl⟩
    split at hcode
    · obtain ⟨rfl, rfl⟩ := Gen.yields_pure.mp hcode
      exact ⟨exitMain, by simp, [.separator], _, body, [], {}, _, _, _, by simp; rfl, rfl, hbody,
        hown⟩
    · obtain ⟨rfl, rfl⟩ := Gen.yields_pure.mp hcode
      exact ⟨[], by simp, [.separator], _, body, [], {}, _, _, _, by simp; rfl, rfl, hbody, hown⟩
  | some f =>
    rw [hentry] at h
    dsimp only at h
    rw [Option.all_some]
    unfold entryCode at h
    extract_lets +lift build at h
    have hbuild : ∀ i, (build ()).Yields i (part, hasEntry) k →
        (EntryRuns env sections part ↔ f.isHost = true) := by
      intro i hbuild
      obtain ⟨declared, i₁, -, hbuild⟩ := Gen.yields_bind.mp hbuild
      extract_lets +lift returnsValue options at hbuild
      obtain ⟨written, i₂, hwritten, hbuild⟩ := Gen.yields_bind.mp hbuild
      obtain ⟨heq, rfl⟩ := Gen.yields_pure.mp hbuild
      obtain ⟨rfl, -⟩ := Prod.mk.inj heq
      have hrequire : options.requireBody = true := by
        dsimp only [options]
        split <;> rfl
      refine entryRuns_function_iff hentry hrequire ?_ hloose hwritten
      split <;> simp
    split at h
    · -- The loose statements are lost together with a marked entry function.
      rename_i hmarker
      obtain ⟨written, i₁, hwritten, h⟩ := Gen.yields_bind.mp h
      obtain ⟨heq, -⟩ := Gen.yields_pure.mp h
      obtain ⟨rfl, -⟩ := Prod.mk.inj heq
      have hnone : f.marker.isNone = false := by simpa using hmarker
      obtain ⟨-, rfl⟩ | ⟨hunmarked, -⟩ := yields_function hwritten
      · refine iff_of_false ?_ (by simp [Function.isHost, hnone])
        rintro ⟨tail, -, hruns⟩
        exact FunctionRuns.not_of_all rfl hruns
      · simp [hnone] at hunmarked
    · split at h
      · obtain ⟨_, i₁, -, h⟩ := Gen.yields_bind.mp h
        exact hbuild i₁ h
      · exact hbuild i h

end Rust

end SourceGen
