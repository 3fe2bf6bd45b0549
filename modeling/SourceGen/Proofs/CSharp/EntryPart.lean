import SourceGen.CSharp.Unit
import SourceGen.Proofs.LooseCode

/-!
# Entry points of C# units

What is written for the entry point stands in the implicit class. It runs the loose statements, and
then those of the entry function, unless the function is left out or has no body: then the loose
statements are lost.

## Main definitions

* `CSharp.EntryPart`: the part of a unit that is written for the entry point.
* `CSharp.EntryRuns`: the part runs the loose statements and then those of the entry function.

## Main results

* `CSharp.exists_entryPart`: every unit with loose statements has such a part.
* `CSharp.entryRuns_iff`: when the part runs the loose statements.
-/

namespace SourceGen

namespace CSharp

open Fragment (text)

variable {env : Env} {i j k : Journal} {code : List Code}

/-! ### Functions -/

theorem isLine_attributeLines (scope : Scope) (attributes : List Attribute) :
    (attributeLines env scope attributes).Always fun cs => cs.all Code.isLine = true := by
  induction attributes with
  | nil =>
    rw [attributeLines]
    exact .pure rfl
  | cons a attributes ih =>
    obtain ⟨name, args⟩ := a
    rw [attributeLines]
    split
    · exact ih
    · refine .after fun rendered => .bind ih fun cs hcs => .pure ?_
      simpa [Code.isLine] using hcs

/-- The text is the head of a function of this name. -/
def NamesFunction (name : String) (head : Fragment) : Prop :=
  ∃ (words generics rest : String) (pieces : Fragment),
    head = .text (words ++ " " ++ ident name ++ generics ++ "(" ++ rest) :: pieces

/-- A function is left out, or its attributes and its body are written, and unless it is a
constructor its head has its name. -/
theorem yields_function_head {scope : Scope} {options : FunctionOptions}
    {prologue : Scope → Gen (List Code)} {f : Function}
    (h : (function env scope options prologue f).Yields i code k) :
    (f.marker.isNone && !Text.hasChar '.' f.name) = false ∧ code = [] ∨
      (f.marker.isNone && !Text.hasChar '.' f.name) = true ∧
        ∃ (lines body : List Code) (inner : Scope) (head : Fragment) (j : Journal),
          lines.all Code.isLine = true ∧ code = lines ++ body ∧
            (functionBody env inner prologue head f.body).Yields j body k ∧
              (f.isConstructor = false → NamesFunction (options.name.getD f.name) head) := by
  obtain ⟨name, params, returnType, generics, modifiers, attributes, body, isConstructor,
    isStatic⟩ := f
  rw [function] at h
  obtain ⟨skipped, i₁, hskipped, h⟩ := Gen.yields_bind.mp h
  have hmarked : skipped = (Marker.of? attributes).isSome :=
    TargetName.always_skipMarked _ _ _ _ hskipped
  cases skipped with
  | true =>
    rw [if_pos rfl] at h
    refine .inl ⟨?_, (Gen.yields_pure.mp h).1.symm⟩
    simp [Function.marker, Option.isSome_iff_ne_none.mp hmarked.symm]
  | false =>
    rw [if_neg Bool.false_ne_true] at h
    have hnone : Marker.of? attributes = none := by simpa using hmarked.symm
    split at h
    · rename_i hname
      obtain ⟨_, i₂, -, h⟩ := Gen.yields_bind.mp h
      refine .inl ⟨?_, (Gen.yields_pure.mp h).1.symm⟩
      simp [hname]
    · rename_i hname
      refine .inr ⟨by simp [Function.marker, hnone, hname], ?_⟩
      obtain ⟨lines, i₂, hlines, h⟩ := Gen.yields_bind.mp h
      obtain ⟨params, i₃, -, h⟩ := Gen.yields_bind.mp h
      extract_lets +lift shown words finish named at h
      -- A constructor and any other function differ in their heads; the same body follows.
      have hfinish : ∃ head i₄, (finish head).Yields i₄ code k ∧
          (isConstructor = false → NamesFunction (options.name.getD name) head) := by
        have hnamed : ∀ returns i₄, (named returns).Yields i₄ code k →
            ∃ head i₅, (finish head).Yields i₅ code k ∧
              (isConstructor = false → NamesFunction (options.name.getD name) head) := by
          intro returns i₄ h
          obtain ⟨clauses, i₅, -, h⟩ := Gen.yields_bind.mp h
          refine ⟨_, i₅, h, fun _ => ⟨words ++ returns, genericList generics, "",
            shown ++ text (")" ++ clauses), ?_⟩⟩
          rw [String.append_empty]
          rfl
        split at h
        · rename_i hconstructor
          exact ⟨_, _, h, fun hnot => by simp [hnot] at hconstructor⟩
        · split at h
          · exact hnamed _ _ h
          · obtain ⟨returns, i₄, -, h⟩ := Gen.yields_bind.mp h
            exact hnamed returns i₄ h
      obtain ⟨head, i₄, h, hnames⟩ := hfinish
      obtain ⟨written, i₅, hwritten, h⟩ := Gen.yields_bind.mp h
      obtain ⟨rfl, rfl⟩ := Gen.yields_pure.mp h
      exact ⟨lines, written, _, _, _, isLine_attributeLines _ _ hlines, rfl, hwritten, hnames⟩

/-- A function is left out, or its attributes and its body are written. -/
theorem yields_function {scope : Scope} {options : FunctionOptions}
    {prologue : Scope → Gen (List Code)} {f : Function}
    (h : (function env scope options prologue f).Yields i code k) :
    (f.marker.isNone && !Text.hasChar '.' f.name) = false ∧ code = [] ∨
      (f.marker.isNone && !Text.hasChar '.' f.name) = true ∧
        ∃ (lines body : List Code) (inner : Scope) (head : Fragment) (j : Journal),
          lines.all Code.isLine = true ∧ code = lines ++ body ∧
            (functionBody env inner prologue head f.body).Yields j body k :=
  (yields_function_head h).imp_right fun ⟨hwritten, lines, body, inner, head, j, hlines, hcode,
    hbody, _⟩ => ⟨hwritten, lines, body, inner, head, j, hlines, hcode, hbody⟩

/-! ### The parts of a unit -/

/-- What stands outside the implicit class. -/
def outerCode (env : Env) (sections : Sections) : Gen (List Code) := do
  let raws ← target.separatedRawCodes sections.raw
  let containers ← separated env sections.containers
  return raws ++ containers

/-- The definitions of the builtins, if the unit calls them by their own names. -/
def helperCode (env : Env) : Gen (List Code) :=
  if env.config.emitShims then do
    Gen.requireImport systemNamespace
    pure [.verbatim shims]
  else pure []

/-- What stands ahead of the entry point in the implicit class; `fs` are the functions there. -/
def aheadOfEntry (env : Env) (sections : Sections) (fs : List Function) : Gen (List Code) := do
  let helpers ← helperCode env
  let fields ← members env (implicitScope env.config) .module sections.members
  let (functions, _) ← implicitFunctions env [] false fs
  return helpers ++ fields ++ functions

/-- What is written for the entry point. -/
def entryPart (env : Env) (sections : Sections) : Gen (List Code) :=
  match sections.entry? env.config.entryName with
  | some f => do
    let (code, _) ← implicitFunctions env sections.loose false [f]
    return code
  | none => looseEntry env sections.loose

/-- The implicit class in its namespace. -/
def implicitClass (config : Config) (body : List Code) : Code :=
  .block .plain (text ("namespace " ++ config.implicitNamespace))
    [.block .plain (text ("public class " ++ config.implicitClass)) body ""] ""

/-- The implicit class of the unit holds `part`, which is written for the entry point. All else is
written without the loose statements. -/
def EntryPart (env : Env) (sections : Sections) (code part : List Code) : Prop :=
  ∃ (outer ahead behind : List Code) (fs gs : List Function) (isEntry : Bool)
      (i₁ i₂ i₃ k : Journal),
    sections.functions = fs ++ (sections.entry? env.config.entryName).toList ++ gs ∧
      (outerCode env sections).Yields {} outer i₁ ∧
      (aheadOfEntry env sections fs).Yields i₁ ahead i₂ ∧
      (entryPart env sections).Yields i₂ part i₃ ∧
      (implicitFunctions env [] true gs).Yields i₃ (behind, isEntry) k ∧
      code = outer ++ [.separator, implicitClass env.config (ahead ++ part ++ behind)]

/-- Only the entry function has a use for the loose statements. -/
theorem implicitFunctions_loose (loose : List Stmt) {entrySeen : Bool} {fs : List Function}
    (h : ∀ f ∈ fs, (!entrySeen && f.name == env.config.entryName) = false) :
    implicitFunctions env loose entrySeen fs = implicitFunctions env [] entrySeen fs := by
  induction fs with
  | nil => rfl
  | cons f fs ih =>
    have hf := h f List.mem_cons_self
    have hfs := ih fun g hg => h g (List.mem_cons_of_mem f hg)
    rw [implicitFunctions, implicitFunctions, hfs]
    simp only [hf, Bool.false_eq_true, if_false]

/-- The functions ahead of the entry function are written on their own. -/
theorem yields_implicitFunctions_append {loose : List Stmt} {fs gs : List Function} {written : Bool}
    (hfs : ∀ f ∈ fs, f.name ≠ env.config.entryName)
    (h : (implicitFunctions env loose false (fs ++ gs)).Yields i (code, written) k) :
    ∃ (ahead rest : List Code) (isEntry : Bool) (j : Journal),
      (implicitFunctions env [] false fs).Yields i (ahead, isEntry) j ∧
        (implicitFunctions env loose false gs).Yields j (rest, written) k ∧
          code = ahead ++ rest := by
  induction fs generalizing i code with
  | nil => exact ⟨[], code, false, i, Gen.yields_pure.mpr ⟨rfl, rfl⟩, h, rfl⟩
  | cons f fs ih =>
    have hf : ¬ ((!false && f.name == env.config.entryName) = true) := by
      simpa using hfs f List.mem_cons_self
    rw [List.cons_append, implicitFunctions] at h
    rw [if_neg hf] at h
    obtain ⟨own, i₁, hown, h⟩ := Gen.yields_bind.mp h
    obtain ⟨⟨more, written'⟩, i₂, hmore, h⟩ := Gen.yields_bind.mp h
    obtain ⟨heq, rfl⟩ := Gen.yields_pure.mp h
    obtain ⟨rfl, rfl⟩ := Prod.mk.inj heq
    obtain ⟨ahead, rest, isEntry, j, hahead, hrest, rfl⟩ :=
      ih (fun g hg => hfs g (List.mem_cons_of_mem f hg)) hmore
    refine ⟨.separator :: own ++ ahead, rest, isEntry, j, ?_, hrest, by simp⟩
    rw [implicitFunctions, if_neg hf]
    exact Gen.yields_bind.mpr ⟨own, i₁, hown, Gen.yields_bind.mpr
      ⟨(ahead, isEntry), j, hahead, Gen.yields_pure.mpr ⟨rfl, rfl⟩⟩⟩

/-- The functions behind the entry function are written on their own as well. -/
theorem yields_implicitFunctions_cons {loose : List Stmt} {f : Function} {gs : List Function}
    {written : Bool} (hf : f.name = env.config.entryName)
    (h : (implicitFunctions env loose false (f :: gs)).Yields i (code, written) k) :
    ∃ (part behind : List Code) (isEntry : Bool) (j : Journal),
      (implicitFunctions env loose false [f]).Yields i (part, written) j ∧
        (implicitFunctions env [] true gs).Yields j (behind, isEntry) k ∧
        code = part ++ behind := by
  have hentry : (!false && f.name == env.config.entryName) = true := by simp [hf]
  rw [implicitFunctions, if_pos hentry] at h
  rw [implicitFunctions, if_pos hentry]
  -- Only what follows the entry function tells the two runs apart.
  have hsplit : ∀ (own : Gen (List Code)) (i : Journal),
      (do
        let code ← own
        let r ← implicitFunctions env loose true gs
        return (Code.separator :: code ++ r.1, f.marker.isNone)).Yields i (code, written) k →
      ∃ (part behind : List Code) (isEntry : Bool) (j : Journal),
        (do
          let code ← own
          let r ← implicitFunctions env loose true []
          return (Code.separator :: code ++ r.1, f.marker.isNone)).Yields i (part, written) j ∧
        (implicitFunctions env [] true gs).Yields j (behind, isEntry) k ∧
          code = part ++ behind := by
    intro own i h
    obtain ⟨first, i₁, hfirst, h⟩ := Gen.yields_bind.mp h
    obtain ⟨⟨behind, isEntry⟩, i₂, hbehind, h⟩ := Gen.yields_bind.mp h
    obtain ⟨heq, rfl⟩ := Gen.yields_pure.mp h
    obtain ⟨rfl, rfl⟩ := Prod.mk.inj heq
    rw [implicitFunctions_loose loose (by simp)] at hbehind
    refine ⟨.separator :: first, behind, isEntry, i₁, ?_, hbehind, rfl⟩
    refine Gen.yields_bind.mpr ⟨first, i₁, hfirst, ?_⟩
    exact Gen.yields_bind.mpr ⟨([], false), i₁, Gen.yields_pure.mpr ⟨rfl, rfl⟩,
      Gen.yields_pure.mpr ⟨by simp, rfl⟩⟩
  dsimp only at h ⊢
  by_cases hloose : (!loose.isEmpty) = true
  · rw [if_pos hloose] at h ⊢
    obtain ⟨_, i₁, hreport, h⟩ := Gen.yields_bind.mp h
    obtain ⟨part, behind, isEntry, j, hpart, hbehind, hcode⟩ := hsplit _ i₁ h
    exact ⟨part, behind, isEntry, j, Gen.yields_bind.mpr ⟨(), i₁, hreport, hpart⟩, hbehind, hcode⟩
  · rw [if_neg hloose] at h ⊢
    exact hsplit _ i h

/-- The functions of the implicit class fall into what is written for the declared entry function
and the functions around it. -/
theorem yields_implicitFunctions {sections : Sections} {written : Bool} {f : Function}
    (hentry : sections.entry? env.config.entryName = some f)
    (h : (implicitFunctions env sections.loose false sections.functions).Yields i (code, written)
      k) :
    ∃ (fs gs : List Function) (ahead part behind : List Code) (a b : Bool) (i₁ i₂ : Journal),
      sections.functions = fs ++ [f] ++ gs ∧
        (implicitFunctions env [] false fs).Yields i (ahead, a) i₁ ∧
        (entryPart env sections).Yields i₁ part i₂ ∧
        (implicitFunctions env [] true gs).Yields i₂ (behind, b) k ∧
        code = ahead ++ part ++ behind := by
  obtain ⟨hf, fs, gs, hfunctions, hfs⟩ := List.find?_eq_some_iff_append.mp hentry
  rw [hfunctions] at h
  obtain ⟨ahead, rest, a, i₁, hahead, hrest, rfl⟩ :=
    yields_implicitFunctions_append (fun g hg => by simpa using hfs g hg) h
  obtain ⟨part, behind, b, i₂, hpart, hbehind, rfl⟩ :=
    yields_implicitFunctions_cons (by simpa using hf) hrest
  refine ⟨fs, gs, ahead, part, behind, a, b, i₁, i₂, by simp [hfunctions], hahead, ?_, hbehind,
    by simp⟩
  rw [entryPart, hentry]
  exact Gen.yields_bind.mpr ⟨(part, written), i₂, hpart, Gen.yields_pure.mpr ⟨rfl, rfl⟩⟩

/-- The implicit class has what is written for the entry point among its members. -/
theorem yields_implicitContainer {sections : Sections} {entry : Option String}
    (hne : (sections.entry? env.config.entryName).isNone = true → sections.loose ≠ [])
    (h : (implicitContainer env sections).Yields i (code, entry) k) :
    ∃ (ahead part behind : List Code) (fs gs : List Function) (isEntry : Bool) (i₁ i₂ : Journal),
      sections.functions = fs ++ (sections.entry? env.config.entryName).toList ++ gs ∧
        (aheadOfEntry env sections fs).Yields i ahead i₁ ∧
        (entryPart env sections).Yields i₁ part i₂ ∧
        (implicitFunctions env [] true gs).Yields i₂ (behind, isEntry) k ∧
        code = [implicitClass env.config (ahead ++ part ++ behind)] := by
  unfold implicitContainer at h
  extract_lets config synthesized name build at h
  have hhelpers : ∃ helpers i₀, (helperCode env).Yields i helpers i₀ ∧
      (build helpers).Yields i₀ (code, entry) k := by
    by_cases hshims : env.config.emitShims = true
    · rw [if_pos hshims] at h
      obtain ⟨_, i₀, himport, h⟩ := Gen.yields_bind.mp h
      refine ⟨[.verbatim shims], i₀, ?_, h⟩
      rw [helperCode, if_pos hshims]
      exact Gen.yields_bind.mpr ⟨(), i₀, himport, Gen.yields_pure.mpr ⟨rfl, rfl⟩⟩
    · rw [if_neg hshims] at h
      refine ⟨[], i, ?_, h⟩
      rw [helperCode, if_neg hshims]
      exact Gen.yields_pure.mpr ⟨rfl, rfl⟩
  obtain ⟨helpers, i₀, hhelpers, h⟩ := hhelpers
  obtain ⟨fields, i₁, hfields, h⟩ := Gen.yields_bind.mp h
  obtain ⟨⟨functions, written⟩, i₂, hfunctions, h⟩ := Gen.yields_bind.mp h
  -- The members ahead of the entry point are the helpers, the fields and some of the functions.
  have hahead : ∀ fs own (b : Bool) (j : Journal),
      (implicitFunctions env [] false fs).Yields i₁ (own, b) j →
        (aheadOfEntry env sections fs).Yields i (helpers ++ fields ++ own) j := by
    intro fs own b j hown
    refine Gen.yields_bind.mpr ⟨helpers, i₀, hhelpers, ?_⟩
    refine Gen.yields_bind.mpr ⟨fields, i₁, hfields, ?_⟩
    exact Gen.yields_bind.mpr ⟨(own, b), j, hown, Gen.yields_pure.mpr ⟨rfl, rfl⟩⟩
  cases hentry : sections.entry? env.config.entryName with
  | some f =>
    have hsynthesized : ¬ synthesized = true := by
      simp [synthesized, config, hentry]
    dsimp only at h
    rw [if_neg hsynthesized] at h
    obtain ⟨rest, i₃, hrest, h⟩ := Gen.yields_bind.mp h
    obtain ⟨rfl, rfl⟩ := Gen.yields_pure.mp hrest
    obtain ⟨heq, rfl⟩ := Gen.yields_pure.mp h
    obtain ⟨rfl, -⟩ := Prod.mk.inj heq
    obtain ⟨fs, gs, ahead, part, behind, a, b, j₁, j₂, hsplit, hfs, hpart, hgs, rfl⟩ :=
      yields_implicitFunctions hentry hfunctions
    refine ⟨helpers ++ fields ++ ahead, part, behind, fs, gs, b, j₁, j₂, hsplit,
      hahead fs ahead a j₁ hfs, hpart, hgs, ?_⟩
    simp [implicitClass, config]
  | none =>
    have hsynthesized : synthesized = true := by
      simp [synthesized, config, hentry, hne (by rw [hentry]; rfl)]
    dsimp only at h
    rw [if_pos hsynthesized] at h
    obtain ⟨part, i₃, hpart, h⟩ := Gen.yields_bind.mp h
    obtain ⟨heq, rfl⟩ := Gen.yields_pure.mp h
    obtain ⟨rfl, -⟩ := Prod.mk.inj heq
    have hnames : ∀ f ∈ sections.functions, (!false && f.name == env.config.entryName) = false := by
      intro f hf
      simpa using List.find?_eq_none.mp hentry f hf
    rw [implicitFunctions_loose sections.loose hnames] at hfunctions
    refine ⟨helpers ++ fields ++ functions, part, [], sections.functions, [], false, i₂, i₃, ?_,
      hahead _ functions written i₂ hfunctions, ?_, Gen.yields_pure.mpr ⟨rfl, rfl⟩, ?_⟩
    · simp
    · rw [entryPart, hentry]
      exact hpart
    · simp [implicitClass, config]

/-- Every unit with an entry function or loose statements has a part that is written for its entry
point. -/
theorem exists_entryPart_of {sections : Sections} {ss : List Stmt} {entry : Option String}
    (hne : (sections.entry? env.config.entryName).isNone = true → sections.loose ≠ [])
    (h : (unitCode env ss sections).Yields {} (code, entry) k) :
    ∃ part, EntryPart env sections code part := by
  have hhas : sections.hasLooseCode = true := by
    rw [Sections.hasLooseCode]
    cases hfunctions : sections.functions with
    | nil => simp [hne (by simp [Sections.entry?, hfunctions])]
    | cons f fs => simp
  unfold unitCode at h
  obtain ⟨raws, i₁, hraws, h⟩ := Gen.yields_bind.mp h
  obtain ⟨containers, i₂, hcontainers, h⟩ := Gen.yields_bind.mp h
  have houter : (outerCode env sections).Yields {} (raws ++ containers) i₂ :=
    Gen.yields_bind.mpr ⟨raws, i₁, hraws, Gen.yields_bind.mpr ⟨containers, i₂, hcontainers,
      Gen.yields_pure.mpr ⟨rfl, rfl⟩⟩⟩
  extract_lets +lift check at h
  rw [if_pos hhas] at h
  obtain ⟨⟨container, entry'⟩, i₃, hcontainer, h⟩ := Gen.yields_bind.mp h
  have hcode : code = raws ++ containers ++ .separator :: container ∧ i₃ = k := by
    obtain ⟨r, i₄, hr, h⟩ := Gen.yields_bind.mp h
    obtain ⟨rfl, rfl⟩ := Gen.yields_pure.mp hr
    dsimp only [check] at h
    split at h
    · obtain ⟨_, _, hfail, -⟩ := Gen.yields_bind.mp h
      exact absurd hfail Gen.not_yields_fail
    · obtain ⟨heq, rfl⟩ := Gen.yields_pure.mp h
      exact ⟨(Prod.mk.inj heq).1.symm, rfl⟩
  obtain ⟨rfl, rfl⟩ := hcode
  obtain ⟨ahead, part, behind, fs, gs, isEntry, j₁, j₂, hfunctions, hahead, hpart, hbehind, rfl⟩ :=
    yields_implicitContainer hne hcontainer
  exact ⟨part, raws ++ containers, ahead, behind, fs, gs, isEntry, i₂, j₁, j₂, i₃, hfunctions,
    houter, hahead, hpart, hbehind, rfl⟩

theorem exists_entryPart {sections : Sections} {ss : List Stmt} {entry : Option String}
    (hne : sections.loose ≠ []) (h : (unitCode env ss sections).Yields {} (code, entry) k) :
    ∃ part, EntryPart env sections code part :=
  exists_entryPart_of (fun _ => hne) h

/-! ### What the entry point runs -/

/-- The entry point runs the loose statements, then those of the entry function. -/
def EntryRuns (env : Env) (sections : Sections) (part : List Code) : Prop :=
  FunctionRuns (fun scope => stmts env scope none) sections.loose (sections.entryBody env.config) []
    part

/-- A declared entry function runs the loose statements exactly if it is written with its body. -/
theorem entryRuns_function_iff {sections : Sections} {f : Function} {scope : Scope}
    {options : FunctionOptions} {written : List Code}
    (hentry : sections.entry? env.config.entryName = some f)
    (h : (function env scope options (fun inner => stmts env inner none sections.loose) f).Yields i
      written k) :
    EntryRuns env sections (.separator :: written) ↔ f.isHost = true := by
  have hown : sections.entryBody env.config = f.body.getD [] := by
    simp [Sections.entryBody, hentry]
  obtain ⟨hskipped, rfl⟩ | ⟨hwritten, lines, body, inner, head, j, hlines, rfl, hbody⟩ :=
    yields_function h
  · have hhost : ¬ f.isHost = true := by simp [Function.isHost, hskipped]
    exact iff_of_false (FunctionRuns.not_of_all rfl) hhost
  · have hseparated : (Code.separator :: lines).all Code.isLine = true := hlines
    cases hf : f.body with
    | none =>
      -- A function without a body is a line as well.
      have hhost : ¬ f.isHost = true := by simp [Function.isHost, hf]
      rw [hf, functionBody] at hbody
      obtain ⟨rfl, -⟩ := Gen.yields_pure.mp hbody
      refine iff_of_false (FunctionRuns.not_of_all ?_) hhost
      rw [← List.cons_append, List.all_append, hseparated]
      rfl
    | some own =>
      have hhost : f.isHost = true := by
        rw [Function.isHost, hwritten, hf]
        rfl
      refine iff_of_true ?_ hhost
      rw [hf, functionBody] at hbody
      obtain ⟨before, i₁, hbefore, hbody⟩ := Gen.yields_bind.mp hbody
      obtain ⟨after, i₂, hafter, hbody⟩ := Gen.yields_bind.mp hbody
      obtain ⟨rfl, rfl⟩ := Gen.yields_pure.mp hbody
      refine ⟨.separator :: lines, head, before, after, inner, j, i₁, i₂, rfl, hseparated, hbefore,
        ?_⟩
      rw [hown, hf]
      exact hafter

/-- The entry point runs the loose statements exactly if there is no declared entry function, or one
that is written with its body. -/
theorem entryRuns_iff {sections : Sections} {part : List Code}
    (h : EntryPart env sections code part) :
    EntryRuns env sections part ↔ sections.takesLoose env.config = true := by
  obtain ⟨-, -, -, -, -, -, -, i, k, -, -, -, -, h, -⟩ := h
  unfold entryPart at h
  unfold Sections.takesLoose
  cases hentry : sections.entry? env.config.entryName with
  | none =>
    rw [hentry] at h
    obtain ⟨body, i₁, hbody, h⟩ := Gen.yields_bind.mp h
    obtain ⟨rfl, rfl⟩ := Gen.yields_pure.mp h
    have hown : (stmts env (implicitScope env.config) none
        (sections.entryBody env.config)).Yields i₁ [] i₁ := by
      rw [Sections.entryBody, hentry, Option.bind_none, Option.getD_none, stmts]
      exact Gen.yields_pure.mpr ⟨rfl, rfl⟩
    refine iff_of_true ?_ rfl
    -- Without an entry function the loose code is the body of a method of its own.
    exact ⟨[.separator], _, body, [], implicitScope env.config, i, i₁, i₁, by simp; rfl, rfl, hbody,
      hown⟩
  | some f =>
    rw [hentry] at h
    rw [Option.all_some]
    have hname : (!false && f.name == env.config.entryName) = true := by
      simpa using (List.find?_eq_some_iff_append.mp hentry).1
    obtain ⟨⟨code, written⟩, i₁, hcode, h⟩ := Gen.yields_bind.mp h
    obtain ⟨rfl, -⟩ := Gen.yields_pure.mp h
    rw [implicitFunctions, if_pos hname] at hcode
    extract_lets +lift returnsValue options build at hcode
    -- The report before the entry writes nothing, so both branches end in the same code.
    have hbuild : ∀ i, (build ()).Yields i (code, written) i₁ →
        (EntryRuns env sections code ↔ f.isHost = true) := by
      intro i hbuild
      obtain ⟨own, i₂, hown, hbuild⟩ := Gen.yields_bind.mp hbuild
      obtain ⟨⟨rest, _⟩, i₃, hrest, hbuild⟩ := Gen.yields_bind.mp hbuild
      obtain ⟨heq, -⟩ := Gen.yields_pure.mp hrest
      obtain ⟨rfl, -⟩ := Prod.mk.inj heq
      obtain ⟨heq, -⟩ := Gen.yields_pure.mp hbuild
      obtain ⟨rfl, -⟩ := Prod.mk.inj heq
      rw [List.append_nil]
      exact entryRuns_function_iff hentry hown
    split at hcode
    · obtain ⟨_, i₂, -, hcode⟩ := Gen.yields_bind.mp hcode
      exact hbuild i₂ hcode
    · exact hbuild i hcode

end CSharp

end SourceGen
