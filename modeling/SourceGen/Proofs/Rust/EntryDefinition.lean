import SourceGen.Proofs.EntrySource
import SourceGen.Proofs.Rust.EntryPart

/-!
# Definitions of Rust entry points

What is written for the source of an entry point stands at the end of a unit. It is a function under
the name of the entry point, or one that the entry point behind it runs to exit with its result. A
declared entry function with a qualified name is left out, and the definition with it.

## Main definitions

* `Rust.WritesEntry`: the code is written for the source of an entry point.
* `Rust.DefinesEntry`: the code defines the entry point.

## Main results

* `Rust.exists_unitCode_eq_append`: a unit ends with what is written for the source.
* `Rust.definesEntry_iff`: when that is a definition.
-/

namespace SourceGen

namespace Rust

open Fragment (text)

variable {env : Env} {i j k : Journal} {code part own : List Code}

/-- The code is a function of this name, below lines. -/
def DefinesFunction (name : String) (code : List Code) : Prop :=
  ∃ (lines : List Code) (head : String) (body : List Code),
    code = lines ++ [.block .function (text head) body ""] ∧ lines.all Code.isLine = true ∧
      NamesFunction name head

/-- The code is the entry point, or a function that the entry point behind it runs. -/
def DefinesMain (own tail : List Code) : Prop :=
  DefinesFunction entryName own ∧ tail = [] ∨ DefinesFunction valueEntryName own ∧ tail = exitMain

theorem not_definesMain_nil {tail : List Code} : ¬ DefinesMain [] tail := by
  rintro (⟨⟨lines, head, body, hnil, -⟩, -⟩ | ⟨⟨lines, head, body, hnil, -⟩, -⟩) <;> simp at hnil

/-! ### Sources of entry points -/

/-- The code is written for the source; a class or module is none. -/
def WritesEntry (env : Env) : EntrySource → List Code → Prop
  | .declared f ss, part =>
    ∃ (hasEntry : Bool) (i k : Journal), (entryCode env f ss).Yields i (part, hasEntry) k
  | .loose ss, part => ∃ i k, (looseMain env ss).Yields i part k
  | .static _, _ => False

/-- The code has a definition of the entry point: what is written for the declared function, or a
function of the loose statements. -/
def DefinesEntry (env : Env) : EntrySource → List Code → Prop
  | .declared f _, part =>
    ∃ (own tail : List Code) (place : Place) (options : FunctionOptions)
      (prologue : Place → Gen (List Code)) (i k : Journal), part = .separator :: own ++ tail ∧
        (function env place options prologue f).Yields i own k ∧ DefinesMain own tail
  | .loose _, part => ∃ own tail, part = .separator :: own ++ tail ∧ DefinesMain own tail
  | .static _, _ => False

/-- The definition of the entry point is not left out. -/
def entryIsDefined : EntrySource → Bool
  | .declared f _ => !Text.hasChar '.' f.name
  | .loose _ => true
  | .static _ => false

/-- A unit ends with what is written for the source of its entry point. -/
theorem exists_unitCode_eq_append {sections : Sections} {source : EntrySource} {hasEntry : Bool}
    (h : (unitCode env sections).Yields {} (code, hasEntry) k)
    (hsource : sections.entrySource? env.config none = some source) :
    ∃ ahead part, code = ahead ++ part ∧ WritesEntry env source part := by
  obtain ⟨part, ahead, hasEntry, i, k, -, hpart, rfl⟩ := exists_entryPart h
  refine ⟨ahead, part, rfl, ?_⟩
  unfold entryPart at hpart
  cases hhas : sections.hasEntry env.config.entryName with
  | true =>
    obtain ⟨f, hentry, -, hdeclared⟩ | ⟨hentry, hne, hloose⟩ :=
      Sections.entrySource?_of_hasEntry hhas
    · obtain rfl := Option.some.inj (hdeclared.symm.trans hsource)
      rw [hentry] at hpart
      exact ⟨hasEntry, i, k, hpart⟩
    · obtain rfl := Option.some.inj (hloose.symm.trans hsource)
      rw [hentry] at hpart
      dsimp only at hpart
      rw [if_neg (by simpa using hne)] at hpart
      obtain ⟨own, i₁, hown, hpart⟩ := Gen.yields_bind.mp hpart
      obtain ⟨heq, -⟩ := Gen.yields_pure.mp hpart
      obtain ⟨rfl, -⟩ := Prod.mk.inj heq
      exact ⟨i, i₁, hown⟩
  | false =>
    rw [Sections.entrySource?_of_not_hasEntry hhas] at hsource
    cases hsource

/-! ### When entry points are defined -/

theorem definesFunction_of_yields {f : Function} {place : Place} {options : FunctionOptions}
    {prologue : Place → Gen (List Code)}
    (hf : (f.marker.isNone && !Text.hasChar '.' f.name) = true)
    (hrequire : options.requireBody = true)
    (h : (function env place options prologue f).Yields i own k) :
    DefinesFunction (options.name.getD f.name) own := by
  obtain ⟨hskipped, -⟩ | ⟨-, lines, body, inner, head, j, hlines, rfl, hbody, hhead⟩ :=
    yields_function_head h
  · simp [hf] at hskipped
  · cases hstmts : f.body with
    | none =>
      rw [hstmts, functionBody, if_pos hrequire] at hbody
      obtain ⟨rfl, -⟩ := Gen.yields_pure.mp hbody
      exact ⟨lines, head, _, rfl, hlines, hhead⟩
    | some stmts =>
      rw [hstmts, functionBody] at hbody
      obtain ⟨before, i₁, -, hbody⟩ := Gen.yields_bind.mp hbody
      obtain ⟨after, i₂, -, hbody⟩ := Gen.yields_bind.mp hbody
      obtain ⟨rfl, -⟩ := Gen.yields_pure.mp hbody
      exact ⟨lines, head, _, rfl, hlines, hhead⟩

/-- What is written for a declared entry function is the function under the name of the entry point,
or under another name with an entry point behind it. -/
theorem yields_declared {f : Function} {ss : List Stmt} {hasEntry : Bool}
    (hmarker : f.marker.isNone = true) (h : (entryCode env f ss).Yields i (part, hasEntry) k) :
    ∃ (own tail : List Code) (options : FunctionOptions) (prologue : Place → Gen (List Code))
      (i' k' : Journal), part = .separator :: own ++ tail ∧
        (function env {} options prologue f).Yields i' own k' ∧ options.requireBody = true ∧
        (options.name = some entryName ∧ tail = [] ∨
          options.name = some valueEntryName ∧ tail = exitMain) := by
  unfold entryCode at h
  extract_lets +lift build at h
  rw [if_neg (by simpa using hmarker)] at h
  have hrun : ∃ i, (build ()).Yields i (part, hasEntry) k := by
    split at h
    · obtain ⟨_, i₁, -, h⟩ := Gen.yields_bind.mp h
      exact ⟨i₁, h⟩
    · exact ⟨i, h⟩
  obtain ⟨i₁, hrun⟩ := hrun
  obtain ⟨declared, i₂, -, hrun⟩ := Gen.yields_bind.mp hrun
  -- A result is turned into an exit code by another function, which then has the entry name.
  extract_lets +lift returnsValue options at hrun
  obtain ⟨own, i₃, hown, hrun⟩ := Gen.yields_bind.mp hrun
  obtain ⟨heq, -⟩ := Gen.yields_pure.mp hrun
  obtain ⟨rfl, -⟩ := Prod.mk.inj heq
  refine ⟨own, _, options, _, i₂, i₃, rfl, hown, ?_, ?_⟩
  · dsimp only [options]
    split <;> rfl
  · dsimp only [options]
    split
    · exact .inr ⟨rfl, rfl⟩
    · exact .inl ⟨rfl, rfl⟩

theorem definesEntry_looseMain {ss : List Stmt} (h : (looseMain env ss).Yields i part k) :
    DefinesEntry env (.loose ss) part := by
  obtain ⟨body, i₁, -, h⟩ := Gen.yields_bind.mp h
  split at h
  · obtain ⟨rfl, -⟩ := Gen.yields_pure.mp h
    refine ⟨[.block .function _ body ""], exitMain, rfl, .inr ⟨⟨[], _, body, rfl, rfl, ?_⟩, rfl⟩⟩
    exact ⟨"", "", "", " -> " ++ exitType, by decide⟩
  · obtain ⟨rfl, -⟩ := Gen.yields_pure.mp h
    refine ⟨[.block .function _ body ""], [], rfl, .inl ⟨⟨[], _, body, rfl, rfl, ?_⟩, rfl⟩⟩
    exact ⟨"", "", "", "", by decide⟩

/-- What is written for the source of an entry point is a definition exactly if it is not left
out. -/
theorem definesEntry_iff {sections : Sections} {static : Option CSharp.StaticHost}
    {source : EntrySource} (h : WritesEntry env source part)
    (hsource : sections.entrySource? env.config static = some source) :
    DefinesEntry env source part ↔ entryIsDefined source = true := by
  cases source with
  | declared f loose =>
    obtain ⟨hasEntry, i, k, h⟩ := h
    have hmarker := (Sections.of_entrySource?_eq_declared hsource).2
    rw [entryIsDefined]
    constructor
    · rintro ⟨own, tail, place, options, prologue, i', k', -, hown, hdefines⟩
      obtain ⟨-, rfl⟩ | ⟨hwritten, -⟩ := yields_function hown
      · exact absurd hdefines not_definesMain_nil
      · rwa [hmarker, Bool.true_and] at hwritten
    · intro hname
      obtain ⟨own, tail, options, prologue, i', k', rfl, hown, hrequire, hcases⟩ :=
        yields_declared hmarker h
      have hdefines := definesFunction_of_yields (by rw [hmarker, hname]; rfl) hrequire hown
      refine ⟨own, tail, {}, options, prologue, i', k', rfl, hown, ?_⟩
      rcases hcases with ⟨hoptions, htail⟩ | ⟨hoptions, htail⟩
      · rw [hoptions] at hdefines
        exact .inl ⟨hdefines, htail⟩
      · rw [hoptions] at hdefines
        exact .inr ⟨hdefines, htail⟩
  | loose ss =>
    obtain ⟨i, k, h⟩ := h
    exact iff_of_true (definesEntry_looseMain h) rfl
  | static found => exact h.elim

end Rust

end SourceGen
