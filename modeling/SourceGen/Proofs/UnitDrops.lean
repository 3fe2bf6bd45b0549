import SourceGen.Formatter
import SourceGen.Proofs.Drops
import SourceGen.Proofs.LooseCode
import SourceGen.Proofs.ThinCode

/-!
# Units without some marked declarations

A unit without some marked declarations keeps its entry function, the first one with the entry name,
marked or not. Without another declaration the sections of the unit are the same, up to what is
dropped from them.

## Main definitions

* `Stmt.UnitDrops`, `Program.Drops`: the second unit is the first one without some declarations.
* `Sections.Drops`: the same for the sections of a unit.
* `Formatter.IgnoresBlankLines`: a formatter to which blank lines make no difference.
* `Generated.Resembles`: generated units with the same text, up to blank lines.

## Main results

* `Stmt.unitDrops_append`: any one declaration but the entry function may be dropped.
* `Stmt.UnitDrops.sections`: what is dropped from the sections.
* `Function.UnitDrops.entry`: the entry function is kept.
-/

namespace SourceGen

/-- The statement is a function with the given name. -/
def Stmt.isFunctionNamed (name : String) : Stmt → Bool
  | .functionDecl _ f => f.name == name
  | _ => false

/-- The second unit is the first one without some declarations. The first function with the name
`entryName` is kept, unless one was `seen` before. -/
def Stmt.UnitDrops (fns : Bool) (entryName : String) (seen : Bool) :
    List Stmt → List Stmt → Prop
  | [] => fun ts => ts = []
  | s :: ss => fun ts =>
    s.droppable fns = true ∧ (!seen && s.isFunctionNamed entryName) = false ∧
      Stmt.UnitDrops fns entryName seen ss ts ∨
    ∃ t us, ts = t :: us ∧ s.Drops fns t ∧
      Stmt.UnitDrops fns entryName (seen || s.isFunctionNamed entryName) ss us

/-- The second program is the first one without some declarations other than the entry function;
includes stand for what they include. -/
def Program.Drops (fns : Bool) (entryName : String) (p q : Program) : Prop :=
  Stmt.UnitDrops fns entryName false (Stmt.flattenAll p.stmts) (Stmt.flattenAll q.stmts)

/-- The same for functions alone. -/
def Function.UnitDrops (fns : Bool) (entryName : String) (seen : Bool) :
    List Function → List Function → Prop
  | [] => fun gs => gs = []
  | f :: fs => fun gs =>
    (fns = true ∧ f.marker.isSome = true) ∧ (!seen && f.name == entryName) = false ∧
      Function.UnitDrops fns entryName seen fs gs ∨
    ∃ g hs, gs = g :: hs ∧ f.Drops fns g ∧
      Function.UnitDrops fns entryName (seen || f.name == entryName) fs hs

variable {fns seen : Bool} {entryName : String}

/-! ### Dropping one declaration -/

theorem Stmt.UnitDrops.refl (seen : Bool) (ss : List Stmt) :
    Stmt.UnitDrops fns entryName seen ss ss := by
  induction ss generalizing seen with
  | nil => rfl
  | cons s ss ih => exact .inr ⟨s, ss, rfl, .refl s, ih _⟩

/-- Any one marked declaration may be dropped that is not the first function with the entry name. -/
theorem Stmt.unitDrops_append {s : Stmt} (h : s.droppable fns = true) (ss ts : List Stmt)
    (hentry : (!(seen || ss.any (isFunctionNamed entryName)) && s.isFunctionNamed entryName) =
      false) :
    Stmt.UnitDrops fns entryName seen (ss ++ s :: ts) (ss ++ ts) := by
  induction ss generalizing seen with
  | nil =>
    rw [List.any_nil, Bool.or_false] at hentry
    exact .inl ⟨h, hentry, .refl _ _⟩
  | cons t ss ih =>
    refine .inr ⟨t, ss ++ ts, rfl, .refl t, ih ?_⟩
    rwa [List.any_cons, ← Bool.or_assoc] at hentry

/-- What stands beside the entry function is dropped as anywhere else. -/
theorem Stmt.UnitDrops.dropsAll : ∀ {ss ts : List Stmt} {seen : Bool},
    Stmt.UnitDrops fns entryName seen ss ts → Stmt.DropsAll fns ss ts
  | [], _, _ => id
  | _ :: _, _, _ => by
    rintro (⟨hs, -, h⟩ | ⟨_, _, rfl, hs, h⟩)
    · exact .drop hs h.dropsAll
    · exact .keep hs h.dropsAll

/-! ### Sections -/

/-- The second sections are the first ones without some declarations. -/
structure Sections.Drops (fns : Bool) (entryName : String) (seen : Bool) (a b : Sections) :
    Prop where
  imports : a.imports = b.imports
  aliases : a.aliases = b.aliases
  containers : Stmt.DropsAll fns a.containers b.containers
  functions : Function.UnitDrops fns entryName seen a.functions b.functions
  members : Stmt.DropsAll fns a.members b.members
  raw : a.raw = b.raw
  loose : Stmt.DropsAll fns a.loose b.loose
  isEmpty_loose : a.loose.isEmpty = b.loose.isEmpty

theorem Sections.cons_of_isLoose {s : Stmt} (h : s.isLoose = true) (sections : Sections) :
    cons s sections = { sections with loose := s :: sections.loose } := by
  cases s with
  | binding | ifThen | whileLoop | forLoop | forEach | ret | breakLoop | continueLoop | matchOn
  | switchOn | expr => rfl
  | _ => cases h

theorem Stmt.UnitDrops.sections : ∀ {ss ts : List Stmt} {seen : Bool},
    Stmt.UnitDrops fns entryName seen ss ts →
    Sections.Drops fns entryName seen (Sections.of ss) (Sections.of ts)
  | [], _, _ => by
    rintro rfl
    exact ⟨rfl, rfl, rfl, rfl, rfl, rfl, rfl, rfl⟩
  | s :: ss, ts, seen => by
    rintro (⟨hs, hentry, h⟩ | ⟨t, us, rfl, hs, h⟩)
    · have hsections := h.sections
      cases s with
      | functionDecl kind f =>
        have hdrop := Bool.and_eq_true_iff.mp hs
        exact { hsections with functions := .inl ⟨hdrop, hentry, hsections.functions⟩ }
      | fieldDecl | propertyDecl =>
        exact { hsections with members := .drop hs hsections.members }
      | _ => cases hs
    · have hsections := h.sections
      -- Only a function counts as seen.
      have hother : s.isFunctionNamed entryName = false →
          Sections.Drops fns entryName seen (Sections.of ss) (Sections.of us) := by
        intro hno
        rwa [hno, Bool.or_false] at hsections
      have hloose : s.isLoose = t.isLoose := hs.congr fun s => by cases s <;> rfl
      cases hcase : s.isLoose with
      | true =>
        have hrest := hother (by cases s <;> first | rfl | cases hcase)
        have hof : Sections.of (s :: ss) = _ := Sections.cons_of_isLoose hcase (Sections.of ss)
        have hof' : Sections.of (t :: us) = _ :=
          Sections.cons_of_isLoose (hloose ▸ hcase) (Sections.of us)
        rw [hof, hof']
        exact { hrest with loose := .keep hs hrest.loose, isEmpty_loose := rfl }
      | false =>
        cases s with
        | functionDecl kind f =>
          obtain ⟨f', rfl, hf⟩ := hs
          exact { hsections with functions := .inr ⟨f', _, rfl, hf, hsections.functions⟩ }
        | importDecl d =>
          obtain rfl := hs
          exact { hother rfl with imports := congrArg (d :: ·) (hother rfl).imports }
        | aliasDecl d =>
          obtain rfl := hs
          exact { hother rfl with aliases := congrArg (d :: ·) (hother rfl).aliases }
        | raw block =>
          obtain rfl := hs
          exact { hother rfl with raw := congrArg (block :: ·) (hother rfl).raw }
        | namespaceDecl | typeDecl | enumDecl | moduleDecl =>
          obtain ⟨_, rfl, _⟩ := id hs
          exact { hother rfl with containers := .keep hs (hother rfl).containers }
        | fieldDecl | propertyDecl =>
          obtain ⟨_, rfl, _⟩ := id hs
          exact { hother rfl with members := .keep hs (hother rfl).members }
        | includeDecl =>
          obtain ⟨_, rfl, _⟩ := hs
          exact hother rfl
        | _ => cases hcase

/-- What is seen behind a function: it is the entry function if none was seen before. -/
theorem Function.UnitDrops.seen_or (seen isNamed : Bool) :
    (seen || isNamed) = if !seen && isNamed then true else seen := by
  cases seen <;> cases isNamed <;> rfl

/-- The entry function is kept, if there is one. -/
theorem Function.UnitDrops.entry : ∀ {fs gs : List Function},
    Function.UnitDrops fns entryName false fs gs →
    (fs.find? (·.name == entryName) = none ∧ gs.find? (·.name == entryName) = none) ∨
      ∃ f g, fs.find? (·.name == entryName) = some f ∧ gs.find? (·.name == entryName) = some g ∧
        f.Drops fns g
  | [], _ => by
    rintro rfl
    exact .inl ⟨rfl, rfl⟩
  | f :: fs, _ => by
    rintro (⟨-, hname, h⟩ | ⟨g, gs, rfl, hf, h⟩)
    · have hother : (f.name == entryName) = false := hname
      rw [List.find?_cons, hother]
      exact h.entry
    · rw [List.find?_cons, List.find?_cons, ← hf.head.name]
      cases hentry : f.name == entryName with
      | true => exact .inr ⟨f, g, rfl, rfl, hf⟩
      | false =>
        rw [hentry, Bool.or_false] at h
        exact h.entry

/-! ### Generated units -/

/-- Texts that differ in blank lines are formatted to texts that differ at most in blank lines. -/
def Formatter.IgnoresBlankLines (f : Formatter) : Prop :=
  ∀ text text', Text.SameLines text.toList text'.toList →
    Text.SameLines (f.finish true text).toList (f.finish true text').toList

/-- The units have the same text, up to blank lines if functions were dropped. -/
structure Generated.Resembles (fns : Bool) (g g' : Generated) : Prop where
  imports : g.imports = g'.imports
  entryPoint : g.entryPoint = g'.entryPoint
  lines : Text.SameLines g.source.toList g'.source.toList
  source : fns = false → g.source = g'.source

/-- Code that is the same up to separators gives such units, below the same lines at the top. -/
theorem Generated.resembles_of_same {code code' : List Code} (h : Code.Same fns code code')
    (style : LayoutStyle) (top : String) (imports : List String) (entry : Option String) :
    Generated.Resembles fns
      ⟨if top.isEmpty then Code.render style code else top ++ "\n" ++ Code.render style code,
        imports, entry⟩
      ⟨if top.isEmpty then Code.render style code' else top ++ "\n" ++ Code.render style code',
        imports, entry⟩ := by
  have hrender : fns = false → Code.render style code = Code.render style code' := by
    rintro rfl
    rw [← Code.thinAll_false code, h, Code.thinAll_false]
  have hlines : Text.SameLines (Code.render style code).toList
      (Code.render style code').toList := by
    cases fns with
    | false => rw [hrender rfl]
    | true => rw [Text.SameLines, Code.squeeze_render, h, ← Code.squeeze_render]
  refine ⟨rfl, rfl, ?_, fun hfns => ?_⟩
  · dsimp only
    split
    · exact hlines
    · simp only [String.toList_append]
      exact .append rfl hlines
  · dsimp only
    rw [hrender hfns]

end SourceGen
