import SourceGen.Backend
import SourceGen.Proofs.CSharp.UnitAlike
import SourceGen.Proofs.Rust.UnitAlike

/-!
# Runs of a backend

What a backend answers for a program, in terms of the events of the program: it fails exactly if
there is a refusal among them, and it reports the raw blocks among them that are written for other
targets.

## Main definitions

* `Backend.events`: the events of a program.
* `Backend.entryPoint?`: the entry point of a program.
* `Backend.Generates`: the backend answers a unit.
* `Outcome.AgreeOn`: two outcomes with the same units, as far as one looks at them.

## Main results

* `Backend.generates_iff`: when a unit is answered.
* `Backend.entryPoint_of_generate`: the entry point of a unit.
* `Backend.agreeOn_of_alike`: programs whose runs are alike.
* `Backend.skipsRaw_iff`: which raw blocks are reported as skipped.
-/

namespace SourceGen

namespace Backend

variable {b : Backend} {p : Program} {g : Generated}

/-- The events of a program for the language of the backend. -/
def events (b : Backend) (p : Program) : List Event :=
  match b.language with
  | .csharp => CSharp.events b.config p
  | .rust => Rust.events b.config p

/-- The entry point of a program in the language of the backend. -/
def entryPoint? (b : Backend) (p : Program) : Option String :=
  match b.language with
  | .csharp => CSharp.entryPoint? b.config (Stmt.flattenAll p.stmts) p.sections
  | .rust => if p.sections.hasEntry b.config.entryName then some Rust.entryName else none

/-- The backend answers a unit. -/
def Generates (b : Backend) (p : Program) : Prop :=
  ∃ g, (b.generate p).result = .ok g

theorem alike_gen (b : Backend) (p : Program) :
    Gen.Alike b.target (b.events p) (b.gen p) (b.gen p) := by
  obtain ⟨language, config, services⟩ := b
  cases language with
  | csharp =>
    exact CSharp.alike_generate rfl rfl rfl (fun _ => CSharp.alike_separated _) rfl
  | rust =>
    refine Rust.alike_generate services.formatter ?_
    exact Rust.alike_compose rfl rfl rfl fun _ _ h => Rust.alike_items h {} .space _

theorem generates_iff_of_acts {events : List Event} {needs : String → Prop}
    (hacts : Gen.Acts b.target events needs (b.gen p)) : b.Generates p ↔ .refusal ∉ events := by
  constructor
  · rintro ⟨g, hg⟩
    obtain ⟨k, hk⟩ := exists_run_of_generate hg
    exact (hacts.of_yields Journal.sorted_empty hk).1
  · intro hok
    rcases hacts Journal.sorted_empty with ⟨-, g, k, hg, -⟩ | ⟨hbad, -⟩
    · exact ⟨g, congrArg Prod.fst hg⟩
    · exact absurd hbad hok

/-- A unit is answered exactly if there is no refusal among the events. -/
theorem generates_iff : b.Generates p ↔ .refusal ∉ b.events p := by
  obtain ⟨needs, hacts, -⟩ := b.alike_gen p
  exact generates_iff_of_acts hacts

theorem entryPoint_of_generate (h : (b.generate p).result = .ok g) :
    g.entryPoint = b.entryPoint? p := by
  obtain ⟨k, hk⟩ := exists_run_of_generate h
  obtain ⟨language, config, services⟩ := b
  cases language with
  | csharp => exact CSharp.always_generate hk
  | rust => exact Rust.always_generate hk

/-- The imports of a unit are those in the journal at its end. -/
theorem imports_of_gen {k : Journal} (h : (b.gen p).Yields {} g k) : g.imports = k.imports := by
  obtain ⟨language, config, services⟩ := b
  cases language with
  | csharp => exact CSharp.imports_generate h
  | rust => exact Rust.imports_generate h

end Backend

namespace Outcome

/-- A raw block for `name` is reported as skipped. -/
def SkipsRaw (outcome : Outcome) (name : String) : Prop :=
  ∃ d ∈ outcome.diagnostics, d.SkipsRaw name

/-- Both outcomes are failures, or both are units that look the same. -/
def AgreeOn {α : Type} (view : Generated → α) (first second : Outcome) : Prop :=
  first.result.toOption.map view = second.result.toOption.map view

theorem agreeOn_iff {α : Type} {view : Generated → α} {first second : Outcome} :
    AgreeOn view first second ↔
      ((∃ g, first.result = .ok g) ↔ ∃ g, second.result = .ok g) ∧
        ∀ g g', first.result = .ok g → second.result = .ok g' → view g = view g' := by
  unfold AgreeOn
  cases first.result <;> cases second.result <;> simp [Except.toOption]

theorem agreeOn_of_none {α : Type} {view : Generated → α} {first second : Outcome}
    (h : ¬ ∃ g, first.result = .ok g) (h' : ¬ ∃ g, second.result = .ok g) :
    AgreeOn view first second :=
  agreeOn_iff.mpr ⟨iff_of_false h h', fun g _ hg _ => absurd ⟨g, hg⟩ h⟩

end Outcome

namespace Backend

variable {b : Backend} {p q : Program}

/-- Programs whose runs are alike and that have the same entry point give units with the same entry
point and the same imports. -/
theorem agreeOn_of_alike {events : List Event}
    (h : Gen.Alike b.target events (b.gen p) (b.gen q))
    (hentry : b.entryPoint? p = b.entryPoint? q) :
    Outcome.AgreeOn (fun g => (g.entryPoint, g.imports)) (b.generate p) (b.generate q) := by
  rw [Outcome.agreeOn_iff]
  constructor
  · obtain ⟨needs, hp, hq⟩ := h
    exact (generates_iff_of_acts hp).trans (generates_iff_of_acts hq).symm
  · intro g g' hg hg'
    obtain ⟨k, hk⟩ := exists_run_of_generate hg
    obtain ⟨k', hk'⟩ := exists_run_of_generate hg'
    rw [entryPoint_of_generate hg, entryPoint_of_generate hg', hentry, imports_of_gen hk,
      imports_of_gen hk', h.imports_eq Journal.sorted_empty hk hk']

theorem skipsRaw_iff_of_run {name : String} {r : Except Failure Generated} {k : Journal}
    (h : (b.gen p).run' = (r, k)) : (b.generate p).SkipsRaw name ↔ k.Skips name := by
  have hjournal : (b.generate p).diagnostics = k.diagnostics := congrArg (·.2.diagnostics) h
  rw [Outcome.SkipsRaw, Journal.Skips, hjournal]

/-- Only raw blocks among the events are reported as skipped. -/
theorem skips_of_skipsRaw {name : String} (h : (b.generate p).SkipsRaw name) :
    b.target.Skips (b.events p) name := by
  obtain ⟨needs, hacts, -⟩ := b.alike_gen p
  have hnone : ¬ ({} : Journal).Skips name := by simp [Journal.Skips]
  rcases hacts Journal.sorted_empty with ⟨-, g, k, hg, hk⟩ | ⟨-, k, ⟨e, he⟩, hskips⟩
  · exact ((hk.skips name).mp ((skipsRaw_iff_of_run hg).mp h)).resolve_left hnone
  · exact (hskips name ((skipsRaw_iff_of_run he).mp h)).resolve_left hnone

/-- A unit comes with all these reports. -/
theorem skipsRaw_iff {name : String} (h : b.Generates p) :
    (b.generate p).SkipsRaw name ↔ b.target.Skips (b.events p) name := by
  refine ⟨skips_of_skipsRaw, fun hskips => ?_⟩
  obtain ⟨g, hg⟩ := h
  obtain ⟨k, hk⟩ := exists_run_of_generate hg
  obtain ⟨needs, hacts, -⟩ := b.alike_gen p
  have hgrows := (hacts.of_yields Journal.sorted_empty hk).2
  exact (skipsRaw_iff_of_run hk).mpr ((hgrows.skips name).mpr (.inr hskips))

end Backend

end SourceGen
