import SourceGen.Proofs.CSharp.StaticEntry
import SourceGen.Proofs.Events
import SourceGen.Proofs.LooseCode

/-!
# Where entry points come from

The entry point of a unit is looked up in the tree before anything is written: it comes from the
declared entry function, from loose statements, or from a class or module in a language where a
function there can be one.

## Main definitions

* `EntrySource`: where an entry point comes from.
* `Sections.entrySource?`: where the entry point of a unit comes from.
-/

namespace SourceGen

/-- Where the entry point of a unit comes from. -/
inductive EntrySource where
  /-- A declared entry function, with the loose statements that it is to run first. -/
  | declared (f : Function) (loose : List Stmt)
  /-- Loose statements alone. -/
  | loose (ss : List Stmt)
  /-- A class or module with a function of the name of the entry point. -/
  | static (found : CSharp.StaticHost)

namespace Sections

variable {sections : Sections} {config : Config} {static : Option CSharp.StaticHost}

/-- Where the entry point of a unit comes from: the declared entry function unless it is marked,
loose statements without such a function, or else a class or module. -/
def entrySource? (sections : Sections) (config : Config) (static : Option CSharp.StaticHost) :
    Option EntrySource :=
  match sections.entry? config.entryName with
  | some f => if f.marker.isNone then some (.declared f sections.loose) else static.map .static
  | none => if sections.loose.isEmpty then static.map .static else some (.loose sections.loose)

/-- A class or module is the source only if the unit has no entry point of its own. -/
theorem entrySource?_of_not_hasEntry (h : sections.hasEntry config.entryName = false) :
    sections.entrySource? config static = static.map .static := by
  rw [hasEntry] at h
  rw [entrySource?]
  cases hentry : sections.entry? config.entryName with
  | some f =>
    rw [hentry, Option.elim_some] at h
    simp [h]
  | none =>
    rw [hentry, Option.elim_none] at h
    simp [(Bool.not_eq_false' ..).mp h]

/-- The source of an entry point that the unit has of its own. -/
theorem entrySource?_of_hasEntry (h : sections.hasEntry config.entryName = true) :
    (∃ f, sections.entry? config.entryName = some f ∧ f.marker.isNone = true ∧
        sections.entrySource? config static = some (.declared f sections.loose)) ∨
      sections.entry? config.entryName = none ∧ sections.loose ≠ [] ∧
        sections.entrySource? config static = some (.loose sections.loose) := by
  rw [hasEntry] at h
  rw [entrySource?]
  cases hentry : sections.entry? config.entryName with
  | some f =>
    rw [hentry, Option.elim_some] at h
    exact .inl ⟨f, rfl, h, by simp [h]⟩
  | none =>
    rw [hentry, Option.elim_none] at h
    have hloose : sections.loose.isEmpty = false := (Bool.not_eq_true' ..).mp h
    exact .inr ⟨rfl, by simpa using hloose, by simp [hloose]⟩

/-- A declared entry function has the entry name and no marker. -/
theorem of_entrySource?_eq_declared {f : Function} {loose : List Stmt}
    (h : sections.entrySource? config static = some (.declared f loose)) :
    f.name = config.entryName ∧ f.marker.isNone = true := by
  cases hhas : sections.hasEntry config.entryName with
  | true =>
    rcases entrySource?_of_hasEntry hhas with ⟨g, hentry, hmarker, hsource⟩ | ⟨-, -, hsource⟩
    · obtain ⟨rfl, -⟩ := EntrySource.declared.inj (Option.some.inj (h.symm.trans hsource))
      exact ⟨by simpa using List.find?_some hentry, hmarker⟩
    · cases h.symm.trans hsource
  | false =>
    rw [entrySource?_of_not_hasEntry hhas] at h
    obtain ⟨_, -, hstatic⟩ := Option.map_eq_some_iff.mp h
    cases hstatic

end Sections

end SourceGen
