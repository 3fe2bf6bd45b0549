import SourceGen.Backend

/-!
# Registries

A registry knows targets by their names. A newer registration is found before an older one.

## Main definitions

* `Registry.register`: adds a target.
* `Registry.resolve`, `Registry.create`: the target with a name.
* `Registry.targets`: all registered targets, sorted by id.
-/

namespace SourceGen

/-- A registered target and what serves it, given the settings. -/
structure Registration (β : Type) where
  name : TargetName
  factory : Config → β

/-- Registered targets, the newest first. What serves them may be of any type; mostly it is a
backend. -/
structure Registry (β : Type := Backend) where
  entries : List (Registration β) := []

/-- The backend of a language. -/
def Language.backend (language : Language) (config : Config) : Backend :=
  { language, config }

/-- A language makes its own backends. -/
instance : CoeFun Language fun _ => Config → Backend :=
  ⟨Language.backend⟩

namespace Registry

variable {β : Type}

/-- The registry with one more target. -/
def register (r : Registry β) (name : TargetName) (factory : Config → β) : Registry β :=
  ⟨⟨name, factory⟩ :: r.entries⟩

/-- The registry of the target languages. -/
def defaults : Registry :=
  (({} : Registry).register CSharp.target Language.csharp).register Rust.target Language.rust

/-- The newest registration with a name. -/
def find? (r : Registry β) (id : String) : Option (Registration β) :=
  r.entries.find? (·.name.accepts id)

/-- The id of the target with a name. -/
def resolve (r : Registry β) (id : String) : Option String :=
  (r.find? id).map (·.name.id)

/-- A target has the name. -/
def contains (r : Registry β) (id : String) : Bool :=
  (r.resolve id).isSome

/-- What serves the target with a name. -/
def create (r : Registry β) (id : String) (config : Config) : Except Failure β :=
  match r.find? id with
  | some entry => .ok (entry.factory config)
  | none => .error (.unknownTarget id)

/-- The first of each run of targets with the same id. -/
def dropRepeats : List TargetName → List TargetName
  | [] => []
  | t :: ts =>
    match dropRepeats ts with
    | [] => [t]
    | u :: us => if t.id = u.id then t :: us else t :: u :: us

/-- The registered targets sorted by id, each with the names of its newest registration. -/
def targets (r : Registry β) : List TargetName :=
  -- The sort is stable, so the newest of several targets with one id stays in front.
  dropRepeats ((r.entries.map (·.name)).mergeSort fun a b => decide (a.id ≤ b.id))

end Registry

end SourceGen
