import SourceGen.Generated

/-!
# Formatters

A formatter prints a finished text anew. It comes from outside, so all that is known of it is what a
use of it assumes.

## Main definitions

* `Formatter`: prints a text anew, or says why it cannot be read.
* `Formatter.finish`: a text, formatted if the settings ask for it.
* `Formatter.Keeps`: formatting does not change how a text reads.
* `Generated.finished`: a unit with its text finished.
-/

namespace SourceGen

/-- A formatter of target text: the text printed anew, or why it cannot be read. -/
structure Formatter where
  reprint : String → Except String String

namespace Formatter

/-- The formatter that reads nothing. -/
def absent : Formatter :=
  ⟨fun _ => .error "no formatter"⟩

/-- The text, formatted if that is asked for; a text that cannot be read stays as it is. -/
def finish (f : Formatter) (asked : Bool) (text : String) : String :=
  if asked then
    match f.reprint text with
    | .ok shown => shown
    | .error _ => text
  else text

/-- A text that is printed anew reads as before: `view` is what a reader sees of a text, such as its
syntax tree. -/
def Keeps {α : Type} (f : Formatter) (view : String → α) : Prop :=
  ∀ text shown, f.reprint text = .ok shown → view shown = view text

/-- Without formatting the text is as it was written. -/
@[simp] theorem finish_false (f : Formatter) (text : String) : f.finish false text = text :=
  rfl

/-- A finished text reads like the text that was written. -/
theorem view_finish {α : Type} {f : Formatter} {view : String → α} {asked : Bool}
    (h : asked = true → f.Keeps view) (text : String) : view (f.finish asked text) = view text := by
  cases asked with
  | false => rfl
  | true =>
    unfold finish
    rw [if_pos rfl]
    cases hshown : f.reprint text with
    | ok shown => exact h rfl text shown hshown
    | error reason => rfl

end Formatter

/-- The unit with its text finished. -/
def Generated.finished (g : Generated) (f : Formatter) (asked : Bool) : Generated :=
  { g with source := f.finish asked g.source }

end SourceGen
