import Mathlib.Algebra.GroupWithZero.Nat
import SourceGen.Proofs.Alike

/-!
# Directives

The top of a unit has a part for its imports and a part for aliases, with empty lines between them.
Imports are kept sorted, each once, so whatever is required several times has one line.

## Main definitions

* `Text.paragraphs`: the lines of some parts, with an empty line behind each of them.
* `Import.IsPlain`: the path of an import cannot be taken for an alias.

## Main results

* `Text.unlines_paragraphs_pair`: the text of two parts.
* `Gen.Acts.forIn`: what a loop requires.
* `Journal.Sorted.count_map`: each import has one line.
-/

namespace SourceGen

/-! ### Paragraphs -/

namespace Text

/-- The text of some lines. -/
def unlines (lines : List String) : String :=
  String.join (lines.map (· ++ "\n"))

/-- The lines of some parts, with an empty line behind each part that has any. -/
def paragraphs (parts : List (List String)) : List String :=
  parts.flatMap fun part => if part.isEmpty then [] else part ++ [""]

theorem unlines_append (first second : List String) :
    unlines (first ++ second) = unlines first ++ unlines second := by
  rw [unlines, List.map_append, String.join_append, unlines, unlines]

/-- Lines with one start and a semicolon at the end. -/
theorem join_map_line (front : String) (names : List String) :
    String.join (names.map fun name => front ++ name ++ ";\n") =
      unlines (names.map fun name => front ++ name ++ ";") := by
  have hend : ";\n" = ";" ++ "\n" := rfl
  rw [unlines, List.map_map]
  congr 2
  funext name
  rw [Function.comp, hend, ← String.append_assoc]

/-- What stands between two texts can be read off. -/
theorem enclose_injective (front back : String) :
    Function.Injective fun text : String => front ++ text ++ back := by
  intro first second h
  simpa [← String.toList_inj] using h

theorem isEmpty_unlines (lines : List String) : (unlines lines).isEmpty = lines.isEmpty := by
  cases lines with
  | nil => rfl
  | cons line lines =>
    rw [Bool.eq_iff_iff, String.isEmpty_iff, ← String.toList_inj]
    simp [unlines]

/-- A line that is not empty stands in the parts themselves. -/
theorem count_paragraphs {line : String} (h : line ≠ "") (parts : List (List String)) :
    (paragraphs parts).count line = (parts.map (·.count line)).sum := by
  rw [paragraphs, List.count_flatMap]
  congr 1
  refine List.map_congr_left fun part _ => ?_
  -- The line behind a part is the empty one.
  have hblank : [""].count line = 0 := by simpa [List.count_eq_zero] using h
  dsimp only [Function.comp]
  split
  · rename_i hempty
    rw [List.isEmpty_iff.mp hempty]
  · rw [List.count_append, hblank, Nat.add_zero]

/-- A part of one line. -/
theorem unlines_paragraphs_line (line : String) (parts : List (List String)) :
    unlines (paragraphs ([line] :: parts)) =
      line ++ "\n" ++ ("\n" ++ unlines (paragraphs parts)) := by
  have hcons : paragraphs ([line] :: parts) = [line] ++ ([""] ++ paragraphs parts) := rfl
  have hblank : unlines [""] = "\n" := rfl
  have hline : unlines [line] = line ++ "\n" := by simp [unlines]
  rw [hcons, unlines_append, unlines_append, hline, hblank]

/-- Two parts with an empty line between them and one behind them, where there is anything to part
from what comes next. -/
theorem unlines_paragraphs_pair (first second : List String) (body : String) :
    let top := unlines first ++
      (if second.isEmpty || first.isEmpty then "" else "\n") ++ unlines second
    (if top.isEmpty then body else top ++ "\n" ++ body) =
      unlines (paragraphs [first, second]) ++ body := by
  intro top
  -- The empty line that ends the first part is the one between both.
  have hpart : ∀ part : List String,
      unlines (if part.isEmpty then [] else part ++ [""]) =
        if part.isEmpty then "" else unlines part ++ "\n" := by
    intro part
    split
    · rfl
    · exact unlines_append part [""]
  have hparts : unlines (paragraphs [first, second]) =
      (if first.isEmpty then "" else unlines first ++ "\n") ++
        if second.isEmpty then "" else unlines second ++ "\n" := by
    rw [← hpart first, ← hpart second, ← unlines_append]
    simp [paragraphs]
  have hempty : top.isEmpty = (first.isEmpty && second.isEmpty) := by
    rw [← isEmpty_unlines first, ← isEmpty_unlines second, Bool.eq_iff_iff]
    dsimp only [top]
    cases first <;> cases second <;> simp [unlines]
  rw [hparts, hempty]
  cases first with
  | nil => cases second <;> simp [top, unlines]
  | cons _ _ => cases second <;> simp [top, unlines, String.append_assoc]

end Text

/-! ### Required imports -/

namespace Gen

variable {α : Type} {target : TargetName}

/-- A loop over a list that is never left early requires what any of its rounds requires. -/
theorem Acts.forIn {f : α → PUnit → Gen (ForInStep PUnit)} {needs : α → String → Prop}
    {as : List α} (h : ∀ a ∈ as, Acts target [] (needs a) (f a ⟨⟩))
    (hyield : ∀ a ∈ as, (f a ⟨⟩).Always (· = .yield ⟨⟩)) :
    Acts target [] (fun name => ∃ a ∈ as, needs a name) (ForIn.forIn as ⟨⟩ f) := by
  induction as with
  | nil => exact (Acts.pure _).congr (fun _ => .rfl) (by simp)
  | cons a as ih =>
    obtain ⟨ha, has⟩ := List.forall_mem_cons.mp h
    obtain ⟨hyielda, hyieldas⟩ := List.forall_mem_cons.mp hyield
    rw [List.forIn_cons]
    let rest : String → Prop := fun name => ∃ a ∈ as, needs a name
    refine (@bind_of_always _ _ _ _ _ _ _ _ rest _ ha hyielda fun step hstep => ?_).congr
      (fun _ => .rfl) fun name => ?_
    · rw [hstep]
      exact ih has hyieldas
    · simp [rest]

end Gen

/-! ### Plain imports -/

/-- No part of the path has an equals sign. -/
def Import.IsPlain (d : Import) : Prop :=
  ∀ part ∈ d.path, '=' ∉ part.toList

instance (d : Import) : Decidable d.IsPlain :=
  inferInstanceAs (Decidable (∀ part ∈ d.path, '=' ∉ part.toList))

theorem Text.notMem_join {c : Char} {sep : String} (hsep : c ∉ sep.toList) {parts : List String}
    (h : ∀ part ∈ parts, c ∉ part.toList) : c ∉ (join sep parts).toList := by
  induction parts with
  | nil => simp [join]
  | cons part parts ih =>
    obtain ⟨hpart, hparts⟩ := List.forall_mem_cons.mp h
    cases parts with
    | nil => exact hpart
    | cons next parts =>
      rw [join]
      · simp [hpart, hsep, ih hparts]
      · simp

/-- Each import in a journal has one line. -/
theorem Journal.Sorted.count_map {j : Journal} (h : j.Sorted) {line : String → String}
    (hinjective : Function.Injective line) {name : String} (hmem : name ∈ j.imports) :
    (j.imports.map line).count (line name) = 1 := by
  -- The order of the imports is strict, so none occurs twice.
  have hnodup : (j.imports.map line).Nodup := by
    refine List.Pairwise.map line (fun a b hlt hsame => ?_) h
    rw [hinjective hsame] at hlt
    exact String.lt_irrefl b hlt
  rw [hnodup.count, if_pos (List.mem_map_of_mem hmem)]

end SourceGen
