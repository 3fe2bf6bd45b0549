import SourceGen.Proofs.Mirrored
import SourceGen.Proofs.Records
import SourceGen.Rust.Unit

/-!
# Formatted units

A unit is formatted after it is written. Apart from a report, formatting changes no more than its
text, so what is known of a unit as it is written carries over to the finished one.

## Main results

* `Rust.yields_formatted`: a unit is formatted in every state.
* `Rust.exists_compose_of_generate`: a finished unit is one that is written.
* `Rust.alike_formatted`, `Rust.records_formatted`: the runs of the last step.
-/

namespace SourceGen

namespace Rust

variable {formatter : Formatter} {config : Config} {program : Program} {g : Generated}
  {j k : Journal}

/-- The unit that is written is the finished one, but for its text, and it is always finished. The
journal gains no more than a report. -/
theorem yields_formatted (formatter : Formatter) (config : Config) (w : Generated) (j : Journal) :
    ∃ k, (formatted formatter config w).Yields j (w.finished formatter config.formatOutput) k ∧
      k.Agrees j := by
  unfold formatted Generated.finished Formatter.finish
  cases config.formatOutput with
  | false => exact ⟨j, Gen.yields_pure.mpr ⟨rfl, rfl⟩, .refl j⟩
  | true =>
    rw [if_pos rfl, if_pos rfl]
    cases formatter.reprint w.source with
    | ok shown => exact ⟨j, Gen.yields_pure.mpr ⟨rfl, rfl⟩, .refl j⟩
    | error reason => exact ⟨_, rfl, rfl, rfl⟩

/-- A finished unit is one that is written, finished. -/
theorem exists_compose_of_generate (h : (generate formatter config program).Yields j g k) :
    ∃ w i, (compose config program).Yields j w i ∧ k.Agrees i ∧
      g = w.finished formatter config.formatOutput := by
  obtain ⟨w, i, hw, hformatted⟩ := Gen.yields_bind.mp h
  obtain ⟨k', hk', hagrees⟩ := yields_formatted formatter config w i
  -- A run has one result only.
  obtain ⟨hg, rfl⟩ := Prod.mk.inj (hformatted.symm.trans hk')
  exact ⟨w, i, hw, hagrees, Except.ok.inj hg⟩

/-! ### The last step of a run -/

/-- The warning about formatting is not the report about a raw block. -/
theorem not_skipsRaw_formattingSkipped (reason name : String) :
    ¬ (formattingSkipped reason).SkipsRaw name := by
  intro h
  have hmessage : (formattingSkipped reason).message = "formatting skipped: " ++ reason := rfl
  have htexts := congrArg String.toList (hmessage.symm.trans h)
  simp only [String.toList_append, List.append_assoc] at htexts
  exact Text.append_ne_of_clash (by decide) _ _ htexts

theorem acts_formatted (w : Generated) :
    Gen.Acts target [] (fun _ => False) (formatted formatter config w) := by
  unfold formatted
  split
  · split
    · exact .pure _
    · exact .map (.report (not_skipsRaw_formattingSkipped _)) fun _ => w
  · exact .pure w

theorem alike_formatted (w w' : Generated) :
    Gen.Alike target [] (formatted formatter config w) (formatted formatter config w') :=
  ⟨_, acts_formatted w, acts_formatted w'⟩

theorem records_formatted {only : Diagnostic → Bool} {names : List String} (w : Generated) :
    Gen.Records only names 0 (formatted formatter config w) := by
  unfold formatted
  split
  · split
    · exact .pure _
    · exact .after (.note (Text.clash_append rfl)) fun _ => .pure w
  · exact .pure w

/-- Units that are finished in the same way come from runs that mirror each other. -/
theorem mirrored_generate {R : Generated → Generated → Prop} {p q : Program}
    (formatter : Formatter) (h : Gen.Mirrored R (compose config p) (compose config q)) :
    Gen.Mirrored
      (fun g g' => ∃ w w', R w w' ∧ g = w.finished formatter config.formatOutput ∧
        g' = w'.finished formatter config.formatOutput)
      (generate formatter config p) (generate formatter config q) := by
  intro j j' g k hj hg
  obtain ⟨w, i, hw, hk, rfl⟩ := exists_compose_of_generate hg
  obtain ⟨w', i', hw', hi, hR⟩ := h hj hw
  obtain ⟨k', hk', hagrees⟩ := yields_formatted formatter config w' i'
  refine ⟨_, k', Gen.yields_bind.mpr ⟨w', i', hw', hk'⟩, ?_, w, w', hR, rfl, rfl⟩
  exact hk.trans (hi.trans hagrees.symm)

end Rust

end SourceGen
