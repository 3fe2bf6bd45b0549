import SourceGen.Proofs.Rust.BodyTracks

/-!
# Jumps in counted loops

A counted loop becomes a plain loop with its step at the end of the body. The step is skipped
exactly by the `continue`s that the search for one misses, and by those in the step itself.

## Main results

* `Rust.continue_skips_step_iff`: when a plain `continue` is written in a counted loop.
-/

namespace SourceGen

namespace Rust

open Fragment (text)

variable {env : Env} {place : Place} {start : Option Stmt} {condition : Option Expr} {step : Expr}
  {body : List Stmt} {i k : Journal} {code : List Code}

/-- A loop with a step at its end, behind the first clause. -/
def counted (hasStart : Bool) (first : List Code) (header : Fragment) (inner last : List Code) :
    List Code :=
  let loop : Code := .block (.loop none) header (inner ++ last) ""
  if hasStart then [.braces (first ++ [loop])] else [loop]

/-- The labelled body of a loop. -/
def labelledBody (n : Nat) (content : List Code) : List Code :=
  [.block (.labelled n) (text ("'body_" ++ toString n ++ ":")) content ""]

/-- The body of a counted loop is labelled exactly if the search finds a `continue`. -/
theorem exists_of_yields_loopBody (h : (loopBody env place true body).Yields i code k) :
    (Stmt.anyContinues body = true ∧ ∃ n content, code = labelledBody n content ∧
      Tracks (some n) (Stmt.allTrace body) (Code.allMarks content)) ∨
    (Stmt.anyContinues body = false ∧
      Tracks none (Stmt.allTrace body) (Code.allMarks code)) := by
  unfold loopBody at h
  cases hbody : Stmt.anyContinues body with
  | true =>
    rw [hbody, Bool.and_self, if_pos rfl] at h
    obtain ⟨n, _, -, h⟩ := Gen.yields_bind.mp h
    obtain ⟨content, _, hcontent, h⟩ := Gen.yields_bind.mp h
    obtain ⟨rfl, -⟩ := Gen.yields_pure.mp h
    exact .inl ⟨rfl, n, content, rfl, tracks_stmts body hcontent⟩
  | false =>
    rw [hbody, Bool.and_false, if_neg (by simp)] at h
    exact .inr ⟨rfl, tracks_stmts body h⟩

theorem allMarks_labelledBody (n : Nat) (content : List Code) :
    Code.allMarks (labelledBody n content) =
      (Code.allMarks content).map (Mark.under [.labelled n]) := by
  rw [labelledBody, Code.allMarks_singleton, Code.marks_block rfl, Piece.allMarks_text,
    List.nil_append]
  rfl

/-- A plain `continue` of a counted loop, which skips its step, is written for a `continue` that
the search misses, or for one in the step of a loop that is in no labelled body; if the search finds
one, all those of the body leave the labelled body and the step runs. With `c = true` this is about
closures in the loop, whose jumps never have a label. -/
theorem continue_skips_step_iff
    (h : (stmt env place (.forLoop start condition (some step) body)).Yields i code k) :
    ∃ (first : List Code) (header : Fragment) (inner last : List Code),
      code = counted start.isSome first header inner last ∧
      (∀ c, Mark.AtLevel c (Code.allMarks (inner ++ last)) .nextRound ↔
        (⟨.next, c⟩ ∈ (Stmt.allTrace body).exits ∧ (c = true ∨ Stmt.anyContinues body = false)) ∨
        (⟨.next, c⟩ ∈ step.trace.exits ∧ (c = true ∨ place.continueLabel = none))) ∧
      (Stmt.anyContinues body = true → ∃ n content, inner = labelledBody n content ∧
        Mark.AtLevel false (Code.allMarks content) (.leaveBody n) ∧
        ∀ j, Mark.AtLevel false (Code.allMarks content) j →
          j = .leaveInnermost ∨ j = .leaveBody n) := by
  rw [stmt_forLoop] at h
  obtain ⟨first, _, -, h⟩ := Gen.yields_bind.mp h
  obtain ⟨header, _, -, h⟩ := Gen.yields_bind.mp h
  obtain ⟨inner, _, hinner, h⟩ := Gen.yields_bind.mp h
  obtain ⟨last, _, hlast, h⟩ := Gen.yields_bind.mp h
  obtain ⟨rfl, -⟩ := Gen.yields_pure.mp h
  -- The step is written with the label of the loop around, not with that of the body.
  have hstep : Tracks place.continueLabel step.trace (Code.allMarks last) :=
    tracks_stepLine (some step) hlast
  refine ⟨first, header, inner, last, rfl, fun c => ?_, fun hcontinues => ?_⟩
  · rw [Code.allMarks_append, Mark.atLevel_append, hstep.atLevel_nextRound_iff]
    rcases exists_of_yields_loopBody hinner with ⟨hbody, n, content, rfl, hcontent⟩ | ⟨hbody, hcode⟩
    · rw [allMarks_labelledBody, Mark.atLevel_under_of_keepsLoop rfl,
        hcontent.atLevel_nextRound_iff, hbody]
      simp
    · rw [hcode.atLevel_nextRound_iff, hbody]
      simp
  · rcases exists_of_yields_loopBody hinner with ⟨-, n, content, rfl, hcontent⟩ | ⟨hbody, -⟩
    · refine ⟨n, content, rfl, (hcontent.atLevel_iff _ _).mpr ⟨.next, ?_, rfl⟩, fun j hj => ?_⟩
      · exact Stmt.next_mem_of_anyContinues body hcontinues
      · obtain ⟨_ | _, -, rfl⟩ := (hcontent.atLevel_iff _ _).mp hj
        · exact .inl rfl
        · exact .inr rfl
    · simp [hcontinues] at hbody

/-- The search does not look into a match that stands as an expression, but its arms are written
like those of a match statement. -/
theorem continue_in_match_skips_step :
    ∃ (code : List Code) (k : Journal),
      (stmt ⟨{}, {}, []⟩ {} (.forLoop none none (some (.unary .plusPlus (.ident "i") true))
        [.expr (.matchOn (.ident "i") [⟨.default, .block [.continueLoop]⟩])])).Yields {} code k ∧
      ∃ (header : Fragment) (content : List Code),
        code = [.block (.loop none) header content ""] ∧
          Mark.AtLevel false (Code.allMarks content) .nextRound := by
  refine ⟨_, _, rfl, ?_⟩
  obtain ⟨first, header, inner, last, hcode, hskips, -⟩ := continue_skips_step_iff
    (rfl : (stmt ⟨{}, {}, []⟩ {} (.forLoop none none (some (.unary .plusPlus (.ident "i") true))
      [.expr (.matchOn (.ident "i") [⟨.default, .block [.continueLoop]⟩])])).Yields {} _ _)
  exact ⟨header, inner ++ last, hcode, (hskips false).mpr (.inl ⟨by decide, .inr rfl⟩)⟩

end Rust

end SourceGen
