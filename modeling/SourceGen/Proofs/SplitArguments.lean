import Mathlib.Data.List.Basic
import SourceGen.Proofs.TypeText

/-!
# Argument texts are cut at their commas

The argument texts between the outer commas make up the whole text again, up to a blank end. The
text may close brackets that it never opened: only the number of brackets counts, so the cuts are
known for every text.

## Main definitions

* `TypeRef.openings`, `TypeRef.closings`: how many brackets a text opens and closes.
* `TypeRef.seams`: the places of the commas between joined texts.

## Main results

* `TypeRef.intercalate_partsFrom`: the parts make up the text.
* `TypeRef.mem_seams_partsFrom_iff`: the parts are cut at the commas at depth zero.
* `TypeRef.splitArgs_lossless`: the same for the argument texts, and what is left of a blank end.
-/

namespace SourceGen

namespace TypeRef

/-! ### Counting brackets -/

/-- The number of brackets that a text opens. -/
def openings (cs : List Char) : Nat :=
  cs.countP (· ∈ ['[', '<', '('])

/-- The number of brackets that a text closes. -/
def closings (cs : List Char) : Nat :=
  cs.countP (· ∈ [']', '>', ')'])

theorem bracketWeight_eq (c : Char) :
    bracketWeight c = (openings [c] : Int) - closings [c] := by
  by_cases hopen : c = '[' ∨ c = '<' ∨ c = '('
  · -- No bracket both opens and closes.
    have hclose : ¬ (c = ']' ∨ c = '>' ∨ c = ')') := by
      rcases hopen with rfl | rfl | rfl <;> decide
    simp [bracketWeight, openings, closings, hopen, hclose]
  · by_cases hclose : c = ']' ∨ c = '>' ∨ c = ')'
    · simp [bracketWeight, openings, closings, hopen, hclose]
    · simp [bracketWeight, openings, closings, hopen, hclose]

theorem depth_eq (cs : List Char) : depth cs = (openings cs : Int) - closings cs := by
  induction cs with
  | nil => rfl
  | cons c cs ih =>
    have hopen : openings ([c] ++ cs) = openings [c] + openings cs := List.countP_append
    have hclose : closings ([c] ++ cs) = closings [c] + closings cs := List.countP_append
    rw [List.singleton_append] at hopen hclose
    rw [depth_cons, ih, bracketWeight_eq, hopen, hclose]
    omega

theorem depth_eq_zero_iff {cs : List Char} : depth cs = 0 ↔ openings cs = closings cs := by
  rw [depth_eq]
  omega

/-! ### The places of commas -/

/-- The places of the commas between texts that are joined behind `n` characters. -/
def seams (n : Nat) : List (List Char) → List Nat
  | [] => []
  | [_] => []
  | p :: q :: ps => (n + p.length) :: seams (n + p.length + 1) (q :: ps)

theorem seams_consFirst (n : Nat) (c : Char) (ps : List (List Char)) :
    seams n (Text.consFirst c ps) = seams (n + 1) ps := by
  rcases ps with _ | ⟨p, _ | ⟨q, ps⟩⟩
  · rfl
  · rfl
  · have hplace : n + (p.length + 1) = n + 1 + p.length := by omega
    simp only [Text.consFirst, seams, List.length_cons, hplace]

theorem partsFrom_ne_nil (d : Int) (cs : List Char) : partsFrom d cs ≠ [] := by
  cases cs with
  | nil => simp [partsFrom]
  | cons c cs =>
    rw [partsFrom]
    split
    · simp
    · cases partsFrom (d + bracketWeight c) cs <;> simp [Text.consFirst]

/-- The parts make up the text. -/
theorem intercalate_partsFrom (d : Int) (cs : List Char) :
    [','].intercalate (partsFrom d cs) = cs := by
  induction cs generalizing d with
  | nil => simp [partsFrom]
  | cons c cs ih =>
    rw [partsFrom]
    split
    · rename_i hcut
      rw [List.intercalate_cons_of_ne_nil (partsFrom_ne_nil d cs), ih, hcut.1]
      rfl
    · have hrest := ih (d + bracketWeight c)
      cases hparts : partsFrom (d + bracketWeight c) cs with
      | nil => exact absurd hparts (partsFrom_ne_nil _ cs)
      | cons p ps =>
        rw [hparts] at hrest
        rw [Text.consFirst, ← hrest]
        cases ps <;> simp

/-- The parts are cut at the commas at depth zero. -/
theorem mem_seams_partsFrom_iff {d : Int} {cs : List Char} {n i : Nat} :
    i ∈ seams n (partsFrom d cs) ↔
      ∃ k, i = n + k ∧ cs[k]? = some ',' ∧ d + depth (cs.take k) = 0 := by
  induction cs generalizing d n with
  | nil => simp [partsFrom, seams]
  | cons c cs ih =>
    rw [partsFrom]
    split
    · rename_i hcut
      obtain ⟨rfl, rfl⟩ := hcut
      obtain ⟨p, ps, hparts⟩ := List.exists_cons_of_ne_nil (partsFrom_ne_nil 0 cs)
      rw [hparts, seams, ← hparts, List.length_nil, Nat.add_zero, List.mem_cons, ih]
      constructor
      · rintro (rfl | ⟨k, rfl, hcomma, hdepth⟩)
        · exact ⟨0, by simp⟩
        · exact ⟨k + 1, by omega, by simpa using hcomma, by simpa [bracketWeight] using hdepth⟩
      · rintro ⟨_ | k, rfl, hcomma, hdepth⟩
        · exact .inl rfl
        · exact .inr ⟨k, by omega, by simpa using hcomma, by simpa [bracketWeight] using hdepth⟩
    · rename_i hcut
      rw [seams_consFirst, ih]
      constructor
      · rintro ⟨k, rfl, hcomma, hdepth⟩
        exact ⟨k + 1, by omega, by simpa using hcomma, by
          rw [List.take_succ_cons, depth_cons, ← hdepth, Int.add_assoc]⟩
      · rintro ⟨_ | k, rfl, hcomma, hdepth⟩
        · exact absurd ⟨by simpa using hcomma, by simpa using hdepth⟩ hcut
        · exact ⟨k, by omega, by simpa using hcomma, by
            rw [← hdepth, List.take_succ_cons, depth_cons, Int.add_assoc]⟩

/-! ### A blank end -/

/-- Only a blank last part is left out. -/
theorem dropBlankLast_eq (ps : List (List Char)) :
    dropBlankLast ps = ps ∨
      ∃ blanks, blanks.all Text.isBlank = true ∧ ps = dropBlankLast ps ++ [blanks] := by
  fun_induction dropBlankLast ps with
  | case1 => exact .inl rfl
  | case2 p hblank => exact .inr ⟨p, hblank, rfl⟩
  | case3 => exact .inl rfl
  | case4 p ps _ ih =>
    rcases ih with heq | ⟨blanks, hblank, heq⟩
    · exact .inl (by rw [heq])
    · exact .inr ⟨blanks, hblank, by rw [List.cons_append, ← heq]⟩

/-- A last text is joined by one more comma, unless it is alone. -/
theorem intercalate_concat {ps : List (List Char)} (hps : ps ≠ []) (p : List Char) :
    [','].intercalate (ps ++ [p]) = [','].intercalate ps ++ ',' :: p := by
  induction ps with
  | nil => exact absurd rfl hps
  | cons q ps ih =>
    cases ps with
    | nil => simp
    | cons r ps =>
      have hrest := ih (List.cons_ne_nil r ps)
      simp only [List.cons_append] at hrest ⊢
      rw [List.intercalate_cons_cons, hrest, List.intercalate_cons_cons]
      simp

theorem seams_concat {ps : List (List Char)} (hps : ps ≠ []) (p : List Char) (n : Nat) :
    seams n (ps ++ [p]) = seams n ps ++ [n + ([','].intercalate ps).length] := by
  induction ps generalizing n with
  | nil => exact absurd rfl hps
  | cons q ps ih =>
    cases ps with
    | nil => simp [seams]
    | cons r ps =>
      have hrest := ih (List.cons_ne_nil r ps) (n + q.length + 1)
      simp only [List.cons_append] at hrest ⊢
      rw [seams, hrest, seams, List.intercalate_cons_cons]
      simp only [List.cons_append, List.length_append, List.length_singleton]
      congr 3
      omega

/-- The argument texts make up the whole text, up to a blank end: blanks alone if there are no
arguments, or blanks behind a last comma. The commas between them and that last one are those of
the text in front of which as many brackets are closed as opened. -/
theorem splitArgs_lossless (cs : List Char) :
    ∃ rest : List Char, [','].intercalate (splitArgs cs) ++ rest = cs ∧
      (rest = [] ∨ (splitArgs cs = [] ∧ rest.all Text.isBlank = true) ∨
        ∃ blanks, rest = ',' :: blanks ∧ blanks.all Text.isBlank = true) ∧
      ∀ i, (i ∈ seams 0 (splitArgs cs) ∨
          (rest.head? = some ',' ∧ i = ([','].intercalate (splitArgs cs)).length)) ↔
        cs[i]? = some ',' ∧ openings (cs.take i) = closings (cs.take i) := by
  have hjoined := intercalate_partsFrom 0 cs
  have hseams : ∀ i, i ∈ seams 0 (partsFrom 0 cs) ↔
      cs[i]? = some ',' ∧ openings (cs.take i) = closings (cs.take i) := by
    intro i
    simp [mem_seams_partsFrom_iff, depth_eq_zero_iff]
  rcases dropBlankLast_eq (partsFrom 0 cs) with heq | ⟨blanks, hblank, heq⟩
  · -- Every part is an argument.
    refine ⟨[], ?_, .inl rfl, fun i => ?_⟩
    · rw [splitArgs, heq, List.append_nil, hjoined]
    · rw [splitArgs, heq, ← hseams]
      simp
  · rw [← splitArgs] at heq
    by_cases hnone : splitArgs cs = []
    · -- The text is blank, so it has no comma.
      rw [hnone, List.nil_append] at heq
      rw [heq, List.intercalate_singleton] at hjoined
      refine ⟨blanks, by rw [hnone]; simpa using hjoined, .inr (.inl ⟨hnone, hblank⟩), fun i => ?_⟩
      have hcomma : blanks.head? ≠ some ',' := by
        intro hhead
        have hmem := List.mem_of_head? hhead
        exact absurd (List.all_eq_true.mp hblank _ hmem) (by decide)
      rw [← hseams, heq, hnone]
      simp [seams, hcomma]
    · rw [heq, intercalate_concat hnone] at hjoined
      refine ⟨',' :: blanks, hjoined, .inr (.inr ⟨blanks, rfl, hblank⟩), fun i => ?_⟩
      rw [← hseams, heq, seams_concat hnone]
      simp

-- A bracket that was never opened makes the depth negative, and the commas behind it do not count.
example : splitArgs "a>, b".toList = ["a>, b".toList] := by decide

end TypeRef

end SourceGen
