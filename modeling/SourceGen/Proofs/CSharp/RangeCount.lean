import SourceGen.CSharp.Body
import SourceGen.Proofs.Yields

/-!
# Counting literal ranges

A range between two integer literals has a number of elements, and none if it runs backwards. Two
widths limit what is written for it: the count is computed in 64 bits, and a sequence counts its
elements in 32. Beyond either of them the difference of the bounds stands in place of the count,
with a warning that the range is too long. A range that runs backwards further than 64 bits reach
gets the same warning, although it is empty.

## Main definitions

* `Range.Spans`: the bounds of a range are literals of two integers.
* `Range.size`: the number of integers in a range.
* `CSharp.sequenceText`: a range as it is written.

## Main results

* `Range.count?_eq_some_iff`: when a literal range has a count.
* `CSharp.literal_range_counts`: the count that is written, and the warning.
-/

namespace SourceGen

/-- The least integer of 64 bits. -/
def minWord : Int :=
  -9223372036854775808

/-- The greatest integer of 64 bits. -/
def maxWord : Int :=
  9223372036854775807

theorem fitsWord_eq_some_iff {n m : Int} :
    fitsWord n = some m ↔ n = m ∧ minWord ≤ n ∧ n ≤ maxWord := by
  unfold fitsWord minWord maxWord
  split
  · rename_i h
    simp [h]
  · rename_i h
    simp [h]

namespace Range

variable {r : Range} {first last c : Int}

/-- The bounds of the range are literals of these integers, or the start is omitted and zero. -/
structure Spans (r : Range) (first last : Int) : Prop where
  start : r.startValue? = some first
  stop : r.stop.bind Expr.integer? = some last

/-- The number of integers between two bounds. -/
def size (inclusive : Bool) (first last : Int) : Int :=
  max 0 (last - first + if inclusive then 1 else 0)

/-- The count is the number of integers, if it fits into 64 bits and the difference of the bounds
does so too. -/
theorem count?_eq_some_iff (h : r.Spans first last) :
    r.count? = some c ↔
      c = size r.inclusive first last ∧ c ≤ maxWord ∧ minWord ≤ last - first := by
  obtain ⟨stop, hstop, hlast⟩ := Option.bind_eq_some_iff.mp h.stop
  have hcount : r.count? = (fitsWord (last - first)).bind fun difference =>
      (fitsWord (difference + if r.inclusive then 1 else 0)).map (max · 0) := by
    have hmax (o : Option Int) : (o.bind fun count => pure (max count 0)) = o.map (max · 0) := by
      cases o <;> rfl
    simp only [count?, h.start, hstop, hlast, Option.bind_eq_bind, Option.bind_some, hmax]
  simp only [hcount, Option.bind_eq_some_iff, Option.map_eq_some_iff, fitsWord_eq_some_iff, size,
    minWord, maxWord]
  constructor
  · rintro ⟨_, ⟨rfl, hdifference⟩, _, ⟨rfl, hbounds⟩, rfl⟩
    omega
  · rintro ⟨rfl, hmax, hmin⟩
    exact ⟨_, ⟨rfl, by omega⟩, _, ⟨rfl, by omega⟩, by omega⟩

end Range

namespace CSharp

open Fragment (text)

variable {env : Env} {scope : Scope} {r : Range} {first last : Int}

/-- A literal bound as it is written. -/
def boundText : Expr → Fragment
  | .literal value => text (literal value)
  | .unary op operand _ => text (unaryOp op) ++ grouped operand (boundText operand)
  | _ => []

/-- A literal bound needs nothing and reports nothing. -/
theorem expr_of_integer? {e : Expr} {n : Int} (h : e.integer? = some n) :
    expr env scope e = pure (boundText e) := by
  induction e using Expr.integer?.induct generalizing n with
  | case1 digits => rw [expr, boundText]
  | case2 operand ih =>
    rw [Expr.integer?] at h
    obtain ⟨m, hm, -⟩ := Option.bind_eq_some_iff.mp h
    rw [expr, boundText, ih hm]
    rfl
  | case3 e hnumber hminus =>
    rw [Expr.integer?] at h
    · cases h
    · assumption
    · assumption

/-- The difference of the bounds. A start that is zero is left out. -/
def differenceText (r : Range) : Fragment :=
  let last := r.stop.elim [] fun stop => grouped stop (boundText stop)
  let difference :=
    match r.start with
    | some start =>
      if start.integer? = some 0 then last
      else last ++ text " - " ++ grouped start (boundText start)
    | none => last
  if r.inclusive then difference ++ text " + 1" else difference

/-- The number of elements of a literal range is written as a number. -/
def IsCounted (inclusive : Bool) (first last : Int) : Prop :=
  Range.size inclusive first last ≤ maxCount ∧ minWord ≤ last - first

instance (inclusive : Bool) (first last : Int) : Decidable (IsCounted inclusive first last) :=
  inferInstanceAs (Decidable (_ ∧ _))

/-- A literal range as it is written. -/
def sequenceText (r : Range) (first last : Int) : Fragment :=
  text "Enumerable.Range(" ++ r.start.elim (text "0") boundText ++ text ", " ++
    (if IsCounted r.inclusive first last then text (toString (Range.size r.inclusive first last))
      else differenceText r) ++ text ")"

/-- The journal behind a literal range. -/
def sequenceJournal (r : Range) (first last : Int) (j : Journal) : Journal :=
  { j with
    imports := Journal.insertSorted linqNamespace j.imports
    diagnostics := j.diagnostics ++
      if IsCounted r.inclusive first last then [] else [rangeTooLong] }

theorem foldedCount?_of_spans (h : r.Spans first last) :
    foldedCount? r = if IsCounted r.inclusive first last then
      some (Range.size r.inclusive first last) else none := by
  have hcount : ∀ c, foldedCount? r = some c ↔
      c = Range.size r.inclusive first last ∧ IsCounted r.inclusive first last := by
    intro c
    rw [foldedCount?, Option.filter_eq_some_iff, Range.count?_eq_some_iff h, IsCounted,
      decide_eq_true_iff, maxCount, maxWord]
    constructor
    · rintro ⟨⟨rfl, -, hmin⟩, hmax⟩
      exact ⟨rfl, hmax, hmin⟩
    · rintro ⟨rfl, hmax, hmin⟩
      exact ⟨⟨rfl, by omega, hmin⟩, hmax⟩
  split
  · rename_i hcounted
    exact (hcount _).mpr ⟨rfl, hcounted⟩
  · rename_i hcounted
    exact Option.eq_none_iff_forall_ne_some.mpr fun c hc => hcounted ((hcount c).mp hc).2

theorem exprOption_start (h : r.Spans first last) :
    exprOption env scope r.start = pure (r.start.map boundText) := by
  have hstart := h.start
  unfold Range.startValue? at hstart
  cases hr : r.start with
  | none => rw [exprOption, Option.map_none]
  | some start =>
    rw [hr] at hstart
    rw [exprOption, expr_of_integer? hstart]
    rfl

theorem exprOption_stop (h : r.Spans first last) :
    exprOption env scope r.stop = pure (r.stop.map boundText) := by
  obtain ⟨stop, hstop, hlast⟩ := Option.bind_eq_some_iff.mp h.stop
  rw [hstop, exprOption, expr_of_integer? hlast]
  rfl

theorem rangeCount_of_spans (h : r.Spans first last) :
    rangeCount r (pure (r.start.map boundText)) (pure (r.stop.map boundText)) =
      if IsCounted r.inclusive first last then
        pure (text (toString (Range.size r.inclusive first last)))
      else do
        Gen.report rangeTooLong
        return differenceText r := by
  have hliteral : r.hasLiteralBounds = true := by
    simp [Range.hasLiteralBounds, h.start, h.stop]
  obtain ⟨stop, hstop, -⟩ := Option.bind_eq_some_iff.mp h.stop
  rw [rangeCount, foldedCount?_of_spans h]
  by_cases hcounted : IsCounted r.inclusive first last
  · rw [if_pos hcounted, if_pos hcounted]
  · rw [if_neg hcounted, if_neg hcounted]
    dsimp only
    rw [if_pos hliteral, hstop, differenceText, hstop]
    cases hstart : r.start with
    | none => simp
    | some start =>
      by_cases hzero : start.integer? = some 0
      · simp [hzero]
      · simp [hzero]

/-- A literal range is written with its count, or with the difference of its bounds and a
warning. -/
theorem yields_indexSequence (h : r.Spans first last) {j k : Journal} {f : Fragment} :
    (indexSequence r (exprOption env scope r.start) (exprOption env scope r.stop)).Yields j f k ↔
      f = sequenceText r first last ∧ k = sequenceJournal r first last j := by
  have hfirst : (r.start.map boundText).getD (text "0") = r.start.elim (text "0") boundText := by
    cases r.start <;> rfl
  rw [exprOption_start h, exprOption_stop h, indexSequence, rangeCount_of_spans h, sequenceText,
    sequenceJournal]
  by_cases hcounted : IsCounted r.inclusive first last
  · simp [hcounted, hfirst, eq_comm, -bind_pure_comp]
  · simp [hcounted, hfirst, eq_comm, -bind_pure_comp]

/-- A range between literals has a count exactly if the number of its integers fits into 64 bits and
the difference of its bounds is no less than the least such integer. Wherever it is written, its
number of integers is the count if it fits into 32 bits too, and nothing is reported; else the
difference of the bounds is written, with one warning. -/
theorem literal_range_counts (h : r.Spans first last) :
    (∀ c, r.count? = some c ↔
      c = Range.size r.inclusive first last ∧ c ≤ maxWord ∧ minWord ≤ last - first) ∧
    (∀ (env : Env) (scope : Scope) (j k : Journal) (f : Fragment),
      (expr env scope (.range r.start r.stop r.inclusive)).Yields j f k ↔
        f = sequenceText r first last ∧ k = sequenceJournal r first last j) ∧
    ∀ (env : Env) (scope : Scope) (loop : Option LoopFrame) (name : String) (type : Option TypeRef)
      (body : List Stmt) (j k : Journal) (code : List Code),
      (stmt env scope loop (.forEach name type (.range r.start r.stop r.inclusive) body)).Yields
          j code k ↔
        ∃ spelling i content,
          (mapTypeOr env scope "var" type).Yields j spelling i ∧
          (stmts env scope (some ⟨i.labels, false⟩) body).Yields
            { sequenceJournal r first last i with labels := i.labels + 1 } content k ∧
          code = loopCode i.labels (text ("foreach (" ++ spelling ++ " " ++ ident name ++ " in ") ++
            sequenceText r first last ++ text ")") content := by
  refine ⟨fun c => Range.count?_eq_some_iff h, fun env scope j k f => ?_,
    fun env scope loop name type body j k code => ?_⟩
  · rw [expr]
    exact yields_indexSequence h
  · -- A counted loop needs an end, and a range with a count has one.
    obtain ⟨stop, hstop, -⟩ := Option.bind_eq_some_iff.mp h.stop
    have hnone : r.stop.isNone = false := by rw [hstop, Option.isNone_some]
    rw [stmt]
    simp only [hnone, Bool.false_eq_true, if_false, Gen.yields_bind, yields_indexSequence h,
      Gen.yields_pure, Gen.yields_freshLabel]
    constructor
    · rintro ⟨spelling, i, htype, _, _, ⟨rfl, rfl⟩, _, _, ⟨rfl, rfl⟩, _, _, ⟨rfl, rfl⟩, content, _,
        hbody, rfl, rfl⟩
      exact ⟨spelling, i, content, htype, hbody, rfl⟩
    · rintro ⟨spelling, i, content, htype, hbody, rfl⟩
      exact ⟨spelling, i, htype, _, _, ⟨rfl, rfl⟩, _, _, ⟨rfl, rfl⟩, _, _, ⟨rfl, rfl⟩, content, _,
        hbody, rfl, rfl⟩

/-- The range from the greatest integer of 64 bits back to its negation. -/
def farBackwards : Range where
  start := some (.literal (.number "9223372036854775807"))
  stop := some (.unary .minus (.literal (.number "9223372036854775807")) false)
  inclusive := false

theorem farBackwards_is_too_long :
    farBackwards.Spans 9223372036854775807 (-9223372036854775807) ∧
      Range.size false 9223372036854775807 (-9223372036854775807) = 0 ∧
      farBackwards.count? ≠ some 0 ∧
      ∀ (env : Env) (scope : Scope), ∃ (f : Fragment) (k : Journal),
        (expr env scope (.range farBackwards.start farBackwards.stop false)).Yields {} f k ∧
          f = text "Enumerable.Range(" ++ text "9223372036854775807" ++ text ", " ++
            ((text "-" ++ text "9223372036854775807").parens ++ text " - " ++
              text "9223372036854775807") ++ text ")" ∧
          k.diagnostics = [rangeTooLong] := by
  have hspans : farBackwards.Spans 9223372036854775807 (-9223372036854775807) :=
    ⟨by decide, by decide⟩
  have hlong : ¬ IsCounted false 9223372036854775807 (-9223372036854775807) := by decide
  obtain ⟨hcount, hexpr, -⟩ := literal_range_counts hspans
  refine ⟨hspans, by decide, fun h => hlong ⟨by decide, ((hcount 0).mp h).2.2⟩, fun env scope => ?_⟩
  refine ⟨_, _, (hexpr env scope {} _ _).mpr ⟨rfl, rfl⟩, ?_, ?_⟩
  · rw [sequenceText, farBackwards, if_neg hlong]
    rfl
  · rw [sequenceJournal, farBackwards, if_neg hlong]
    rfl

end CSharp

end SourceGen
