import SourceGen.Proofs.FlatCode
import SourceGen.Proofs.TextLeaves
import SourceGen.Proofs.Yields

/-!
# Runs that require plain imports

The imports in a journal are written at the top of a unit. A clean run adds plain imports only, so
what it yields can be judged apart from what it records.

## Main definitions

* `Gen.Clean`: what holds of every value, of runs that keep imports plain.

## Main results

* `Gen.Clean.bind`, `Gen.Clean.importing`, `Gen.Clean.mapM`: the rules for sequences.
* `TargetName.clean_unlessMarked`, `TargetName.clean_rawCode`: what a target leaves out.
-/

namespace SourceGen

/-- No import in the journal has a delimiter. -/
def Journal.IsPlain (j : Journal) : Prop :=
  ∀ name ∈ j.imports, Text.isPlain name = true

namespace Gen

variable {α β γ : Type} {x : Gen α} {f : α → Gen β} {P : α → Prop} {Q : β → Prop}

/-- From plain imports, every run comes to plain imports and to a value that satisfies `P`. -/
def Clean (x : Gen α) (P : α → Prop) : Prop :=
  ∀ ⦃j a k⦄, x.Yields j a k → j.IsPlain → k.IsPlain ∧ P a

namespace Clean

theorem pure {a : α} (h : P a) : Clean (Pure.pure a) P := by
  intro j b k hy hj
  obtain ⟨rfl, rfl⟩ := yields_pure.mp hy
  exact ⟨hj, h⟩

theorem bind (hx : Clean x P) (hf : ∀ a, P a → Clean (f a) Q) : Clean (x >>= f) Q := by
  intro j b k hy hj
  obtain ⟨a, i, ha, hb⟩ := yields_bind.mp hy
  obtain ⟨hi, hP⟩ := hx ha hj
  exact hf a hP hb hi

theorem fail (e : Failure) : Clean (Gen.fail e) P :=
  fun _ _ _ hy => absurd hy not_yields_fail

/-- Nothing runs behind a failure. -/
theorem failed (e : Failure) : Clean (Gen.fail e >>= f) Q :=
  (fail e).bind fun _ (h : False) => h.elim

theorem report (d : Diagnostic) : Clean (Gen.report d) fun _ => True := by
  intro j u k hy hj
  rw [← yields_report.mp hy]
  exact ⟨hj, trivial⟩

/-- A report leaves the imports as they are. -/
theorem reporting {d : Diagnostic} {g : Unit → Gen β} (hg : Clean (g ()) Q) :
    Clean (Gen.report d >>= g) Q :=
  (report d).bind fun _ _ => hg

theorem requireImport {name : String} (h : Text.isPlain name = true) :
    Clean (Gen.requireImport name) fun _ => True := by
  intro j u k hy hj
  rw [← yields_requireImport.mp hy]
  refine ⟨fun other hother => ?_, trivial⟩
  rcases Journal.mem_insertSorted.mp hother with rfl | hother
  · exact h
  · exact hj other hother

/-- An import without delimiters may be added. -/
theorem importing {name : String} {g : Unit → Gen β} (h : Text.isPlain name = true)
    (hg : Clean (g ()) Q) : Clean (Gen.requireImport name >>= g) Q :=
  (requireImport h).bind fun _ _ => hg

theorem freshLabel {g : Nat → Gen β} (hg : ∀ n, Clean (g n) Q) :
    Clean (Gen.freshLabel >>= g) Q := by
  intro j b k hy hj
  obtain ⟨n, i, hn, hb⟩ := yields_bind.mp hy
  obtain ⟨rfl, rfl⟩ := yields_freshLabel.mp hn
  exact hg _ hb hj

/-- The imports that are read are those required so far. -/
theorem reading {g : Journal → Gen β} (hg : ∀ j, j.IsPlain → Clean (g j) Q) :
    Clean (get >>= g) Q := by
  intro j b k hy hj
  obtain ⟨i, i', hi, hb⟩ := yields_bind.mp hy
  cases hi
  exact hg j hj hb hj

theorem forIn {xs : List γ} {g : γ → PUnit → Gen (ForInStep PUnit)}
    (hg : ∀ x ∈ xs, ∀ u, Clean (g x u) fun _ => True) (u : PUnit) :
    Clean (ForIn.forIn xs u g) fun _ => True := by
  induction xs generalizing u with
  | nil => exact pure trivial
  | cons x xs ih =>
    obtain ⟨hx, hxs⟩ := List.forall_mem_cons.mp hg
    rw [List.forIn_cons]
    refine bind (hx u) fun step _ => ?_
    -- A step may end the loop early; the imports so far are plain then, too.
    cases step with
    | done u => exact pure trivial
    | yield u => exact ih hxs u

theorem mapM {g : γ → Gen α} {cs : List γ} (hg : ∀ c ∈ cs, Clean (g c) P) :
    Clean (cs.mapM g) fun as => ∀ a ∈ as, P a := by
  induction cs with
  | nil => exact pure (by simp)
  | cons c cs ih =>
    rw [List.mapM_cons]
    have hcs := ih fun d hd => hg d (List.mem_cons_of_mem c hd)
    refine bind (hg c List.mem_cons_self) fun a ha => bind hcs fun as has => pure ?_
    exact List.forall_mem_cons.mpr ⟨ha, has⟩

theorem optionMapM {g : γ → Gen α} {c : Option γ} (hg : ∀ d ∈ c, Clean (g d) P) :
    Clean (c.mapM g) fun a => ∀ b ∈ a, P b := by
  cases c with
  | none => exact pure (by simp)
  | some c =>
    change Clean (some <$> g c) _
    rw [← bind_pure_comp]
    exact bind (hg c rfl) fun a ha => pure (by simpa using ha)

end Clean

end Gen

/-! ### What is left out -/

namespace TargetName

variable {target : TargetName}

theorem clean_skipMarked (kind name : String) (attributes : List Attribute) :
    (target.skipMarked kind name attributes).Clean (· = (Marker.of? attributes).isSome) := by
  unfold skipMarked
  split
  · rename_i hmark
    exact .reporting (.pure (by rw [hmark]; rfl))
  · rename_i hmark
    exact .pure (by rw [hmark]; rfl)

/-- Only the texts of an unmarked declaration matter. -/
theorem clean_unlessMarked {kind name : String} {attributes : List Attribute}
    {rest : Gen (List Code)} (h : Marker.of? attributes = none → rest.Clean Code.Nested) :
    (target.skipMarked kind name attributes >>= fun skipped =>
      if skipped = true then return [] else rest).Clean Code.Nested := by
  refine .bind (clean_skipMarked kind name attributes) fun skipped hskipped => ?_
  rw [hskipped]
  split
  · exact .pure fun _ => by simp
  · rename_i hmark
    exact h (by simpa using hmark)

theorem clean_rawCode {raw : RawBlock} (h : raw.everyText target Text.isPlain = true) :
    (target.rawCode raw).Clean Code.Nested := by
  obtain ⟨name, code⟩ := raw
  simp only [RawBlock.everyText, Bool.or_eq_true] at h
  cases name with
  | none =>
    have hcode : Text.isPlain code = true := by simpa using h
    exact .pure fun _ => by simp [hcode]
  | some name =>
    simp only [rawCode]
    split
    · rename_i haccepts
      have hcode : Text.isPlain code = true := by simpa [haccepts] using h
      exact .pure fun _ => by simp [hcode]
    · exact .reporting (.pure fun _ => by simp)

theorem clean_rawCodes {raws : List RawBlock}
    (h : ∀ raw ∈ raws, raw.everyText target Text.isPlain = true) :
    (target.rawCodes raws).Clean Code.Nested := by
  induction raws with
  | nil => exact .pure fun _ => by simp
  | cons raw raws ih =>
    obtain ⟨hraw, hraws⟩ := List.forall_mem_cons.mp h
    exact .bind (clean_rawCode hraw) fun cs hcs => .bind (ih hraws) fun ds hds =>
      .pure fun _ => by simp [hcs, hds]

theorem clean_separatedRawCodes {raws : List RawBlock}
    (h : ∀ raw ∈ raws, raw.everyText target Text.isPlain = true) :
    (target.separatedRawCodes raws).Clean Code.Nested := by
  induction raws with
  | nil => exact .pure fun _ => by simp
  | cons raw raws ih =>
    obtain ⟨hraw, hraws⟩ := List.forall_mem_cons.mp h
    exact .bind (clean_rawCode hraw) fun cs hcs => .bind (ih hraws) fun ds hds =>
      .pure fun _ => by simp [hcs, hds]

theorem clean_refuseInBody (scope : Scope) (s : Stmt) :
    (target.refuseInBody scope s).Clean Code.Nested :=
  .reporting (.pure fun _ => by simp)

end TargetName

end SourceGen
