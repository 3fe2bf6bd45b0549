import Mathlib.Algebra.GroupWithZero.Nat
import SourceGen.Proofs.Alike

/-!
# What a run records

A bound for the warnings about unknown types that a successful run reports, and a list of the only
imports that it requires. The bound of a sequence is the sum of the bounds of its steps. Where a
step yields parts of a tree that are written later, it leaves a part of its bound for them.

## Main definitions

* `Diagnostic.isUnknownType`: the warning about an unknown type.
* `Gen.Spends`: a run stays within a bound and leaves a part of it.
* `Gen.Records`: a run stays within a bound.

## Main results

* `Gen.Spends.bind`, `Gen.Records.bind`: the rules for sequences.
* `Diagnostic.isUnknownType_of_clash`: the start of a message tells it apart from the warning.
-/

namespace SourceGen

/-! ### The warning about an unknown type -/

/-- How a warning about an unknown type starts. -/
def unknownTypeStart : List Char :=
  "unknown type `".toList

/-- The diagnostic is a warning about an unknown type. -/
def Diagnostic.isUnknownType (d : Diagnostic) : Bool :=
  d.severity == .warning && unknownTypeStart.isPrefixOf d.message.toList

/-- Characters that differ still differ with something behind them. -/
theorem Text.clash_append {front back : String} {ds : List Char}
    (h : clash front.toList ds = true) : clash (front ++ back).toList ds = true := by
  rw [String.toList_append]
  generalize front.toList = cs at h
  induction cs generalizing ds with
  | nil => simp [clash] at h
  | cons c cs ih =>
    cases ds with
    | nil => simp [clash] at h
    | cons d ds =>
      simp only [List.cons_append, clash, Bool.or_eq_true] at h ⊢
      exact h.imp_right ih

/-- The start of a message tells it apart from the warning about an unknown type. -/
theorem Diagnostic.isUnknownType_of_clash {d : Diagnostic}
    (h : Text.clash d.message.toList unknownTypeStart = true) : d.isUnknownType = false := by
  rw [isUnknownType, Bool.and_eq_false_iff]
  refine .inr (Bool.eq_false_iff.mpr fun starts => ?_)
  obtain ⟨rest, hrest⟩ := List.isPrefixOf_iff_prefix.mp starts
  rw [← List.append_nil d.message.toList] at hrest
  exact Text.append_ne_of_clash h _ _ hrest.symm

/-- Information is no warning of an unknown type. -/
theorem Diagnostic.isUnknownType_of_info {d : Diagnostic} (h : d.severity = .info) :
    d.isUnknownType = false := by
  simp [isUnknownType, h]

/-- No kind of statement is worded like a warning of an unknown type. -/
theorem Stmt.clash_kindName (s : Stmt) :
    Text.clash s.kindName.toList unknownTypeStart = true := by
  cases s with
  | typeDecl kind decl =>
    cases kind <;> rw [kindName] <;> rfl
  | functionDecl kind decl =>
    cases kind <;> rw [kindName] <;> rfl
  | _ =>
    rw [kindName]
    rfl

/-- The number of those warnings about unknown types that count. -/
def Journal.unknownTypes (only : Diagnostic → Bool) (j : Journal) : Nat :=
  j.diagnostics.countP fun d => d.isUnknownType && only d

namespace Gen

variable {α β : Type} {x : Gen α} {f : α → Gen β} {only : Diagnostic → Bool}
  {names : List String} {n m : Nat}

/-- A successful run reports at most `n` unknown types that count, less what it leaves for later,
and requires no imports but the given ones. -/
def Spends (only : Diagnostic → Bool) (names : List String) (n : Nat) (x : Gen α)
    (left : α → Nat) : Prop :=
  ∀ ⦃j a k⦄, x.Yields j a k →
    k.unknownTypes only + left a ≤ j.unknownTypes only + n ∧
      ∀ i ∈ k.imports, i ∈ j.imports ∨ i ∈ names

/-- A successful run reports at most `n` unknown types that count, and requires no imports but the
given ones. -/
def Records (only : Diagnostic → Bool) (names : List String) (n : Nat) (x : Gen α) : Prop :=
  Spends only names n x fun _ => 0

/-! ### Runs that leave a part of their bound -/

namespace Spends

variable {left : α → Nat} {later : β → Nat}

theorem pure {a : α} (h : left a ≤ n) : Spends only names n (Pure.pure a : Gen α) left := by
  intro j b k hy
  obtain ⟨rfl, rfl⟩ := yields_pure.mp hy
  exact ⟨by omega, fun i hi => .inl hi⟩

/-- What the first step leaves is spent by the next. -/
theorem bind (hx : Spends only names n x left)
    (hf : ∀ a, Spends only names (left a) (f a) later) : Spends only names n (x >>= f) later := by
  intro j b k hy
  obtain ⟨a, i, ha, hb⟩ := yields_bind.mp hy
  -- What the first step leaves is the bound of the second.
  obtain ⟨spentX, importsX⟩ := hx ha
  obtain ⟨spentF, importsF⟩ := hf a hb
  refine ⟨by omega, fun name hname => ?_⟩
  rcases importsF name hname with old | new
  · exact importsX name old
  · exact .inr new

theorem mono (hx : Spends only names n x left) {less : α → Nat}
    (h : ∀ a, less a + n ≤ left a + m) : Spends only names m x less := by
  intro j a k hy
  obtain ⟨spent, imports⟩ := hx hy
  have := h a
  exact ⟨by omega, imports⟩

theorem le (hx : Spends only names n x left) (h : n ≤ m) : Spends only names m x left :=
  hx.mono fun _ => by omega

/-- A run leaves more if it may spend more. -/
theorem keep (hx : Spends only names n x left) (m : Nat) :
    Spends only names (n + m) x fun a => left a + m :=
  hx.mono fun _ => by omega

/-- A run leaves what it has no use for. -/
theorem frame (hx : Records only names n x) : Spends only names (n + m) x fun _ => m :=
  Spends.mono hx fun _ => by omega

/-- The first step leaves nothing, so both bounds add up. -/
theorem step (hx : Records only names n x) (hf : ∀ a, Spends only names m (f a) later) :
    Spends only names (n + m) (x >>= f) later :=
  bind (frame hx) hf

/-- The first step reports no unknown type. -/
theorem after (hx : Records only names 0 x) (hf : ∀ a, Spends only names n (f a) later) :
    Spends only names n (x >>= f) later :=
  (step hx hf).le (by omega)

end Spends

/-! ### Runs within a bound -/

namespace Records

theorem pure (a : α) : Records only names n (Pure.pure a : Gen α) :=
  Spends.pure (Nat.zero_le n)

/-- A failing step records nothing. -/
theorem fail (e : Failure) : Records only names n (Gen.fail e : Gen α) :=
  fun _ _ _ hy => absurd hy not_yields_fail

/-- A larger bound holds as well. -/
theorem mono (hx : Records only names n x) (h : n ≤ m) : Records only names m x :=
  Spends.mono hx fun _ => by omega

/-- In sequence, the bounds add up. -/
theorem bind (hx : Records only names n x) (hf : ∀ a, Records only names m (f a)) :
    Records only names (n + m) (x >>= f) :=
  Spends.bind (Spends.frame hx) hf

/-- The first step reports no unknown type. -/
theorem after (hx : Records only names 0 x) (hf : ∀ a, Records only names n (f a)) :
    Records only names n (x >>= f) :=
  (bind hx hf).mono (by omega)

/-- The second step counts first. -/
theorem swap (hx : Records only names n x) (hf : ∀ a, Records only names m (f a)) :
    Records only names (m + n) (x >>= f) :=
  (bind hx hf).mono (by omega)

theorem map (hx : Records only names n x) (g : α → β) :
    Records only names n (x >>= fun a => Pure.pure (g a)) :=
  bind hx fun a => pure (n := 0) (g a)

/-- Nothing runs behind a failure. -/
theorem failed (e : Failure) : Records only names n (Gen.fail e >>= f) := by
  intro j b k hy
  obtain ⟨a, i, ha, -⟩ := yields_bind.mp hy
  exact absurd ha not_yields_fail

/-- A report of anything but an unknown type is not counted. -/
theorem report {d : Diagnostic} (h : d.isUnknownType = false) :
    Records only names n (Gen.report d) := by
  intro j u k hy
  rw [← yields_report.mp hy]
  exact ⟨by simp [Journal.unknownTypes, h], fun i hi => .inl hi⟩

/-- A report with another start than the one about an unknown type. -/
theorem note {d : Diagnostic} (h : Text.clash d.message.toList unknownTypeStart = true) :
    Records only names n (Gen.report d) :=
  report (Diagnostic.isUnknownType_of_clash h)

theorem information {d : Diagnostic} (h : d.severity = .info) :
    Records only names n (Gen.report d) :=
  report (Diagnostic.isUnknownType_of_info h)

/-- Any report is at most one about an unknown type. -/
theorem reportOne (d : Diagnostic) :
    Records only names (if only d then 1 else 0) (Gen.report d) := by
  intro j u k hy
  rw [← yields_report.mp hy]
  refine ⟨?_, fun i hi => .inl hi⟩
  simp only [Journal.unknownTypes, List.countP_append, List.countP_singleton, Bool.and_eq_true]
  split
  · rename_i counted
    simp only [counted.2, if_true, Nat.le_refl]
  · omega

/-- An import of the known ones may be required. -/
theorem requireImport {name : String} (h : name ∈ names) :
    Records only names n (Gen.requireImport name) := by
  intro j u k hy
  rw [← yields_requireImport.mp hy]
  refine ⟨by simp [Journal.unknownTypes], fun i hi => ?_⟩
  rcases Journal.mem_insertSorted.mp hi with rfl | old
  · exact .inr h
  · exact .inl old

theorem freshLabel : Records only names n Gen.freshLabel := by
  intro j u k hy
  obtain ⟨-, rfl⟩ := yields_freshLabel.mp hy
  exact ⟨by simp [Journal.unknownTypes], fun i hi => .inl hi⟩

theorem get : Records only names n (MonadState.get : Gen Journal) := by
  intro j i k hy
  obtain ⟨-, rfl⟩ := yields_get.mp hy
  exact ⟨Nat.le_add_right _ _, fun i hi => .inl hi⟩

/-- More imports may be required. -/
theorem weaken (hx : Records only names n x) {more : List String} (h : names ⊆ more) :
    Records only more n x := by
  intro j a k hy
  obtain ⟨spent, imports⟩ := hx hy
  exact ⟨spent, fun i hi => (imports i hi).imp_right fun own => h own⟩

/-- A loop that reports no unknown types. -/
theorem forIn {γ : Type} {g : γ → PUnit → Gen (ForInStep PUnit)} {cs : List γ}
    (hg : ∀ c ∈ cs, ∀ u, Records only names 0 (g c u)) :
    Records only names 0 (ForIn.forIn cs ⟨⟩ g) := by
  induction cs with
  | nil => exact pure _
  | cons c cs ih =>
    rw [List.forIn_cons]
    refine after (hg c (by simp) _) fun step => ?_
    cases step with
    | done u => exact pure _
    | yield u => exact ih fun d hd => hg d (by simp [hd])

/-- A list of steps records at most the sum of their bounds. -/
theorem mapM {γ : Type} {g : γ → Gen α} {weight : γ → Nat}
    (hg : ∀ c, Records only names (weight c) (g c)) (cs : List γ) :
    Records only names (cs.map weight).sum (cs.mapM g) := by
  induction cs with
  | nil => exact pure []
  | cons c cs ih =>
    rw [List.mapM_cons, List.map_cons, List.sum_cons]
    exact bind (hg c) fun a => map ih (a :: ·)

theorem optionMapM {γ : Type} {g : γ → Gen α} {weight : γ → Nat}
    (hg : ∀ c, Records only names (weight c) (g c)) (c : Option γ) :
    Records only names (c.elim 0 weight) (c.mapM g) := by
  cases c with
  | none => exact pure none
  | some c =>
    -- This is a map over the run; the rules here are about sequences.
    change Records only names (weight c) (some <$> g c)
    rw [← bind_pure_comp]
    exact map (hg c) some

end Records

end Gen

/-! ### What is left out -/

namespace TargetName

variable (target : TargetName) {only : Diagnostic → Bool} {names : List String} {n : Nat}

/-- The report of a skipped declaration is not counted. -/
theorem records_skipMarked (kind name : String) (attributes : List Attribute) :
    Gen.Records only names n (target.skipMarked kind name attributes) := by
  unfold skipMarked
  split
  · exact .after (.information rfl) fun _ => .pure true
  · exact .pure false

/-- The report of a skipped raw block is not counted. -/
theorem records_rawCode (raw : RawBlock) : Gen.Records only names n (target.rawCode raw) := by
  unfold rawCode
  split
  · split
    · exact .pure _
    · exact .after (.information rfl) fun _ => .pure []
  · exact .pure _

theorem records_rawCodes (raws : List RawBlock) :
    Gen.Records only names n (target.rawCodes raws) := by
  induction raws with
  | nil => exact .pure []
  | cons raw raws ih => exact .after (target.records_rawCode raw) fun _ => ih.map _

theorem records_separatedRawCodes (raws : List RawBlock) :
    Gen.Records only names n (target.separatedRawCodes raws) := by
  induction raws with
  | nil => exact .pure []
  | cons raw raws ih => exact .after (target.records_rawCode raw) fun _ => ih.map _

theorem records_refuseInBody (scope : Scope) (s : Stmt) :
    Gen.Records only names n (target.refuseInBody scope s) :=
  .after (.note (Text.clash_append s.clash_kindName)) fun _ => .pure []

end TargetName

end SourceGen
