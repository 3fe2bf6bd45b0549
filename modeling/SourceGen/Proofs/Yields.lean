import SourceGen.Omission

/-!
# Successful runs

A generator that succeeds from one journal yields a value and another journal. A run of a sequence
falls apart into runs of its steps, so what every step ensures is ensured by the sequence. Failed
runs yield nothing and have nothing to ensure.

## Main definitions

* `Gen.Yields`: a run that succeeds.
* `Gen.Ensures`: what holds of the value and of the labels in use after a run.
* `Gen.KeepsLabels`: no run uses a label.
* `Gen.Always`: what holds of every value, whatever labels are in use.

## Main results

* `Gen.yields_bind`: a run of two steps is two runs.
* `Gen.Ensures.bind`, `Gen.Ensures.after`, `Gen.Ensures.freshLabel`: the rules for sequences.
-/

namespace SourceGen

namespace Gen

variable {α β : Type} {x : Gen α} {f : α → Gen β} {a : α} {b : β} {j k : Journal}

/-- From the journal `j` the generator succeeds with `a` and leaves the journal `k`. -/
def Yields (x : Gen α) (j : Journal) (a : α) (k : Journal) : Prop :=
  StateT.run (ExceptT.run x) j = (.ok a, k)

@[simp] theorem yields_pure {a' : α} :
    (pure a : Gen α).Yields j a' k ↔ a = a' ∧ j = k := by
  change (Except.ok a, j) = (Except.ok a', k) ↔ _
  simp

/-- A sequence yields what its second step yields from where its first one stopped. -/
@[simp] theorem yields_bind :
    (x >>= f).Yields j b k ↔ ∃ a i, x.Yields j a i ∧ (f a).Yields i b k := by
  unfold Yields
  rw [ExceptT.run_bind, StateT.run_bind]
  -- All that matters of the first step is whether it failed, and the journal it leaves.
  generalize StateT.run (ExceptT.run x) j = r
  rcases r with ⟨e | a, i⟩
  · constructor
    · intro h
      cases h
    · rintro ⟨a, i', hx, -⟩
      cases hx
  · constructor
    · intro h
      exact ⟨a, i, rfl, h⟩
    · rintro ⟨a', i', hx, h⟩
      cases hx
      exact h

/-- A failure yields nothing. -/
@[simp] theorem not_yields_fail {e : Failure} : ¬ (fail e : Gen α).Yields j a k := by
  intro h
  change (Except.error e, j) = (Except.ok a, k) at h
  simp at h

@[simp] theorem yields_report {d : Diagnostic} {u : Unit} :
    (report d).Yields j u k ↔ { j with diagnostics := j.diagnostics ++ [d] } = k := by
  change (Except.ok (), _) = (Except.ok u, k) ↔ _
  simp

@[simp] theorem yields_requireImport {name : String} {u : Unit} :
    (requireImport name).Yields j u k ↔
      { j with imports := Journal.insertSorted name j.imports } = k := by
  change (Except.ok (), _) = (Except.ok u, k) ↔ _
  simp

@[simp] theorem yields_freshLabel {n : Nat} :
    freshLabel.Yields j n k ↔ j.labels = n ∧ { j with labels := j.labels + 1 } = k := by
  change (Except.ok j.labels, _) = (Except.ok n, k) ↔ _
  simp

@[simp] theorem yields_get {i : Journal} :
    (MonadState.get : Gen Journal).Yields j i k ↔ j = i ∧ j = k := by
  change (Except.ok j, j) = (Except.ok i, k) ↔ _
  simp

/-! ### Runs that use no label -/

/-- No run of the generator uses a label. -/
def KeepsLabels (x : Gen α) : Prop :=
  ∀ ⦃j a k⦄, x.Yields j a k → k.labels = j.labels

namespace KeepsLabels

theorem pure (a : α) : KeepsLabels (Pure.pure a : Gen α) := by
  rintro j b k h
  obtain ⟨-, rfl⟩ := yields_pure.mp h
  rfl

/-- In sequence, label numbers are kept when both steps keep them. -/
theorem bind (hx : x.KeepsLabels) (hf : ∀ a, (f a).KeepsLabels) : (x >>= f).KeepsLabels := by
  rintro j b k h
  obtain ⟨a, i, ha, hb⟩ := yields_bind.mp h
  rw [hf a hb, hx ha]

theorem report (d : Diagnostic) : (Gen.report d).KeepsLabels := by
  rintro j u k h
  rw [← yields_report.mp h]

theorem requireImport (name : String) : (Gen.requireImport name).KeepsLabels := by
  rintro j u k h
  rw [← yields_requireImport.mp h]

theorem mapM {γ : Type} {g : γ → Gen α} (hg : ∀ c, (g c).KeepsLabels) (cs : List γ) :
    (cs.mapM g).KeepsLabels := by
  induction cs with
  | nil => exact pure []
  | cons c cs ih =>
    rw [List.mapM_cons]
    exact bind (hg c) fun a => bind ih fun as => pure (a :: as)

theorem optionMapM {γ : Type} {g : γ → Gen α} (hg : ∀ c, (g c).KeepsLabels) (c : Option γ) :
    (c.mapM g).KeepsLabels := by
  cases c with
  | none => exact pure none
  | some c =>
    change (some <$> g c).KeepsLabels
    rw [← bind_pure_comp]
    exact bind (hg c) fun a => pure (some a)

end KeepsLabels

/-! ### What holds of every value -/

/-- Every value that a run yields satisfies `P`. -/
def Always (x : Gen α) (P : α → Prop) : Prop :=
  ∀ ⦃j a k⦄, x.Yields j a k → P a

/-- A value is one that the run yields. -/
theorem always_yields (x : Gen α) : x.Always fun a => ∃ j k, x.Yields j a k :=
  fun j _ k hy => ⟨j, k, hy⟩

namespace Always

variable {P : α → Prop} {Q : β → Prop}

theorem pure (h : P a) : Always (Pure.pure a) P := by
  intro j b k hy
  obtain ⟨rfl, -⟩ := yields_pure.mp hy
  exact h

/-- What always holds after the first step may be used of the second. -/
theorem bind (hx : Always x P) (hf : ∀ a, P a → Always (f a) Q) : Always (x >>= f) Q := by
  intro j b k hy
  obtain ⟨a, i, ha, hb⟩ := yields_bind.mp hy
  exact hf a (hx ha) hb

/-- The first step may yield anything. -/
theorem after (hf : ∀ a, Always (f a) Q) : Always (x >>= f) Q := by
  intro j b k hy
  obtain ⟨a, i, -, hb⟩ := yields_bind.mp hy
  exact hf a hb

theorem fail (e : Failure) : Always (Gen.fail e) P :=
  fun _ _ _ hy => absurd hy not_yields_fail

/-- Nothing runs behind a failure. -/
theorem failed (e : Failure) : Always (Gen.fail e >>= f) Q :=
  (fail e).bind fun _ (h : False) => h.elim

/-- A weaker postcondition holds as well. -/
theorem mono {P' : α → Prop} (hx : Always x P) (h : ∀ a, P a → P' a) : Always x P' :=
  fun _ _ _ hy => h _ (hx hy)

/-- Two postconditions hold together. -/
theorem and {P' : α → Prop} (hx : Always x P) (hx' : Always x P') :
    Always x fun a => P a ∧ P' a :=
  fun _ _ _ hy => ⟨hx hy, hx' hy⟩

end Always

/-! ### What runs ensure -/

/-- After every successful run with `n` labels in use, the number of labels in use and the value
satisfy `Q`. -/
def Ensures (n : Nat) (x : Gen α) (Q : Nat → α → Prop) : Prop :=
  ∀ ⦃j a k⦄, j.labels = n → x.Yields j a k → Q k.labels a

namespace Ensures

variable {n : Nat} {P : Nat → α → Prop} {Q : Nat → β → Prop}

theorem pure (h : P n a) : Ensures n (Pure.pure a) P := by
  rintro j b k rfl hy
  obtain ⟨rfl, rfl⟩ := yields_pure.mp hy
  exact h

/-- The second step starts at the label number the first one stops at. -/
theorem bind (hx : Ensures n x P) (hf : ∀ m a, P m a → Ensures m (f a) Q) :
    Ensures n (x >>= f) Q := by
  rintro j b k rfl hy
  obtain ⟨a, i, ha, hb⟩ := yields_bind.mp hy
  exact hf _ a (hx rfl ha) rfl hb

/-- A first step that uses no label may be forgotten. -/
theorem after (hx : x.KeepsLabels) (hf : ∀ a, Ensures n (f a) Q) : Ensures n (x >>= f) Q := by
  rintro j b k rfl hy
  obtain ⟨a, i, ha, hb⟩ := yields_bind.mp hy
  exact hf a (hx ha) hb

/-- A label gets the number of labels in use. -/
theorem freshLabel {g : Nat → Gen β} (hg : Ensures (n + 1) (g n) Q) :
    Ensures n (Gen.freshLabel >>= g) Q := by
  rintro j b k rfl hy
  obtain ⟨m, i, hm, hb⟩ := yields_bind.mp hy
  obtain ⟨rfl, rfl⟩ := yields_freshLabel.mp hm
  exact hg rfl hb

theorem fail (e : Failure) : Ensures n (Gen.fail e) P :=
  fun _ _ _ _ hy => absurd hy not_yields_fail

/-- Nothing runs behind a failure. -/
theorem failed (e : Failure) : Ensures n (Gen.fail e >>= f) Q :=
  (fail e).bind fun _ _ (h : False) => h.elim

theorem mono {P' : Nat → α → Prop} (hx : Ensures n x P) (h : ∀ m a, P m a → P' m a) :
    Ensures n x P' :=
  fun _ _ _ hn hy => h _ _ (hx hn hy)

/-- What does not depend on the labels in use holds of every value. -/
theorem always {P : α → Prop} (hx : ∀ n, Ensures n x fun _ a => P a) : x.Always P :=
  fun j _ _ hy => hx j.labels rfl hy

end Ensures

/-! ### Sequences that agree -/

/-- Two sequences run alike if their first steps do and the others agree on what is yielded. -/
theorem run_bind_congr {g : α → Gen β} (h : ∀ a k, x.Yields j a k → f a k = g a k) :
    (x >>= f) j = (x >>= g) j := by
  have hrun : ∀ w : α → Gen β, (x >>= w) j =
      match StateT.run (ExceptT.run x) j with
      | (.ok a, k) => w a k
      | (.error e, k) => (Except.error e, k) := by
    intro w
    change (ExceptT.run (x >>= w)).run j = _
    rw [ExceptT.run_bind, StateT.run_bind]
    generalize StateT.run (ExceptT.run x) j = r
    rcases r with ⟨e | a, k⟩ <;> rfl
  rw [hrun, hrun]
  cases hr : StateT.run (ExceptT.run x) j with
  | mk result k =>
    cases result with
    | error e => rfl
    | ok a => exact h a k hr

/-- What follows may depend on what holds of every value. -/
theorem Always.bind_congr {g : α → Gen β} {P : α → Prop} (hx : x.Always P)
    (h : ∀ a, P a → f a = g a) : (x >>= f) = x >>= g :=
  funext fun _ => run_bind_congr fun a k hy => congrFun (h a (hx hy)) k

/-- What follows a new label may depend on what is ensured with that label in use. -/
theorem freshLabel_bind_congr {y : Nat → Gen α} {P : Nat → Nat → α → Prop} {u v : Nat → α → β}
    (hy : ∀ n, (y n).Ensures (n + 1) (P n)) (h : ∀ n m a, P n m a → u n a = v n a) :
    (freshLabel >>= fun n => y n >>= fun a => Pure.pure (u n a)) =
      freshLabel >>= fun n => y n >>= fun a => Pure.pure (v n a) := by
  funext j
  refine run_bind_congr fun n i hn => ?_
  obtain ⟨rfl, rfl⟩ := yields_freshLabel.mp hn
  exact run_bind_congr fun a k ha => by rw [h _ _ a (hy _ rfl ha)]

end Gen

/-! ### What is left out -/

namespace TargetName

variable (target : TargetName)

theorem keepsLabels_skipMarked (kind name : String) (attributes : List Attribute) :
    (target.skipMarked kind name attributes).KeepsLabels := by
  unfold skipMarked
  split
  · exact .bind (.report _) fun _ => .pure true
  · exact .pure false

/-- A declaration is skipped exactly if it has a marker. -/
theorem always_skipMarked (kind name : String) (attributes : List Attribute) :
    (target.skipMarked kind name attributes).Always (· = (Marker.of? attributes).isSome) := by
  unfold skipMarked
  split
  · rename_i h
    exact .after fun _ => .pure (by simp [h])
  · rename_i h
    exact .pure (by simp [h])

/-- A raw block becomes verbatim text or nothing. -/
theorem ensures_rawCode (raw : RawBlock) (n : Nat) :
    (target.rawCode raw).Ensures n fun m code =>
      m = n ∧ (code = [] ∨ code = [.verbatim raw.code]) := by
  unfold rawCode
  split
  · split
    · exact .pure ⟨rfl, .inr rfl⟩
    · exact .after (.report _) fun _ => .pure ⟨rfl, .inl rfl⟩
  · exact .pure ⟨rfl, .inr rfl⟩

/-- A refused statement becomes nothing. -/
theorem ensures_refuseInBody (scope : Scope) (s : Stmt) (n : Nat) :
    (target.refuseInBody scope s).Ensures n fun m code => m = n ∧ code = [] :=
  .after (.report _) fun _ => .pure ⟨rfl, rfl⟩

end TargetName

end SourceGen
